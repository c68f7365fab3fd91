import SovaVerified.Json.Proofs.DecodingProofs
import SovaVerified.Regex.Proofs.SearchProofs
import SovaVerified.Utils.ExtractJson

/-!
# The text inside a code fence

What `strip_code_fences` makes of a text that starts with a fence and has another one at the beginning of a
later line: either the lines between the two, or a text that still has a fence in it.
-/

namespace Utils.Markdown

variable {a b line tag t : Text} {width : Nat}

theorem isTick_of_prefix_fence (h : a <+: fence) : ∀ c ∈ a, isTick c = true := by
  intro c hc
  have hall : fence.all isTick = true := rfl
  exact List.all_eq_true.mp hall c (h.subset hc)

/-! ## The last line -/

theorem fullMatch_closingLineRe (hfence : fence <+: line) (hticks : ∀ c ∈ line, isTick c = true) :
    Regex.fullMatch closingLineRe line = true := by
  have hlength : 3 ≤ line.length := hfence.length_le
  refine (Regex.fullMatch_iff _ _).mpr ⟨[], line, rfl, ⟨Nat.zero_le _, nofun, nofun⟩, line, [], ?_, ?_, ?_⟩
  · exact (List.append_nil line).symm
  · exact ⟨hlength, nofun, hticks⟩
  · exact ⟨Nat.zero_le _, nofun, nofun⟩

/-- Of a line, nothing but the backticks at its end is taken away. -/
theorem rdropWhile_isPrefix_stripGlued (line : Text) (width : Nat) :
    line.rdropWhile isTick <+: stripGluedClosingFence line width := by
  unfold stripGluedClosingFence
  dsimp only
  split_ifs
  · exact List.rdropWhile_prefix isTick line
  · split
    · exact List.prefix_rfl
    · split_ifs
      · exact List.prefix_append _ _
      · exact List.prefix_rfl

/-- The fence that a line starts with stays, unless the line closes the block. -/
theorem fence_isPrefix_stripGlued (hfence : fence <+: line)
    (hopen : ¬Regex.fullMatch closingLineRe line = true) : fence <+: stripGluedClosingFence line width := by
  have hbody := rdropWhile_isPrefix_stripGlued line width
  rcases List.prefix_or_prefix_of_prefix hfence (List.rdropWhile_prefix isTick line) with hin | hover
  · exact hin.trans hbody
  · refine absurd (fullMatch_closingLineRe hfence fun c hc => ?_) hopen
    rw [← List.rdropWhile_append_rtakeWhile (p := isTick) (l := line), List.mem_append] at hc
    rcases hc with hc | hc
    · exact isTick_of_prefix_fence hover c hc
    · exact List.mem_rtakeWhile_imp hc

/-! ## The lines -/

/-- The lines from one that starts with a fence on are dropped, or there is still a fence in them. -/
theorem withoutClosingFence_fence (width : Nat) (hfence : fence <+: line)
    (front others : List Text) :
    withoutClosingFence width (front ++ line :: others) = front ∨
      ∃ l ∈ withoutClosingFence width (front ++ line :: others), fence <+: l := by
  unfold withoutClosingFence
  rcases List.eq_nil_or_concat others with rfl | ⟨mid, last, rfl⟩
  · rw [List.getLast?_concat, List.dropLast_concat]
    dsimp only
    split_ifs with hclosing
    · exact .inl rfl
    · exact .inr ⟨stripGluedClosingFence line width, by simp, fence_isPrefix_stripGlued hfence hclosing⟩
  · have hlast : front ++ line :: mid.concat last = (front ++ line :: mid) ++ [last] := by simp
    rw [hlast, List.getLast?_concat, List.dropLast_concat]
    dsimp only
    right
    split_ifs
    · exact ⟨line, by simp, hfence⟩
    · exact ⟨line, by simp, hfence⟩

theorem splitOn_fence (a : Text) : ∃ line others, (fence ++ a).splitOn '\n' = line :: others ∧ fence <+: line := by
  obtain ⟨first, others, hsplit⟩ := List.exists_cons_of_ne_nil (List.splitOn_ne_nil '\n' a)
  refine ⟨fence ++ first, others, ?_, List.prefix_append _ _⟩
  simp [fence, List.splitOn_cons_eq_if_modifyHead, hsplit]

/-- A block between two fences, with any tag behind the first one and any text behind the second one. -/
def block (tag t a : Text) : Text := fence ++ (tag ++ '\n' :: (t ++ '\n' :: (fence ++ a)))

theorem stripCodeFences_block (A : Text.Alphabet) (hb : ∀ c ∈ b, isTick c = true) (htag : '\n' ∉ tag)
    (hstrip : Text.strip (b ++ block tag t a) = b ++ block tag t a) :
    stripCodeFences A (b ++ block tag t a) = Text.strip t ∨
      fence <:+: stripCodeFences A (b ++ block tag t a) := by
  have hopening : ∀ c ∈ b ++ fence, isTick c = true := by
    intro c hc
    rcases List.mem_append.mp hc with hc | hc
    · exact hb c hc
    · exact isTick_of_prefix_fence List.prefix_rfl c hc
  have hline : '\n' ∉ b ++ (fence ++ tag) := by
    intro hmem
    rw [← List.append_assoc, List.mem_append] at hmem
    rcases hmem with hmem | hmem
    · exact absurd (hopening _ hmem) (by decide)
    · exact htag hmem
  have hsplit : b ++ block tag t a = (b ++ (fence ++ tag)) ++ '\n' :: (t ++ '\n' :: (fence ++ a)) := by
    simp [block]
  have hwidth : ¬((b ++ block tag t a).takeWhile isTick).length < 3 := by
    have hfront : b ++ block tag t a = (b ++ fence) ++ (tag ++ '\n' :: (t ++ '\n' :: (fence ++ a))) := by
      simp [block]
    rw [hfront, List.takeWhile_append_of_pos hopening]
    simp [fence]
    omega
  have hnewline : ¬ '\n' ∉ b ++ block tag t a := by
    rw [hsplit]
    simp
  obtain ⟨line, others, hlines, hfence⟩ := splitOn_fence a
  unfold stripCodeFences
  rw [hstrip]
  dsimp only
  rw [if_neg hwidth, if_neg hnewline]
  generalize ((b ++ block tag t a).takeWhile isTick).length = width
  rw [hsplit, List.splitOn_append_cons_self_of_not_mem hline, List.tail_cons, List.splitOn_append_cons_self,
    hlines]
  rcases withoutClosingFence_fence width hfence (t.splitOn '\n') others with hdropped | ⟨l, hl, hin⟩
  · left
    rw [hdropped]
    unfold Text.join
    rw [List.intercalate_splitOn]
  · right
    have hjoined := hin.isInfix.trans (Text.infix_join ['\n'] hl)
    exact Text.infix_strip (Text.forall_mem_of_all rfl) nofun hjoined

end Utils.Markdown

/-!
# JSON from a fenced block

What `extract_json` returns of an object that stands in a code fence between prose. The end of the block is
the next three backticks, wherever they are: an object is read back exactly when it is written without three
backticks in a row (`extractJson_jsonFence_iff`).
-/

namespace Utils

open Markdown

variable {a b before after t : Text} {members : List (Text × Json)}

/-- The object's text in a fence with the tag of its language. -/
def jsonFence (t : Text) : Text := "```json\n".toList ++ (t ++ "\n```".toList)

theorem fence_ne_nil : fence ≠ [] := nofun

theorem not_mem_fence : '\n' ∉ fence := by decide

/-! ## The text of an object -/

theorem strip_object (h : Json.Denotes t (.obj members)) : Text.strip t = t := by
  obtain ⟨mid, rfl⟩ := h.enclosed rfl
  have hends : Text.strip ([] ++ ('{' :: mid ++ ['}']) ++ []) = [] ++ ('{' :: mid ++ ['}']) ++ [] :=
    Text.strip_append_middle rfl rfl [] mid []
  simpa using hends

/-- No object is read from a part of an object's text that ends before it. -/
theorem loads_strip_take {members' : List (Text × Json)} {n : Nat} (h : Json.Denotes t (.obj members))
    (hn : n < t.length) : Json.loads (Text.strip (t.take n)) ≠ .ok (.obj members') := by
  intro hloads
  obtain ⟨front, text, gap, hfront, hdenotes, -, hout⟩ := Json.loads_sound hloads
  obtain ⟨x, y, htake, hx, -⟩ := Text.strip_spec (t.take n)
  obtain ⟨mid, hbraces⟩ := h.enclosed rfl
  rw [hout] at htake
  have hsplit : t = (x ++ front) ++ (text ++ (gap ++ (y ++ t.drop n))) := calc
    t = t.take n ++ t.drop n := (List.take_append_drop n t).symm
    _ = _ := by
      rw [htake]
      simp
  have hnothing : x ++ front = [] := by
    cases hcase : x ++ front with
    | nil => rfl
    | cons c rest =>
      rw [hcase, hbraces] at hsplit
      obtain rfl : '{' = c := (List.cons.inj hsplit).1
      have hmem : '{' ∈ x ++ front := by
        rw [hcase]
        exact List.mem_cons_self
      rcases List.mem_append.mp hmem with hc | hc
      · exact absurd (hx _ hc) (by decide)
      · exact absurd (hfront _ hc) (by decide)
  rw [hnothing, List.nil_append] at hsplit
  rw [hsplit] at h
  have hrest : gap ++ (y ++ t.drop n) = [] := (hdenotes.append_eq rfl h).1
  have hdrop : t.drop n = [] := (List.append_eq_nil_iff.mp (List.append_eq_nil_iff.mp hrest).2).2
  have hlength := List.drop_eq_nil_iff.mp hdrop
  omega

/-! ## The block -/

/-- The first fenced block ends where three backticks come next. -/
theorem fenced_block (hb : ¬fence <:+: b) (t a : Text) :
    fenced (b ++ block "json".toList t a) =
      some (Text.strip (t.take ((Text.find fence t).getD t.length))) := by
  obtain ⟨start, hstart, hfind, hticks⟩ := Text.find_append_self fence_ne_nil hb
    ("json".toList ++ '\n' :: (t ++ '\n' :: (fence ++ a)))
  have hopened : (b ++ block "json".toList t a).drop start =
      (b.drop start ++ (fence ++ "json".toList)) ++ '\n' :: (t ++ '\n' :: (fence ++ a)) := by
    rw [List.drop_append_of_le_length hstart]
    simp [block]
  have hline : '\n' ∉ b.drop start ++ (fence ++ "json".toList) := by
    intro hmem
    rcases List.mem_append.mp hmem with hmem | hmem
    · exact not_mem_fence (hticks.subset hmem)
    · exact absurd hmem (by decide)
  have hclosing : Text.find fence ('\n' :: (t ++ '\n' :: (fence ++ a))) =
      some ((Text.find fence t).getD t.length.succ + 1) := by
    have hskip : Text.find fence ('\n' :: t) = (Text.find fence t).map (· + 1) := rfl
    rw [← List.cons_append, Text.find_append_cons not_mem_fence fence_ne_nil, hskip,
      Text.find_self fence_ne_nil]
    cases Text.find fence t with
    | some n => rfl
    | none => simp
  unfold fenced
  rw [show Text.find fence (b ++ block "json".toList t a) = some start from hfind]
  dsimp only [bind, Option.bind]
  rw [hopened, Text.find_singleton hline]
  dsimp only
  rw [List.drop_left, hclosing]
  dsimp only
  rw [List.take_succ_cons, List.drop_one, List.tail_cons]
  cases hfound : Text.find fence t with
  | none =>
    have htake : (t ++ '\n' :: (fence ++ a)).take t.length.succ = t ++ ['\n'] := by
      rw [List.take_append, List.take_of_length_le (Nat.le_succ _)]
      simp
    have hnewline : ∀ c ∈ ['\n'], Text.isSpace c = true := Text.forall_mem_of_all rfl
    rw [Option.getD_none, Option.getD_none, htake, Text.strip_append hnewline, List.take_length]
  | some n =>
    have hn := Text.lt_length_of_find fence_ne_nil hfound
    rw [Option.getD_some, Option.getD_some, List.take_append_of_le_length hn.le]

/-- A wrapped object is unwrapped whole, or not at all. -/
theorem wrapped_block (A : Text.Alphabet) (hb : ¬fence <:+: b) (ht : Text.strip t = t)
    (hstrip : Text.strip (b ++ block "json".toList t a) = b ++ block "json".toList t a) :
    wrapped A (b ++ block "json".toList t a) = none ∨
      wrapped A (b ++ block "json".toList t a) = some t ∧ Text.isIn fence t = false := by
  by_cases hprefix : fence <+: b ++ block "json".toList t a
  · have hticks : ∀ c ∈ b, isTick c = true := by
      rcases List.prefix_or_prefix_of_prefix hprefix (List.prefix_append b _) with hin | hover
      · exact absurd hin.isInfix hb
      · exact isTick_of_prefix_fence hover
    have hnewline : '\n' ∈ b ++ block "json".toList t a := by simp [block]
    unfold wrapped
    rw [if_pos (List.isPrefixOf_iff_prefix.mpr hprefix)]
    dsimp only
    rcases stripCodeFences_block A hticks (by decide) hstrip with hwhole | hin
    · rw [hwhole, ht, if_pos hnewline]
      split_ifs with hempty
      · exact .inr ⟨rfl, hempty.2⟩
      · exact .inl rfl
    · rw [if_neg fun h => Text.isIn_eq_false_iff.mp h.2 hin]
      exact .inl rfl
  · unfold wrapped
    rw [if_neg (mt List.isPrefixOf_iff_prefix.mp hprefix)]
    exact .inl rfl

theorem strip_jsonFence (before t after : Text) :
    Text.strip (before ++ (jsonFence t ++ after)) =
      Text.lstrip before ++ block "json".toList t (Text.rstrip after) := by
  have hfence : jsonFence t = '`' :: ("``json\n".toList ++ (t ++ "\n``".toList)) ++ ['`'] := by
    have hclosing : "\n```".toList = "\n``".toList ++ ['`'] := rfl
    unfold jsonFence
    rw [hclosing, ← List.append_assoc t, ← List.append_assoc]
    rfl
  have hblock : ∀ a, '`' :: ("``json\n".toList ++ (t ++ "\n``".toList)) ++ ['`'] ++ a =
      block "json".toList t a := by
    intro a
    unfold block
    simp only [List.cons_append, List.append_assoc]
    rfl
  rw [hfence, ← List.append_assoc, Text.strip_append_middle rfl rfl, List.append_assoc, hblock]

/-- An object in a fence is read back exactly when its text has no three backticks in a row. -/
theorem extractJson_jsonFence_iff (A : Text.Alphabet) (hbefore : Text.isIn fence before = false)
    (ht : Json.Denotes t (.obj members)) :
    (∃ out, extractJson A (before ++ (jsonFence t ++ after)) = .ok out ∧
      Json.loads out = .ok (.obj members)) ↔ Text.isIn fence t = false := by
  have hb : ¬fence <:+: Text.lstrip before := fun h =>
    Text.isIn_eq_false_iff.mp hbefore (h.trans (List.dropWhile_suffix _).isInfix)
  have hcleaned := strip_jsonFence before t after
  have hstrip := Text.strip_strip (before ++ (jsonFence t ++ after))
  have hfenced := fenced_block hb t (Text.rstrip after)
  have hwrapped := wrapped_block A hb (strip_object ht) (by rwa [hcleaned] at hstrip)
  have hloads := ht.loads_eq
  unfold extractJson
  rw [hcleaned]
  dsimp only
  have hne : Text.lstrip before ++ block "json".toList t (Text.rstrip after) ≠ [] := by simp [block, fence]
  rw [if_neg hne]
  rcases hwrapped with hnone | ⟨hwhole, hin⟩
  · rw [hnone, hfenced]
    dsimp only
    cases hfound : Text.find fence t with
    | none =>
      have hin := Text.isIn_eq_false_iff.mpr (Text.find_eq_none_iff.mp hfound)
      refine iff_of_true ⟨t, ?_, hloads⟩ hin
      rw [Option.getD_none, List.take_length, strip_object ht]
    | some n =>
      have hn := Text.lt_length_of_find fence_ne_nil hfound
      refine iff_of_false ?_ fun hin => ?_
      · rintro ⟨out, hout, hread⟩
        obtain rfl := Except.ok.inj hout
        exact loads_strip_take ht hn hread
      · have hnone := Text.find_eq_none_iff.mpr (Text.isIn_eq_false_iff.mp hin)
        rw [hfound] at hnone
        cases hnone
  · rw [hwhole]
    exact iff_of_true ⟨t, rfl, hloads⟩ hin

theorem extractJson_count :
    ∃ out, extractJson .asciiOnly
        ("Here it is:\n".toList ++ (jsonFence "\x7b\"count\":1\x7d".toList ++ "\nDone.".toList)) = .ok out ∧
      Json.loads out = .ok (.obj [("count".toList, .int 1)]) :=
  (extractJson_jsonFence_iff _ rfl
    (.members Json.blanks_nil (Json.denotesMembers_last "count".toList (by decide) Json.denotes_one))).mpr rfl

/-- An object with a fence in a string. -/
def suggestion : Json := .obj [("suggestion".toList, .str "```py".toList)]

def suggestionText : Text := "\x7b\"suggestion\": \"```py\"\x7d".toList

theorem denotes_suggestionText : Json.Denotes suggestionText suggestion := by
  have hblank : Json.Blanks [' '] := Text.forall_mem_of_all rfl
  have hmembers := Json.DenotesMembers.last (Json.stringBody_plain (s := "suggestion".toList) (by decide))
    Json.blanks_nil hblank (Json.denotes_str "```py".toList (by decide)) Json.blanks_nil
  exact .members Json.blanks_nil hmembers

/-- The object is cut inside its string, though the fence around it alone is stripped as it should be. -/
theorem suggestion_cut :
    Json.Denotes suggestionText suggestion ∧ Json.dumps suggestion = suggestionText ∧
      extractJson .asciiOnly ("Here it is:\n".toList ++ (jsonFence suggestionText ++ "\nDone.".toList)) =
        .ok "\x7b\"suggestion\": \"".toList ∧
      Json.loads "\x7b\"suggestion\": \"".toList ≠ .ok suggestion ∧
      stripCodeFences .asciiOnly (jsonFence suggestionText) = suggestionText := by
  refine ⟨denotes_suggestionText, ?_, ?_, ?_, ?_⟩
  · decide +kernel
  · decide +kernel
  · have hcut : Text.strip (suggestionText.take 16) = "\x7b\"suggestion\": \"".toList := by decide +kernel
    rw [← hcut]
    exact loads_strip_take denotes_suggestionText (by decide)
  · decide +kernel

end Utils

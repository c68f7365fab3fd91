import SovaVerified.Regex.Proofs.FinditerProofs
import SovaVerified.Utils.Gh
import SovaVerified.Utils.Proofs.SectionFrameProofs

/-!
# Items that are read

A bullet takes the rest of its line, and the items of a list are read in order up to a line that is none. The
section is read on the masked text, line by line.
-/

namespace Utils.Gh

open Markdown
open Text (unlines stripLines)

variable {line : Text} {lines items : List Text}

/-! ## The rest of a line -/

theorem matches_restOfLineRe_iff (u : Text) : Regex.Matches restOfLineRe u ↔
    ∃ c t, u = c :: t ∧ Text.isSpace c = false ∧ '\n' ∉ t := by
  constructor
  · rintro ⟨_, t, rfl, ⟨c, hc, rfl⟩, -, -, ht⟩
    have hspace : Text.isSpace c = false := by simpa [isVisible] using hc
    refine ⟨c, t, rfl, hspace, fun hmem => ?_⟩
    simpa using ht '\n' hmem
  · rintro ⟨c, t, rfl, hc, ht⟩
    refine ⟨[c], t, rfl, ⟨c, by simp [isVisible, hc], rfl⟩, Nat.zero_le _, by simp, fun d hd => ?_⟩
    have hne : d ≠ '\n' := fun heq => ht (heq ▸ hd)
    simpa using hne

/-- Behind blanks the rest of the line is captured. -/
theorem run_restOfLine {α : Type} {blanks t rest : Text} {c : Char} {g : Regex.Groups}
    {k : Text → Regex.Groups → Option α} {x : α} (hne : blanks ≠ []) (hblanks : ∀ d ∈ blanks, isBlank d = true)
    (hc : Text.isSpace c = false) (ht : '\n' ∉ t) (hrest : Regex.endsLine rest = true)
    (hk : k rest ((1, c :: t) :: g) = some x) :
    Regex.run (.seq (.rep 1 none isBlank) restOfLineRe) (blanks ++ (c :: (t ++ rest))) g k = some x := by
  have hclass : isBlank c = false := by
    rw [Bool.eq_false_iff]
    intro hblank
    rw [isSpace_of_isBlank hblank] at hc
    cases hc
  have hvisible : isVisible c = true := by
    unfold isVisible
    rw [hc]
    rfl
  have hnl : ∀ d ∈ t, (d != '\n') = true := by
    intro d hd
    have hd' : d ≠ '\n' := fun heq => ht (heq ▸ hd)
    simpa using hd'
  have hend : ∀ d ∈ rest.head?, (d != '\n') = false := by
    rcases Regex.head_of_endsLine hrest with rfl | ⟨t', rfl⟩
    · simp
    · simp
  unfold restOfLineRe
  rw [Regex.run_seq]
  refine Regex.run_rep_all (List.length_pos_iff.mpr hne) (by simp) hblanks (by simpa using hclass) ?_
  rw [Regex.run_cap, Regex.run_seq, Regex.run, if_pos hvisible]
  refine Regex.run_rep_all (Nat.zero_le _) (by simp) hnl hend ?_
  rw [← List.cons_append, Regex.take_captured]
  exact hk

/-! ## Items -/

/-- A text that is listed as one item. -/
structure IsItem (item : Text) : Prop where
  ne : item ≠ []
  stripped : Text.strip item = item
  oneLine : ∀ c ∈ item, Text.isLineBreak c = false

theorem IsItem.rstrip {item : Text} (h : IsItem item) : Text.rstrip item = item := by
  have hstrip := Text.rstrip_strip item
  rwa [h.stripped] at hstrip

theorem IsItem.lstrip {item : Text} (h : IsItem item) : Text.lstrip item = item := by
  have hhead := Text.head_strip item
  rw [h.stripped] at hhead
  exact Text.lstrip_of_head hhead

/-- An item as it is listed. -/
def bullet (item : Text) : Text := "- ".toList ++ item

theorem rstrip_bullet {item : Text} (h : IsItem item) : Text.rstrip (bullet item) = bullet item := by
  unfold bullet
  rw [Text.rstrip_append, h.rstrip, if_neg h.ne]

theorem lstrip_bullet (item : Text) : Text.lstrip (bullet item) = bullet item := by
  refine Text.lstrip_of_head fun c hc => ?_
  cases hc
  decide

theorem matchLine_bullet {item : Text} (h : IsItem item) :
    Regex.matchLine notDoneItemRe (bullet item) = some [(1, item)] := by
  obtain ⟨c, t, rfl⟩ := List.exists_cons_of_ne_nil h.ne
  have hspace : Text.isSpace c = false := by
    have hhead := Text.head_strip (c :: t)
    rw [h.stripped] at hhead
    exact hhead c rfl
  have hnl : '\n' ∉ t := fun hmem => Text.newline_not_mem h.oneLine (List.mem_cons_of_mem c hmem)
  have htext : bullet (c :: t) = '-' :: ([' '] ++ (c :: (t ++ []))) := by
    rw [List.append_nil]
    rfl
  have hmarker : isMarker '-' = true := by decide
  unfold Regex.matchLine notDoneItemRe
  rw [htext, Regex.run_seq, Regex.run, if_pos hmarker]
  exact run_restOfLine (List.cons_ne_nil _ _) (Text.forall_mem_of_all (by decide)) hspace hnl rfl (if_pos (.inl rfl))

theorem listedItems_bullets (hitems : ∀ item ∈ items, IsItem item) (before tail : List Text) :
    listedItems before (items.map bullet ++ tail) = listedItems (before ++ items) tail := by
  induction items generalizing before with
  | nil => rw [List.map_nil, List.nil_append, List.append_nil]
  | cons item items ih =>
    obtain ⟨hitem, hrest⟩ := List.forall_mem_cons.mp hitems
    have hstrip : Text.strip (bullet item) ≠ [] := by
      rw [Text.strip_eq, lstrip_bullet, rstrip_bullet hitem]
      exact List.cons_ne_nil _ _
    rw [List.map_cons, List.cons_append, listedItems, if_neg fun h => hstrip h.2]
    dsimp only
    rw [rstrip_bullet hitem, matchLine_bullet hitem]
    show listedItems (before ++ [item]) _ = _
    rw [ih hrest, List.append_assoc, List.singleton_append]

/-- An empty line ends a list that has items. -/
theorem listedItems_nil_cons (hne : items ≠ []) (tail : List Text) : listedItems items ([] :: tail) = items := by
  have hmatch : (Regex.matchLine notDoneItemRe (Text.rstrip [])).bind (·.get 1) = none := by decide
  rw [listedItems, if_neg fun h => hne h.1]
  dsimp only
  rw [hmatch]
  exact if_neg fun h => absurd h.2.1 (by decide)

theorem notDoneIn_cons_of_ne (hline : Text.strip line ≠ notDoneLabel) (lines : List Text) :
    notDoneIn (line :: lines) = notDoneIn lines := by
  rw [notDoneIn, if_neg hline]

/-! ## The lines of the section -/

/-- A line that neither opens a fence nor titles a section, without any line boundary. -/
structure IsPlain (line : Text) : Prop where
  visible : openFence line = none
  notTitle : boundary line = false
  oneLine : ∀ c ∈ line, Text.isLineBreak c = false

theorem isPlain_cons {c : Char} {t : Text} (hspace : Text.isSpace c = false) (hfence : (c == '`' || c == '~') = false)
    (hmark : c ≠ '#') (ht : ∀ d ∈ t, Text.isLineBreak d = false) : IsPlain (c :: t) := by
  have hfront : Text.lstrip (c :: t) = c :: t := Text.lstrip_of_head (by simpa using hspace)
  refine ⟨openFence_of_head hfence (by rw [hfront]; rfl), ?_, ?_⟩
  · rw [Bool.eq_false_iff]
    intro hbound
    obtain ⟨d, rest, -, heq⟩ := boundary_iff.mp hbound
    exact hmark (List.cons_eq_cons.mp heq).1
  · exact List.forall_mem_cons.mpr ⟨Text.isLineBreak_eq_false hspace, ht⟩

theorem isPlain_bullet {item : Text} (h : IsItem item) : IsPlain (bullet item) := by
  refine isPlain_cons (by decide) (by decide) (by decide) fun c hc => ?_
  rcases List.mem_cons.mp hc with rfl | hc
  · decide
  · exact h.oneLine c hc

/-- What is read in a section with the given lines. -/
def readOf (lines : List Text) : Option (List Text) :=
  notDoneIn (Text.lines (Text.strip (unlines (maskLines none lines))))

theorem readOf_congr {a b : List Text} (h : Text.SameLines a b) : readOf a = readOf b := by
  unfold readOf
  rw [(sameLines_maskLines h none).strip_unlines]

theorem parseNotDoneItems_eq (text : Text) :
    parseNotDoneItems text = readOf (bodyOf issueHeading.text none (text.splitOn '\n')) := by
  have hsection := extractSection_masked issueHeading.oneLine text
  unfold parseNotDoneItems readOf
  rw [← hsection]
  rfl

theorem readOf_nil_cons (lines : List Text) : readOf ([] :: lines) = readOf lines := by
  have hmask : maskLines none ([] :: lines) = [] :: maskLines none lines := (maskLines_rest lines).symm
  unfold readOf
  rw [hmask, Text.strip_unlines_nil_cons]

theorem readOf_snoc_nil (lines : List Text) : readOf (lines ++ [[]]) = readOf lines :=
  readOf_congr (Text.sameLines_append lines 1)

/-- Lines without white space around them are read as they are. -/
theorem readOf_eq (hplain : ∀ l ∈ lines, IsPlain l) (hstrip : stripLines lines = lines)
    (hlast : ∀ l ∈ lines.getLast?, l ≠ []) : readOf lines = notDoneIn lines := by
  have hmask := maskLines_of_visible fun l hl => (hplain l hl).visible
  have hlines := Text.lines_unlines (fun l hl => (hplain l hl).oneLine) hlast
  unfold readOf
  rw [hmask, ← Text.unlines_stripLines, hstrip, hlines]

end Utils.Gh

/-!
# References in a text

A number that a pattern captures stands behind a number sign at some place of the text, with the pattern's words
in front of it and no digit behind it. No reference begins inside another one, so that a search for all of them
misses none.
-/

namespace Utils.Gh

variable {A : Text.Alphabet} {front : Regex} {guard : Option Char → Text → Bool} {t n digits rest : Text}
  {g : Regex.Groups}

/-! ## One reference -/

/-- The digits are all that there are in front of the rest. -/
structure TakesDigits (digits rest : Text) : Prop where
  ne : digits ≠ []
  decimal : ∀ c ∈ digits, Text.isDecimal c = true
  ends : ∀ c ∈ rest.head?, Text.isDecimal c = false

theorem TakesDigits.takeWhile (h : TakesDigits digits rest) : (digits ++ rest).takeWhile Text.isDecimal = digits := by
  rw [List.takeWhile_append_of_pos h.decimal]
  cases rest with
  | nil => rw [List.takeWhile_nil, List.append_nil]
  | cons c rest => rw [List.takeWhile_cons_of_neg (by rw [h.ends c rfl]; exact Bool.false_ne_true), List.append_nil]

theorem takesDigits_of_takeWhile (hne : t.takeWhile Text.isDecimal ≠ []) :
    TakesDigits (t.takeWhile Text.isDecimal) (t.dropWhile Text.isDecimal) := by
  refine ⟨hne, fun c hc => List.mem_takeWhile_imp hc, fun c hc => ?_⟩
  have hhead := List.head?_dropWhile_not Text.isDecimal t
  rw [hc] at hhead
  simpa using hhead

/-- A front without a number sign goes as far as to the first one. -/
theorem split_unique {u u' w w' : Text} (hu : '#' ∉ u) (hu' : '#' ∉ u') (h : u ++ '#' :: w = u' ++ '#' :: w') :
    u = u' ∧ w = w' := by
  induction u generalizing u' with
  | nil =>
    cases u' with
    | nil => exact ⟨rfl, (List.cons_eq_cons.mp h).2⟩
    | cons d u' =>
      obtain ⟨rfl, -⟩ := List.cons_eq_cons.mp h
      exact absurd List.mem_cons_self hu'
  | cons c u ih =>
    cases u' with
    | nil =>
      obtain ⟨rfl, -⟩ := List.cons_eq_cons.mp h
      exact absurd List.mem_cons_self hu
    | cons d u' =>
      obtain ⟨rfl, htail⟩ := List.cons_eq_cons.mp h
      obtain ⟨rfl, rfl⟩ := ih (fun hmem => hu (List.mem_cons_of_mem _ hmem))
        (fun hmem => hu' (List.mem_cons_of_mem _ hmem)) htail
      exact ⟨rfl, rfl⟩

/-- The words in front of a number sign: they have none themselves, and capture nothing. -/
structure IsFront (front : Regex) : Prop where
  uses : front.uses '#' = false
  captures : front.captures = []

theorem IsFront.notMem (h : IsFront front) {u : Text} (hu : Regex.Matches front u) : '#' ∉ u := by
  intro hmem
  have huses := hu.uses '#' hmem
  rw [h.uses] at huses
  cases huses

theorem reference_of_matchRest (hfront : IsFront front) (h : Regex.matchRest (referenceRe front) t = some (g, rest)) :
    ∃ u digits, t = u ++ '#' :: (digits ++ rest) ∧ Regex.Matches front u ∧ TakesDigits digits rest ∧
      g = [(1, digits)] := by
  unfold Regex.matchRest referenceRe at h
  rw [Regex.run_seq] at h
  obtain ⟨u, v, g', rfl, hu, hv, hcaptured⟩ := Regex.run_eq_some h
  have hnil : g' = [] := by
    refine List.eq_nil_iff_forall_not_mem.mpr fun e he => ?_
    rcases hcaptured e he with hmem | ⟨s, hs, -⟩
    · cases hmem
    · rw [hfront.captures] at hs
      cases hs
  subst hnil
  cases v with
  | nil => cases hv
  | cons c w =>
    rw [Regex.run_seq, Regex.run] at hv
    split_ifs at hv with hc
    obtain rfl : c = '#' := beq_iff_eq.mp hc
    have hdigits : Regex.matchRest (.cap 1 (.rep 1 none Text.isDecimal)) w = some (g, rest) := hv
    rw [Regex.matchRest_cap_rep] at hdigits
    split_ifs at hdigits with hne
    obtain ⟨rfl, rfl⟩ := Prod.mk.inj (Option.some.inj hdigits)
    refine ⟨u, w.takeWhile Text.isDecimal, ?_, hu, takesDigits_of_takeWhile hne, rfl⟩
    rw [List.takeWhile_append_dropWhile]

theorem matchRest_reference_iff (hfront : IsFront front) :
    Regex.matchRest (referenceRe front) t = some (g, rest) ↔ ∃ u digits, t = u ++ '#' :: (digits ++ rest) ∧
      Regex.Matches front u ∧ TakesDigits digits rest ∧ g = [(1, digits)] := by
  refine ⟨reference_of_matchRest hfront, ?_⟩
  rintro ⟨u, digits, rfl, hu, hdigits, rfl⟩
  have hmatches : Regex.Matches (referenceRe front) (u ++ ('#' :: digits)) := by
    refine ⟨u, '#' :: digits, rfl, hu, ['#'], digits, rfl, ⟨'#', by decide, rfl⟩, ?_, by simp, hdigits.decimal⟩
    exact List.length_pos_iff.mpr hdigits.ne
  have hsome : (Regex.matchRest (referenceRe front) (u ++ '#' :: (digits ++ rest))).isSome := by
    unfold Regex.matchRest
    rw [Regex.run_isSome_iff _ _ _ _ fun _ _ _ => rfl]
    exact ⟨u ++ '#' :: digits, rest, by simp, hmatches, rfl⟩
  obtain ⟨⟨g', rest'⟩, hfound⟩ := Option.isSome_iff_exists.mp hsome
  obtain ⟨u', digits', heq, hu', hdigits', rfl⟩ := reference_of_matchRest hfront hfound
  obtain ⟨rfl, htail⟩ := split_unique (hfront.notMem hu) (hfront.notMem hu') heq
  have hsame : digits = digits' := by rw [← hdigits.takeWhile, htail, hdigits'.takeWhile]
  subst hsame
  rw [hfound, List.append_cancel_left htail]

/-! ## All references -/

/-- The text refers to the number. -/
def RefersTo (guard : Option Char → Text → Bool) (front : Regex) (n t : Text) : Prop :=
  ∃ a u b, t = a ++ (u ++ '#' :: (n ++ b)) ∧ guard a.getLast? (u ++ '#' :: (n ++ b)) = true ∧
    Regex.Matches front u ∧ TakesDigits n b

/-- The beginning of a reference is nowhere else in it. -/
def BeginsOnce (front : Regex) : Prop :=
  ∀ d, (referenceRe front).starts d = true → (referenceRe front).inner d = false

theorem nullable_referenceRe (front : Regex) : (referenceRe front).nullable = false := by
  show (front.nullable && (false && _)) = false
  rw [Bool.false_and, Bool.and_false]

theorem mem_numbersOf_iff (hfront : IsFront front) (honce : BeginsOnce front) :
    n ∈ numbersOf guard (referenceRe front) t ↔ RefersTo guard front n t := by
  have hoverlap := Regex.noOverlap_matcher guard (nullable_referenceRe front) honce
  unfold numbersOf RefersTo
  rw [List.mem_eraseDups, List.mem_filterMap]
  constructor
  · rintro ⟨g, hg, hget⟩
    obtain ⟨a, b, rfl, k, hfound⟩ := (Regex.mem_findAll_iff hoverlap).mp hg
    rw [Option.or_none] at hfound
    obtain ⟨hguard, rest, hmatch, -⟩ := Regex.matcher_eq_some hfound
    obtain ⟨u, digits, rfl, hu, hdigits, rfl⟩ := (matchRest_reference_iff hfront).mp hmatch
    obtain rfl : digits = n := Option.some.inj hget
    exact ⟨a, u, rest, rfl, hguard, hu, hdigits⟩
  · rintro ⟨a, u, b, rfl, hguard, hu, hdigits⟩
    refine ⟨[(1, n)], (Regex.mem_findAll_iff hoverlap).mpr ⟨a, _, rfl, ?_⟩, rfl⟩
    have hmatch := (matchRest_reference_iff hfront).mpr ⟨u, n, rfl, hu, hdigits, rfl⟩
    refine ⟨(u ++ '#' :: (n ++ b)).length - b.length, ?_⟩
    rw [Option.or_none]
    unfold Regex.matcher
    rw [if_pos hguard, hmatch]
    rfl

/-! ## The two patterns -/

theorem isFront_closing : IsFront closingReferencePrefix := ⟨by decide, by decide⟩

theorem isFront_partOf : IsFront partOfPrefix := ⟨by decide, by decide⟩

/-- The letters that are read as a given one without regard to case. -/
theorem eq_of_foldEq {c d : Char} (hc : c ∉ ['i', 's', 'k']) (h : Regex.foldEq c d = true) :
    d = c ∨ d = Char.ofNat (c.toNat - 32) := by
  have hi : (c == 'i') = false := beq_eq_false_iff_ne.mpr fun heq => hc (by simp [heq])
  have hs : (c == 's') = false := beq_eq_false_iff_ne.mpr fun heq => hc (by simp [heq])
  have hk : (c == 'k') = false := beq_eq_false_iff_ne.mpr fun heq => hc (by simp [heq])
  unfold Regex.foldEq at h
  rw [hi, hs, hk, Bool.false_and, Bool.false_and, Bool.false_and, Bool.or_false, Bool.or_false, Bool.or_false,
    Bool.or_eq_true, beq_iff_eq, beq_iff_eq] at h
  rcases h with rfl | h
  · exact .inl rfl
  · unfold Char.toLower at h
    split at h
    · rename_i hupper
      have hlo : 65 ≤ d.toNat := UInt32.le_iff_toNat_le.mp hupper.1
      have hhi : d.toNat ≤ 90 := UInt32.le_iff_toNat_le.mp hupper.2
      have hval := congrArg (fun c => c.val.toNat) h
      simp at hval
      refine .inr ?_
      have hsub : c.toNat - 32 = d.toNat := by
        have hc' : c.toNat = c.val.toNat := rfl
        omega
      rw [hsub, Char.ofNat_toNat]
    · exact .inl h

theorem beginsOnce_closing : BeginsOnce closingReferencePrefix := by
  intro d hd
  have hletter : Regex.foldEq 'c' d = true ∨ Regex.foldEq 'f' d = true ∨ Regex.foldEq 'r' d = true := by
    simpa [referenceRe, closingReferencePrefix, closingKeywords, Regex.lit, Regex.starts, Regex.nullable] using hd
  rcases hletter with h | h | h
  · rcases eq_of_foldEq (by decide) h with rfl | rfl <;> decide
  · rcases eq_of_foldEq (by decide) h with rfl | rfl <;> decide
  · rcases eq_of_foldEq (by decide) h with rfl | rfl <;> decide

theorem beginsOnce_partOf : BeginsOnce partOfPrefix := by
  intro d hd
  have hletter : Regex.foldEq 'p' d = true := by
    simpa [referenceRe, partOfPrefix, Regex.lit, Regex.starts, Regex.nullable] using hd
  rcases eq_of_foldEq (by decide) hletter with rfl | rfl <;> decide

/-! ## The links of a body -/

/-- The body of a pull request links to the issue. -/
def LinksTo (A : Text.Alphabet) (n body : Text) : Prop :=
  RefersTo (atWord A) closingReferencePrefix n (proseOf body) ∨
    RefersTo (fun _ _ => true) partOfPrefix n (partOfScope (proseOf body))

theorem mem_closes_iff (n body : Text) : n ∈ (parseIssueLinks A body).closes ↔
    RefersTo (atWord A) closingReferencePrefix n (proseOf body) := by
  have hcloses : (parseIssueLinks A body).closes =
      numbersOf (atWord A) (referenceRe closingReferencePrefix) (proseOf body) := rfl
  rw [hcloses, mem_numbersOf_iff isFront_closing beginsOnce_closing]

theorem mem_partOf_iff (n body : Text) : n ∈ (parseIssueLinks A body).partOf ↔
    RefersTo (fun _ _ => true) partOfPrefix n (partOfScope (proseOf body)) ∧
      n ∉ (parseIssueLinks A body).closes := by
  have hpart : (parseIssueLinks A body).partOf =
      (numbersOf (fun _ _ => true) (referenceRe partOfPrefix) (partOfScope (proseOf body))).filter fun m =>
        m ∉ (parseIssueLinks A body).closes := rfl
  rw [hpart, List.mem_filter, decide_eq_true_eq, mem_numbersOf_iff isFront_partOf beginsOnce_partOf]

theorem mem_links_iff (n body : Text) :
    n ∈ (parseIssueLinks A body).closes ∨ n ∈ (parseIssueLinks A body).partOf ↔ LinksTo A n body := by
  unfold LinksTo
  rw [mem_partOf_iff, mem_closes_iff]
  tauto

end Utils.Gh

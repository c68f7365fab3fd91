import SovaVerified.Regex.Proofs.SearchProofs
import SovaVerified.Text.LineLists

/-!
# Searching through lines

What an expression finds in a text, line by line. An expression that takes no line feed sees one line at a time,
so that a search for it goes through the lines of the text.
-/

namespace Regex

open Text (unlines AreLines)

variable {r : Regex} {p : Text → Bool} {test : Text → Bool} {l t : Text} {ls : List Text}

/-! ## Where lines begin -/

theorem afterBreaks_append (hl : '\n' ∉ l) (t : Text) : afterBreaks (l ++ t) = afterBreaks t := by
  induction l with
  | nil => rfl
  | cons c l ih =>
    obtain ⟨hc, hl⟩ := not_or.mp (mt List.mem_cons.mpr hl)
    rw [List.cons_append, afterBreaks, if_neg (Ne.symm hc), ih hl]

theorem lineStarts_line (hl : '\n' ∉ l) : lineStarts l = [l] := by
  have hnone := afterBreaks_append hl []
  rw [List.append_nil] at hnone
  unfold lineStarts
  rw [hnone]
  rfl

theorem lineStarts_cons (hl : '\n' ∉ l) (t : Text) :
    lineStarts (l ++ '\n' :: t) = (l ++ '\n' :: t) :: lineStarts t := by
  unfold lineStarts
  rw [afterBreaks_append hl, afterBreaks, if_pos rfl]

/-- A test that looks at one line only. -/
def SeesLine (test p : Text → Bool) : Prop :=
  ∀ l, '\n' ∉ l → test l = p l ∧ ∀ t, test (l ++ '\n' :: t) = p l

theorem SeesLine.unlines (htest : SeesLine test p) (hl : '\n' ∉ l) (ls : List Text) :
    test (Text.unlines (l :: ls)) = p l := by
  by_cases hnil : ls = []
  · rw [hnil, Text.unlines_singleton]
    exact (htest l hl).1
  · rw [Text.unlines_cons l hnil]
    exact (htest l hl).2 _

/-- Where the first line begins that passes the test. -/
theorem find_lineStarts (htest : SeesLine test p) (hne : ls ≠ []) (hls : AreLines ls) :
    (lineStarts (unlines ls)).find? test =
      if ls.dropWhile (fun l => !p l) = [] then none else some (unlines (ls.dropWhile fun l => !p l)) := by
  induction ls with
  | nil => exact absurd rfl hne
  | cons l ls ih =>
    obtain ⟨hl, hls⟩ := Text.areLines_cons hls
    obtain ⟨hone, hmore⟩ := htest l hl
    rw [List.dropWhile_cons]
    by_cases hnil : ls = []
    · subst hnil
      rw [Text.unlines_singleton, lineStarts_line hl, List.find?_cons, hone]
      cases hp : p l with
      | true =>
        dsimp only
        rw [Bool.not_true, if_neg Bool.false_ne_true, if_neg (List.cons_ne_nil _ _), Text.unlines_singleton]
      | false => rfl
    · rw [Text.unlines_cons l hnil, lineStarts_cons hl, List.find?_cons, hmore]
      cases hp : p l with
      | true =>
        dsimp only
        rw [Bool.not_true, if_neg Bool.false_ne_true, if_neg (List.cons_ne_nil _ _),
          Text.unlines_cons l hnil]
      | false =>
        dsimp only
        rw [Bool.not_false, if_pos rfl]
        exact ih hnil hls

/-! ## Expressions without a line feed -/

/-- A match that takes no line feed ends on its own line. -/
theorem matches_line (hr : r.uses '\n' = false) {u v : Text} (hu : Matches r u) (h : l ++ '\n' :: t = u ++ v) :
    ∃ v', l = u ++ v' ∧ v = v' ++ '\n' :: t := by
  rcases List.append_eq_append_iff.mp h with ⟨w, hw, hv⟩ | ⟨w, hw, hv⟩
  · cases w with
    | nil => exact ⟨[], by simpa using hw.symm, by simpa using hv.symm⟩
    | cons c w =>
      have hc : c = '\n' := by
        rw [List.cons_append] at hv
        exact (List.cons_eq_cons.mp hv).1.symm
      have huses := hu.uses '\n' (by rw [hw, hc]; simp)
      rw [hr] at huses
      cases huses
  · exact ⟨w, hw, hv⟩

theorem seesLine_matchPrefix (hr : r.uses '\n' = false) :
    SeesLine (fun s => (matchPrefix r s).isSome) fun l => (matchPrefix r l).isSome := by
  refine fun l hl => ⟨rfl, fun t => ?_⟩
  rw [Bool.eq_iff_iff, matchPrefix_isSome_iff, matchPrefix_isSome_iff]
  constructor
  · rintro ⟨u, v, huv, hu⟩
    obtain ⟨v', hl', -⟩ := matches_line hr hu huv
    exact ⟨u, v', hl', hu⟩
  · rintro ⟨u, v, rfl, hu⟩
    exact ⟨u, v ++ '\n' :: t, by rw [List.append_assoc], hu⟩

theorem seesLine_matchToLineEnd (hr : r.uses '\n' = false) :
    SeesLine (fun s => (matchToLineEnd r s).isSome) fun l => (matchToLineEnd r l).isSome := by
  refine fun l hl => ⟨rfl, fun t => ?_⟩
  rw [Bool.eq_iff_iff, matchToLineEnd_isSome_iff, matchToLineEnd_isSome_iff]
  constructor
  · rintro ⟨u, v, huv, hu, hv⟩
    obtain ⟨v', hl', rfl⟩ := matches_line hr hu huv
    refine ⟨u, v', hl', hu, ?_⟩
    cases v' with
    | nil => rfl
    | cons c v' => exact hv
  · rintro ⟨u, v, rfl, hu, hv⟩
    refine ⟨u, v ++ '\n' :: t, by rw [List.append_assoc], hu, ?_⟩
    cases v with
    | nil => rfl
    | cons c v => exact hv

/-! ## Searches -/

/-- The beginning of the line that a search finds. -/
theorem map_fst_searchLineSpan (r : Regex) (t : Text) : (searchLineSpan r t).map Prod.fst = firstLine r t := by
  unfold searchLineSpan firstLine
  generalize lineStarts t = starts
  induction starts with
  | nil => rfl
  | cons s starts ih =>
    rw [List.findSome?_cons, List.find?_cons]
    cases hmatch : matchToLineEnd r s with
    | none => exact ih
    | some m => rfl

/-- What stands behind a match that a search finds. -/
theorem match_of_searchLineSpan {s rest : Text} (h : searchLineSpan r t = some (s, rest)) :
    ∃ g, matchToLineEnd r s = some (g, rest) := by
  obtain ⟨-, s', -, -, hs', -⟩ := List.findSome?_eq_some_iff.mp h
  obtain ⟨⟨g, rest'⟩, hmatch, heq⟩ := Option.map_eq_some_iff.mp hs'
  cases heq
  exact ⟨g, hmatch⟩

theorem searchLineSpan_eq (hr : r.uses '\n' = false) (t : Text) :
    searchLineSpan r t = (firstLine r t).map fun s => (s, s.dropWhile (· ≠ '\n')) := by
  rw [← map_fst_searchLineSpan]
  cases hfound : searchLineSpan r t with
  | none => rfl
  | some m =>
    obtain ⟨s, rest⟩ := m
    obtain ⟨g, hmatch⟩ := match_of_searchLineSpan hfound
    rw [rest_of_matchToLineEnd hr hmatch]
    rfl

/-- What is left of the lines behind a match is a first line without anything on it, and the others. -/
theorem dropWhile_unlines (hl : '\n' ∉ l) (ls : List Text) :
    (unlines (l :: ls)).dropWhile (· ≠ '\n') = unlines ([] :: ls) := by
  have hpass : ∀ c ∈ l, decide (c ≠ '\n') = true := fun c hc => decide_eq_true fun heq => hl (heq ▸ hc)
  by_cases hnil : ls = []
  · subst hnil
    rw [Text.unlines_singleton, Text.unlines_singleton, List.dropWhile_eq_nil_iff]
    exact hpass
  · rw [Text.unlines_cons l hnil, Text.unlines_cons [] hnil, List.dropWhile_append_of_pos hpass]
    rfl

/-! ## Searching line by line -/

theorem backoff_congr {α : Type} {k k' : Nat → Option α} (lo : Nat) {n : Nat} (h : ∀ i ≤ n, k i = k' i) :
    backoff k lo n = backoff k' lo n := by
  induction n with
  | zero =>
    unfold backoff
    rw [h 0 le_rfl]
  | succ n ih =>
    unfold backoff
    rw [h (n + 1) le_rfl, ih fun i hi => h i (by omega)]

/-- Where only the longest run of a repetition can go on. -/
theorem backoff_last {α : Type} {k : Nat → Option α} (lo : Nat) {n : Nat} (h : ∀ i < n, k i = none) :
    backoff k lo n = if lo ≤ n then k n else none := by
  cases n with
  | zero =>
    unfold backoff
    simp only [Nat.le_zero]
  | succ n =>
    have hrest : backoff k lo n = none := by
      refine Option.not_isSome_iff_eq_none.mp fun hsome => ?_
      obtain ⟨m, -, hm, hk⟩ := (backoff_isSome_iff k lo n).mp hsome
      rw [h m (by omega)] at hk
      cases hk
    unfold backoff
    by_cases hlo : n + 1 < lo
    · rw [if_pos hlo, if_neg (by omega)]
    · rw [if_neg hlo, if_pos (by omega), hrest, Option.or_none]

/-- A repetition in front of what no character of its class can begin takes the whole run of its class. -/
theorem run_rep_span {α : Type} {lo : Nat} {p : Char → Bool} {a b : Text} {g : Groups}
    {k : Text → Groups → Option α} (ha : ∀ c ∈ a, p c = true) (hb : ∀ c ∈ b.head?, p c = false)
    (hk : ∀ c t g, p c = true → k (c :: t) g = none) :
    run (.rep lo none p) (a ++ b) g k = if lo ≤ a.length then k b g else none := by
  have hreach : reach none p (a ++ b) = a.length := by
    have htake : (a ++ b).takeWhile p = a := by
      rw [List.takeWhile_append_of_pos ha]
      cases b with
      | nil => rw [List.takeWhile_nil, List.append_nil]
      | cons c b =>
        have hc : ¬ p c = true := Bool.eq_false_iff.mp (hb c rfl)
        rw [List.takeWhile_cons, if_neg hc, List.append_nil]
    unfold reach
    rw [htake]
  rw [run, hreach, backoff_last, List.drop_left]
  intro i hi
  rw [List.drop_append_of_le_length (by omega)]
  cases hdrop : a.drop i with
  | nil =>
    have hlen := List.length_drop (i := i) (l := a)
    rw [hdrop, List.length_nil] at hlen
    omega
  | cons c rest =>
    refine hk c (rest ++ b) g (ha c (List.mem_of_mem_drop (i := i) ?_))
    rw [hdrop]
    exact List.mem_cons_self

/-- A character that the expression never takes ends what it sees. -/
theorem run_append {α : Type} {c : Char} (hr : r.uses c = false) (s b : Text) (g : Groups)
    (k : Text → Groups → Option α) :
    run r (s ++ c :: b) g k = run r s g fun rest g' => k (rest ++ c :: b) g' := by
  induction r generalizing s g k with
  | eps => rfl
  | chr p =>
    cases s with
    | nil =>
      have hc : p c = false := hr
      show (if p c = true then _ else _) = _
      rw [hc, if_neg Bool.false_ne_true]
      rfl
    | cons d s => rfl
  | rep lo hi p =>
    have hc : p c = false := hr
    have htake : (s ++ c :: b).takeWhile p = s.takeWhile p := by
      rw [List.takeWhile_append]
      split_ifs
      · rw [List.takeWhile_cons, hc, if_neg Bool.false_ne_true, List.append_nil, List.takeWhile_eq_self_iff.mpr]
        rename_i hlen
        exact List.takeWhile_eq_self_iff.mp ((List.takeWhile_prefix p).eq_of_length hlen)
      · rfl
    have hreach : reach hi p (s ++ c :: b) = reach hi p s := by
      unfold reach
      rw [htake]
    have hle : reach hi p s ≤ s.length := by
      have hlen := (List.takeWhile_prefix (l := s) p).length_le
      cases hi with
      | none => exact hlen
      | some h => exact (Nat.min_le_right ..).trans hlen
    show backoff _ lo (reach hi p (s ++ c :: b)) = backoff _ lo (reach hi p s)
    rw [hreach]
    refine backoff_congr lo fun i hi => ?_
    dsimp only
    rw [List.drop_append_of_le_length (hi.trans hle)]
  | seq r r' ih ih' =>
    obtain ⟨hr, hr'⟩ := Bool.or_eq_false_iff.mp hr
    rw [run_seq, run_seq, ih hr]
    congr 1
    funext rest g'
    exact ih' hr' rest g' k
  | alt r r' ih ih' =>
    obtain ⟨hr, hr'⟩ := Bool.or_eq_false_iff.mp hr
    rw [run_alt, run_alt, ih hr, ih' hr']
  | cap i r ih =>
    rw [run_cap, run_cap, ih hr]
    congr 1
    funext rest g'
    have htaken : (s ++ c :: b).take ((s ++ c :: b).length - (rest ++ c :: b).length) =
        s.take (s.length - rest.length) := by
      have hlen : (s ++ c :: b).length - (rest ++ c :: b).length = s.length - rest.length := by
        rw [List.length_append, List.length_append]
        omega
      rw [hlen, List.take_append_of_le_length (Nat.sub_le ..)]
    rw [htaken]

theorem matchPrefix_append {c : Char} (hr : r.uses c = false) (s b : Text) :
    matchPrefix r (s ++ c :: b) = matchPrefix r s := run_append hr s b [] _

/-- What is found first is found on the first of two parts, or else on the second. -/
theorem search_append_or {c : Char} (hr : r.uses c = false) (s b : Text) :
    search r (s ++ c :: b) = (search r s).or (search r b) := by
  induction s with
  | nil =>
    show (matchPrefix r ([] ++ c :: b)).or (search r b) = _
    rw [matchPrefix_append hr]
    rfl
  | cons d s ih =>
    show (matchPrefix r ((d :: s) ++ c :: b)).or (search r (s ++ c :: b)) =
      ((matchPrefix r (d :: s)).or (search r s)).or (search r b)
    rw [matchPrefix_append hr, ih, Option.or_assoc]

/-- A search goes through the lines. -/
theorem search_unlines (hr : r.uses '\n' = false) (hne : ls ≠ []) :
    search r (unlines ls) = ls.findSome? (search r) := by
  induction ls with
  | nil => exact absurd rfl hne
  | cons l ls ih =>
    have hor : (l :: ls).findSome? (search r) = (search r l).or (ls.findSome? (search r)) := by
      rw [List.findSome?_cons]
      cases search r l <;> rfl
    rw [hor]
    by_cases hnil : ls = []
    · subst hnil
      rw [Text.unlines_singleton]
      exact (Option.or_none ..).symm
    · rw [Text.unlines_cons l hnil, search_append_or hr, ih hnil]

/-! ## White space across lines -/

/-- A test that no text passes which is empty or begins with white space. -/
def NotAtSpace (test : Text → Bool) : Prop :=
  test [] = false ∧ ∀ c t, Text.isSpace c = true → test (c :: t) = false

theorem head_of_endsLine {rest : Text} (h : endsLine rest = true) :
    rest = [] ∨ ∃ t, rest = '\n' :: t := by
  cases rest with
  | nil => exact .inl rfl
  | cons c t =>
    have hc : c = '\n' := by simpa [endsLine] using h
    exact .inr ⟨t, by rw [hc]⟩

theorem NotAtSpace.rest (htest : NotAtSpace test) {rest : Text} (h : endsLine rest = true) : test rest = false := by
  rcases head_of_endsLine h with rfl | ⟨t, rfl⟩
  · exact htest.1
  · exact htest.2 '\n' t (by decide)

/-- No line that begins within white space passes the test. -/
theorem find_afterBreaks (htest : NotAtSpace test) {space rest : Text} (hspace : ∀ c ∈ space, Text.isSpace c = true)
    (hrest : endsLine rest = true) : (afterBreaks (space ++ rest)).find? test = (afterBreaks rest).find? test := by
  induction space with
  | nil => rfl
  | cons c space ih =>
    have hbehind := ih fun d hd => hspace d (List.mem_cons_of_mem c hd)
    rw [List.cons_append, afterBreaks]
    split_ifs
    · have hhead : test (space ++ rest) = false := by
        cases space with
        | nil => exact htest.rest hrest
        | cons d space => exact htest.2 d _ (hspace d (by simp))
      rw [List.find?_cons, hhead]
      exact hbehind
    · exact hbehind

/-- A search for a line from the end of a line on. -/
theorem find_lineStarts_rest (htest : NotAtSpace test) {rest : Text} (hrest : endsLine rest = true) :
    (lineStarts rest).find? test = (afterBreaks rest).find? test := by
  unfold lineStarts
  rw [List.find?_cons, htest.rest hrest]

theorem endsLine_unlines (ls : List Text) : endsLine (unlines ([] :: ls)) = true := by
  by_cases hnil : ls = []
  · subst hnil
    rfl
  · rw [Text.unlines_cons [] hnil]
    rfl

/-- A match that takes white space up to the end of a line leaves the same lines behind as the line does. -/
theorem find_lineStarts_behind (htest : NotAtSpace test) {front space rest : Text} (hl : '\n' ∉ l)
    (hfront : '\n' ∉ front) (hspace : ∀ c ∈ space, Text.isSpace c = true) (hrest : endsLine rest = true)
    (h : unlines (l :: ls) = front ++ space ++ rest) :
    (lineStarts rest).find? test = (lineStarts (unlines ([] :: ls))).find? test := by
  have hleft : (afterBreaks (unlines (l :: ls))).find? test = (afterBreaks rest).find? test := by
    rw [h, List.append_assoc, afterBreaks_append hfront, find_afterBreaks htest hspace hrest]
  have hright : afterBreaks (unlines (l :: ls)) = afterBreaks (unlines ([] :: ls)) := by
    rw [Text.unlines_head l, afterBreaks_append hl]
  rw [find_lineStarts_rest htest hrest, find_lineStarts_rest htest (endsLine_unlines ls), ← hleft, hright]

end Regex

import SovaVerified.Dashboard.Proofs.AnswerLineProofs
import SovaVerified.Regex.Proofs.SubProofs

/-!
# When answers are written where they belong

An answer replaces its question wherever the text of the question stands. It lands in its own line alone when
that text stands nowhere else, and it is read back when the reader splits the line at the same places.
-/

namespace Dashboard.SpecService

open Utils Core.SpecText
open Utils.Markdown (Fence Free Heading onward before titles boundary fenceAfter fencesAfter bodyOf behindOf)
open Text (unlines AreLines ended stripFront stripBack stripLines)

variable {old new t u v w x y line question answer given : Text} {lines a b : List Text}

/-! ## Replacing a text that stands in one place -/

/-- The matcher of a replacement. -/
def replacing (old new : Text) : Regex.Matcher Text := fun _ t =>
  if old.isPrefixOf t then some (new, old.length) else none

theorem replaceAll_eq (hold : old ≠ []) (new text : Text) :
    replaceAll old new text = Regex.subAll (replacing old new) none 0 text := if_neg hold

theorem replacing_eq_none (prev : Option Char) (h : ¬ old <+: t) : replacing old new prev t = none := by
  unfold replacing
  rw [if_neg]
  rwa [List.isPrefixOf_iff_prefix]

theorem replacing_here (prev : Option Char) : replacing old new prev (old ++ y) = some (new, old.length) := by
  unfold replacing
  rw [if_pos]
  exact List.isPrefixOf_iff_prefix.mpr (List.prefix_append old y)

/-- A text that stands in one place is replaced there, and nothing else changes. -/
theorem replaceAll_once (hold : old ≠ []) (hfront : ∀ s, s <:+ x → s ≠ [] → ¬ old <+: s ++ (old ++ y))
    (hback : ¬ old <:+: y) : replaceAll old new (x ++ (old ++ y)) = x ++ (new ++ y) := by
  have hskip : ∀ prev s, s <:+ x → s ≠ [] → replacing old new prev (s ++ (old ++ y)) = none :=
    fun prev s hs hne => replacing_eq_none prev (hfront s hs hne)
  have hrest : ∀ prev s, s <:+ y → s ≠ [] → replacing old new prev (s ++ []) = none := by
    intro prev s hs _
    rw [List.append_nil]
    exact replacing_eq_none prev fun hhere => hback (hhere.isInfix.trans hs.isInfix)
  have hy : ∀ prev, Regex.subAll (replacing old new) prev 0 y = y := by
    intro prev
    have hsub : Regex.subAll (replacing old new) prev 0 (y ++ []) =
        y ++ Regex.subAll (replacing old new) _ 0 [] :=
      Regex.subAll_skip_word hrest
    rwa [List.append_nil, Regex.subAll, List.append_nil] at hsub
  rw [replaceAll_eq hold, Regex.subAll_skip_word hskip]
  obtain ⟨c, t, hcons⟩ := List.exists_cons_of_ne_nil hold
  have hhere : replacing old new (x.getLast?.or none) (old ++ y) = some (new, old.length) := replacing_here _
  have hlen : old.length - 1 = t.length := by rw [hcons]; rfl
  rw [hcons, List.cons_append] at hhere ⊢
  rw [Regex.subAll, hhere]
  dsimp only
  rw [← hcons, hlen, Regex.subAll_drop (by simp), List.drop_left, hy]

/-! ## Texts within a line -/

/-- What begins a text and does not have the character at a place of it ends in front of the place. -/
theorem prefix_of_notMem (h : old <+: t ++ u) (hu : ∀ c ∈ u.head?, c ∉ old) : old <+: t := by
  obtain ⟨rest, hrest⟩ := h
  rcases List.append_eq_append_iff.mp hrest with ⟨e, rfl, -⟩ | ⟨e, rfl, hu'⟩
  · exact List.prefix_append old e
  · cases e with
    | nil => exact ⟨[], by simp⟩
    | cons c e =>
      rw [hu'] at hu
      exact absurd (List.mem_append_right t List.mem_cons_self) (hu c rfl)

/-- What has no line feed stands on one side of it. -/
theorem infix_of_newline (hold : '\n' ∉ old) (h : old <:+: t ++ '\n' :: u) : old <:+: t ∨ old <:+: u := by
  obtain ⟨s, hs, p, hp⟩ := List.infix_iff_prefix_suffix.mp h
  have hhead : ∀ c ∈ ('\n' :: u).head?, c ∉ old := by
    intro c hc
    obtain rfl : '\n' = c := Option.some.inj hc
    exact hold
  rcases List.append_eq_append_iff.mp hp with ⟨e, rfl, rfl⟩ | ⟨e, rfl, hu⟩
  · left
    exact (prefix_of_notMem hs hhead).isInfix.trans (List.suffix_append p e).isInfix
  · right
    cases e with
    | nil =>
      rw [List.nil_append] at hu
      rw [← hu] at hs
      have hnil : old <+: [] := prefix_of_notMem hs hhead
      rw [List.prefix_nil.mp hnil]
      exact List.nil_infix
    | cons c e =>
      obtain ⟨-, rfl⟩ := List.cons.inj hu
      exact hs.isInfix.trans (List.suffix_append e s).isInfix

/-- What has no line feed stands in one of the lines. -/
theorem exists_infix_line (hold : '\n' ∉ old) (hne : old ≠ []) (h : old <:+: unlines lines) :
    ∃ line ∈ lines, old <:+: line := by
  induction lines with
  | nil => exact absurd (List.infix_nil.mp h) hne
  | cons line lines ih =>
    by_cases hnil : lines = []
    · subst hnil
      rw [Text.unlines_singleton] at h
      exact ⟨line, List.mem_cons_self, h⟩
    · rw [Text.unlines_cons line hnil] at h
      rcases infix_of_newline hold h with h | h
      · exact ⟨line, List.mem_cons_self, h⟩
      · obtain ⟨other, hother, hin⟩ := ih h
        exact ⟨other, List.mem_cons_of_mem line hother, hin⟩

theorem prefix_of_length (h : old <+: u ++ (old ++ v)) : old <+: u ++ old := by
  rw [← List.append_assoc] at h
  refine List.prefix_of_prefix_length_le h (List.prefix_append _ v) ?_
  rw [List.length_append]
  exact Nat.le_add_left _ _

/-- What begins in some lines stands in one of them. -/
theorem ended_front (hold : '\n' ∉ old) (hne : u ≠ []) (hu : u <:+ ended a) (h : old <+: u ++ v) :
    ∃ line ∈ a, old <:+: line := by
  induction a with
  | nil => exact absurd (List.suffix_nil.mp hu) hne
  | cons line a ih =>
    rw [Text.ended_cons] at hu
    obtain ⟨p, hp⟩ := hu
    rcases List.append_eq_append_iff.mp hp with ⟨e, rfl, rfl⟩ | ⟨e, rfl, hrest⟩
    · refine ⟨p ++ e, List.mem_cons_self, ?_⟩
      rw [List.append_assoc] at h
      have hhead : ∀ c ∈ ('\n' :: ended a ++ v).head?, c ∉ old := by
        intro c hc
        obtain rfl : '\n' = c := Option.some.inj hc
        exact hold
      exact (prefix_of_notMem h hhead).isInfix.trans (List.suffix_append p e).isInfix
    · cases e with
      | nil =>
        rw [List.nil_append] at hrest
        subst hrest
        refine ⟨line, List.mem_cons_self, ?_⟩
        have hhead : ∀ c ∈ ('\n' :: ended a ++ v).head?, c ∉ old := by
          intro c hc
          obtain rfl : '\n' = c := Option.some.inj hc
          exact hold
        have hnil : old <+: [] := prefix_of_notMem h hhead
        rw [List.prefix_nil.mp hnil]
        exact List.nil_infix
      | cons c e =>
        obtain ⟨-, hrest⟩ := List.cons.inj hrest
        obtain ⟨other, hother, hin⟩ := ih ⟨e, hrest.symm⟩
        exact ⟨other, List.mem_cons_of_mem line hother, hin⟩

/-- A text that stands in one place of one line is replaced there. -/
theorem replaceAll_line (hold : old ≠ []) (hline : '\n' ∉ old)
    (hfirst : ∀ s, s <:+ x → s ≠ [] → ¬ old <+: s ++ old) (hy : ¬ old <:+: y)
    (ha : ∀ other ∈ a, ¬ old <:+: other) (hb : ∀ other ∈ b, ¬ old <:+: other) :
    replaceAll old new (unlines (a ++ (x ++ (old ++ y)) :: b)) = unlines (a ++ (x ++ (new ++ y)) :: b) := by
  obtain ⟨z, hz, hzfree⟩ : ∃ z, (∀ l, unlines (l :: b) = l ++ z) ∧ ¬ old <:+: y ++ z := by
    by_cases hnil : b = []
    · refine ⟨[], fun l => ?_, by rwa [List.append_nil]⟩
      rw [hnil, Text.unlines_singleton, List.append_nil]
    · refine ⟨'\n' :: unlines b, fun l => Text.unlines_cons l hnil, fun hin => ?_⟩
      rcases infix_of_newline hline hin with hin | hin
      · exact hy hin
      · obtain ⟨other, hother, hin⟩ := exists_infix_line hline hold hin
        exact hb other hother hin
  have hfront : ∀ s, s <:+ ended a ++ x → s ≠ [] → ¬ old <+: s ++ (old ++ (y ++ z)) := by
    rintro s ⟨p, hp⟩ hne hhere
    rcases List.append_eq_append_iff.mp hp with ⟨e, he, rfl⟩ | ⟨e, rfl, hx⟩
    · cases e with
      | nil =>
        rw [List.nil_append] at hne hhere
        exact hfirst x (List.suffix_refl x) hne (prefix_of_length hhere)
      | cons c e =>
        -- The place would be in a line in front.
        rw [List.append_assoc] at hhere
        obtain ⟨line, hmem, hin⟩ := ended_front hline (List.cons_ne_nil c e) ⟨p, he.symm⟩ hhere
        exact ha line hmem hin
    · exact hfirst s ⟨e, hx.symm⟩ hne (prefix_of_length hhere)
  rw [Text.unlines_append a (List.cons_ne_nil _ _), Text.unlines_append a (List.cons_ne_nil _ _), hz, hz]
  have hleft : ended a ++ (x ++ (old ++ y) ++ z) = (ended a ++ x) ++ (old ++ (y ++ z)) := by simp
  have hright : ended a ++ (x ++ (new ++ y) ++ z) = (ended a ++ x) ++ (new ++ (y ++ z)) := by simp
  rw [hleft, hright]
  exact replaceAll_once hold hfront hzfree

/-- A text that is replaced by itself. -/
theorem replaceAll_self (hold : old ≠ []) (text : Text) : replaceAll old old text = text := by
  rw [replaceAll_eq hold]
  have hdrop : ∀ prev k, k ≤ text.length → Regex.subAll (replacing old old) prev k text = text.drop k := by
    induction text with
    | nil =>
      intro prev k hk
      rw [Nat.le_zero.mp hk]
      rfl
    | cons c t ih =>
      intro prev k hk
      cases k with
      | succ k =>
        rw [Regex.subAll, ih (some c) k (Nat.le_of_succ_le_succ hk)]
        rfl
      | zero =>
        by_cases hhere : old <+: c :: t
        · obtain ⟨rest, hrest⟩ := hhere
          have hfound : replacing old old prev (c :: t) = some (old, old.length) := by
            rw [← hrest]
            exact replacing_here prev
          obtain ⟨d, old', hcons⟩ := List.exists_cons_of_ne_nil hold
          have htail : old'.length = old.length - 1 ∧ t = old' ++ rest := by
            rw [hcons, List.cons_append] at hrest
            rw [hcons]
            exact ⟨rfl, (List.cons.inj hrest).2.symm⟩
          rw [Regex.subAll, hfound]
          dsimp only
          have hlen : old.length - 1 ≤ t.length := by
            rw [htail.2, List.length_append, htail.1]
            exact Nat.le_add_right _ _
          rw [ih (some c) _ hlen, ← htail.1]
          conv_lhs => rw [htail.2, List.drop_left]
          exact hrest
        · rw [Regex.subAll, replacing_eq_none prev hhere]
          dsimp only
          rw [ih (some c) 0 (Nat.zero_le _)]
          rfl
  exact hdrop none 0 (Nat.zero_le _)

/-! ## The lines with their answers -/

/-- The line of a question with the answer that is given, unless there is none or it has that one. -/
def answeredLine (line question answer given : Text) : Text :=
  if given = [] ∨ given = answer then line else newLine line question given

/-- The lines of the section with the answers in their lines. The questions are counted from `k` on. -/
def answerLines (answers : Assoc Text Text) : Nat → List Text → List Text
  | _, [] => []
  | k, line :: lines =>
    match readLine line with
    | none => line :: answerLines answers k lines
    | some (question, answer) =>
      answeredLine line question answer (answerTo answers k) :: answerLines answers (k + 1) lines

/-- The question with the answer that is given to it. -/
def withAnswer (answers : Assoc Text Text) (q : Question) : Question :=
  if answerTo answers q.id = [] then q else { q with answer := answerTo answers q.id }

/-- The answer can be written in the line of the question: the line says what is replaced and nothing else, in
one place, and no line above or below has it. -/
structure Fits (st : Option Fence) (above below : List Text) (line : Text) (q : Question) (given : Text) :
    Prop where
  whole : cleaned line = oldEntry q
  unmarked : Unmarked q.text
  bare : Text.strip given = given
  fence : fenceAfter st line = st
  first : ∀ s, s <:+ lead line → s ≠ [] → ¬ cleaned line <+: s ++ cleaned line
  above : ∀ other ∈ above, ¬ cleaned line <:+: other
  below : ∀ other ∈ below, ¬ cleaned line <:+: other

theorem fits_iff {st : Option Fence} {above below : List Text} {q : Question} :
    Fits st above below line q given ↔
      cleaned line = oldEntry q ∧ Unmarked q.text ∧ Text.strip given = given ∧ fenceAfter st line = st ∧
        (∀ s ∈ (lead line).tails, s ≠ [] → ¬ cleaned line <+: s ++ cleaned line) ∧
        (∀ other ∈ above, ¬ cleaned line <:+: other) ∧ ∀ other ∈ below, ¬ cleaned line <:+: other := by
  constructor
  · rintro ⟨hwhole, hunmarked, hbare, hfence, hfirst, habove, hbelow⟩
    exact ⟨hwhole, hunmarked, hbare, hfence, fun s hs => hfirst s ((List.mem_tails s _).mp hs), habove, hbelow⟩
  · rintro ⟨hwhole, hunmarked, hbare, hfence, hfirst, habove, hbelow⟩
    exact ⟨hwhole, hunmarked, hbare, hfence, fun s hs => hfirst s ((List.mem_tails s _).mpr hs), habove, hbelow⟩

instance {st : Option Fence} {above below : List Text} {q : Question} :
    Decidable (Fits st above below line q given) := decidable_of_iff _ fits_iff.symm

/-- All answers can be written in the lines of a section, with the lines above and below. -/
def Writable (answers : Assoc Text Text) (above lines below : List Text) : Prop :=
  ∀ done line rest, lines = done ++ line :: rest → ∀ question answer, readLine line = some (question, answer) →
    ∀ given, given = answerTo answers (done.filterMap readLine).length → given ≠ [] → given ≠ answer →
      Fits (fencesAfter none done) (above ++ answerLines answers 0 done) (rest ++ below) line
        ⟨(done.filterMap readLine).length, question, answer⟩ given

variable {answers : Assoc Text Text} {above below done rest : List Text} {k : Nat}

theorem answerLines_none (k : Nat) (hline : readLine line = none) (lines : List Text) :
    answerLines answers k (line :: lines) = line :: answerLines answers k lines := by
  rw [answerLines, hline]

theorem answerLines_some (k : Nat) (hline : readLine line = some (question, answer)) (lines : List Text) :
    answerLines answers k (line :: lines) =
      answeredLine line question answer (answerTo answers k) :: answerLines answers (k + 1) lines := by
  rw [answerLines, hline]

theorem answerLines_append (k : Nat) (a b : List Text) : answerLines answers k (a ++ b) =
    answerLines answers k a ++ answerLines answers (k + (a.filterMap readLine).length) b := by
  induction a generalizing k with
  | nil => rfl
  | cons line a ih =>
    rw [List.cons_append]
    cases hline : readLine line with
    | none =>
      rw [answerLines_none k hline, answerLines_none k hline, ih, List.filterMap_cons_none hline,
        List.cons_append]
    | some found =>
      obtain ⟨question, answer⟩ := found
      have hcount : k + 1 + (a.filterMap readLine).length =
          k + ((question, answer) :: a.filterMap readLine).length := by
        rw [List.length_cons]
        omega
      rw [answerLines_some k hline, answerLines_some k hline, ih, List.filterMap_cons_some hline, hcount,
        List.cons_append]

/-! ## The loop -/

theorem writeEach_cons (q : Question) (questions : List Question) (text : Text) :
    writeEach answers (q :: questions) text = writeEach answers questions
      (if answerTo answers q.id = [] then text
        else replaceAll (oldEntry q) (entry q.text (answerTo answers q.id)) text) := rfl

/-- One answer is written in its line. -/
theorem replaceAll_fits {st : Option Fence} {q : Question} (hfits : Fits st a b line q given)
    (hline : '\n' ∉ line) (hne : cleaned line ≠ []) :
    replaceAll (oldEntry q) (entry q.text given) (unlines (a ++ line :: b)) =
      unlines (a ++ newLine line q.text given :: b) := by
  have hpart : ∀ c ∈ cleaned line, c ∈ line := by
    intro c hc
    rw [line_eq line]
    exact List.mem_append_right _ (List.mem_append_left _ hc)
  have hback : ¬ cleaned line <:+: trail line := by
    intro hin
    obtain ⟨c, rest, hcons⟩ := List.exists_cons_of_ne_nil hne
    have hc : c ∈ cleaned line := by
      rw [hcons]
      exact List.mem_cons_self
    have hspace := isSpace_of_mem_trail c (hin.subset hc)
    have hink := head_cleaned line c (by rw [hcons]; rfl)
    rw [hspace] at hink
    cases hink
  have hself : unlines (a ++ line :: b) = unlines (a ++ (lead line ++ (cleaned line ++ trail line)) :: b) := by
    conv_lhs => rw [line_eq line]
  rw [← hfits.whole, hself]
  unfold newLine
  exact replaceAll_line hne (fun hmem => hline (hpart _ hmem)) hfits.first hback hfits.above hfits.below

/-- The loop writes every answer in the line of its question. -/
theorem writeEach_lines (hwritable : Writable answers above lines below) (hlines : AreLines lines)
    (hsplit : lines = done ++ rest) :
    writeEach answers (numbered (done.filterMap readLine).length (rest.filterMap readLine))
        (unlines (above ++ answerLines answers 0 done ++ (rest ++ below))) =
      unlines (above ++ answerLines answers 0 lines ++ below) := by
  induction rest generalizing done with
  | nil =>
    rw [List.append_nil] at hsplit
    rw [hsplit]
    rfl
  | cons line rest ih =>
    have hsnoc : lines = (done ++ [line]) ++ rest := by rw [hsplit, List.append_assoc, List.singleton_append]
    have hnext := ih hsnoc
    have hcount : answerLines answers 0 (done ++ [line]) =
        answerLines answers 0 done ++ answerLines answers (done.filterMap readLine).length [line] := by
      rw [answerLines_append, Nat.zero_add]
    rw [List.filterMap_append, hcount] at hnext
    cases hline : readLine line with
    | none =>
      rw [answerLines_none _ hline, List.filterMap_cons_none hline] at hnext
      rw [List.filterMap_cons_none hline]
      simpa only [answerLines, List.filterMap_nil, List.append_nil, List.append_assoc, List.singleton_append,
        List.cons_append, List.nil_append] using hnext
    | some found =>
      obtain ⟨question, answer⟩ := found
      rw [answerLines_some _ hline, List.filterMap_cons_some hline, List.length_append] at hnext
      rw [List.filterMap_cons_some hline, numbered_cons, writeEach_cons]
      have hwritten : (if answerTo answers (done.filterMap readLine).length = [] then
            unlines (above ++ answerLines answers 0 done ++ (line :: rest ++ below))
          else replaceAll (oldEntry ⟨(done.filterMap readLine).length, question, answer⟩)
            (entry question (answerTo answers (done.filterMap readLine).length))
            (unlines (above ++ answerLines answers 0 done ++ (line :: rest ++ below)))) =
          unlines (above ++ answerLines answers 0 done ++
            (answeredLine line question answer (answerTo answers (done.filterMap readLine).length) ::
              rest ++ below)) := by
        unfold answeredLine
        split_ifs with hnone hsame hsame
        · rfl
        · exact absurd (.inl hnone) hsame
        · obtain hsame := hsame.resolve_left hnone
          have hold :
              oldEntry ⟨(done.filterMap readLine).length, question, answer⟩ = entry question answer := by
            unfold oldEntry
            rw [if_neg]
            rw [← hsame]
            exact hnone
          rw [hold, hsame]
          exact replaceAll_self (by rw [entry_cons]; exact List.cons_ne_nil _ _) _
        · have hfits := hwritable done line rest hsplit question answer hline _ rfl hnone
            fun h => hsame (.inr h)
          have hone : '\n' ∉ line := by
            refine hlines line ?_
            rw [hsplit]
            exact List.mem_append_right _ List.mem_cons_self
          exact replaceAll_fits hfits hone (readLine_eq hline).1
      refine (congrArg _ hwritten).trans ?_
      simpa only [answerLines, List.filterMap_nil, List.append_nil, List.append_assoc, List.singleton_append,
        List.cons_append, List.nil_append, List.length_cons, List.length_nil, Nat.zero_add] using hnext

/-! ## Reading the lines again -/

section

variable {st : Option Fence} {q : Question}

/-- The line is read as its question with the answer that is given, if there is one. -/
theorem readLine_answeredLine (hline : readLine line = some (q.text, q.answer))
    (hfits : given ≠ [] → given ≠ q.answer → Fits st a b line q given) :
    readLine (answeredLine line q.text q.answer given) =
      some (q.text, if given = [] then q.answer else given) := by
  unfold answeredLine
  by_cases hnone : given = []
  · rw [if_pos (.inl hnone), if_pos hnone]
    exact hline
  · rw [if_neg hnone]
    by_cases hsame : given = q.answer
    · rw [if_pos (.inr hsame), hsame]
      exact hline
    · rw [if_neg (not_or.mpr ⟨hnone, hsame⟩)]
      have hfit := hfits hnone hsame
      exact readLine_newLine hnone hfit.bare (strip_question hline) hfit.unmarked (readLine_eq hline).2.2

theorem fenceAfter_answeredLine (hfits : given ≠ [] → given ≠ q.answer → Fits st a b line q given) :
    fenceAfter st (answeredLine line q.text q.answer given) = fenceAfter st line := by
  unfold answeredLine
  split_ifs with hsame
  · rfl
  · obtain ⟨hnone, hother⟩ := not_or.mp hsame
    have hfit := hfits hnone hother
    rw [fenceAfter_newLine hnone hfit.bare, hfit.fence]

theorem boundary_answeredLine (h : boundary (answeredLine line question answer given) = true) :
    boundary line = true := by
  unfold answeredLine at h
  split_ifs at h
  · exact h
  · rw [boundary_newLine] at h
    cases h

theorem newline_answeredLine (hline : readLine line = some (question, answer)) (hone : '\n' ∉ line)
    (hgiven : '\n' ∉ given) : '\n' ∉ answeredLine line question answer given := by
  unfold answeredLine
  split_ifs
  · exact hone
  · have hpart : ∀ u, u <:+: line → '\n' ∉ u := fun u hu hmem => hone (hu.subset hmem)
    have hlead : '\n' ∉ lead line ∧ '\n' ∉ trail line := by
      constructor
      · exact hpart _ ⟨[], cleaned line ++ trail line, (line_eq line).symm⟩
      · refine hpart _ ⟨lead line ++ cleaned line, [], ?_⟩
        rw [List.append_nil, List.append_assoc]
        exact (line_eq line).symm
    have hquestion : '\n' ∉ question := fun hmem => hone (mem_of_readLine hline hmem)
    unfold newLine entry
    simp only [List.mem_append, not_or]
    exact ⟨hlead.1, ⟨by decide, hquestion, by decide, hgiven⟩, hlead.2⟩

end

/-- The questions of the lines are the same ones, with the answers that are given. -/
theorem numbered_answerLines (hwritable : Writable answers above lines below) (hsplit : lines = done ++ rest) :
    numbered (done.filterMap readLine).length
        ((answerLines answers (done.filterMap readLine).length rest).filterMap readLine) =
      (numbered (done.filterMap readLine).length (rest.filterMap readLine)).map (withAnswer answers) := by
  induction rest generalizing done with
  | nil => rfl
  | cons line rest ih =>
    have hsnoc : lines = (done ++ [line]) ++ rest := by rw [hsplit, List.append_assoc, List.singleton_append]
    have hnext := ih hsnoc
    rw [List.filterMap_append] at hnext
    cases hline : readLine line with
    | none =>
      rw [List.filterMap_cons_none hline, List.filterMap_nil, List.append_nil] at hnext
      rw [answerLines_none _ hline, List.filterMap_cons_none hline, List.filterMap_cons_none hline]
      exact hnext
    | some found =>
      obtain ⟨question, answer⟩ := found
      have hfits := hwritable done line rest hsplit question answer hline _ rfl
      have hread := readLine_answeredLine (q := ⟨_, question, answer⟩) hline hfits
      rw [List.filterMap_cons_some hline, List.filterMap_nil, List.length_append,
        List.length_singleton] at hnext
      rw [answerLines_some _ hline, List.filterMap_cons_some hline, List.filterMap_cons_some hread,
        numbered_cons, numbered_cons, List.map_cons, hnext]
      congr 1
      unfold withAnswer
      split_ifs <;> rfl

/-- The section goes on as far as it did. -/
theorem free_answerLines (hwritable : Writable answers above lines below) (hsplit : lines = done ++ rest)
    (hfree : Free boundary (fencesAfter none done) rest) :
    Free boundary (fencesAfter none done) (answerLines answers (done.filterMap readLine).length rest) ∧
      fencesAfter (fencesAfter none done) (answerLines answers (done.filterMap readLine).length rest) =
        fencesAfter none lines := by
  induction rest generalizing done with
  | nil =>
    rw [List.append_nil] at hsplit
    rw [hsplit]
    exact ⟨rfl, rfl⟩
  | cons line rest ih =>
    have hsnoc : lines = (done ++ [line]) ++ rest := by rw [hsplit, List.append_assoc, List.singleton_append]
    have hstate : fencesAfter none (done ++ [line]) = fenceAfter (fencesAfter none done) line := by
      rw [Markdown.fencesAfter_append]
      rfl
    obtain ⟨hopen, hbehind⟩ := Markdown.free_cons_iff.mp hfree
    have hnext := ih hsnoc (by rw [hstate]; exact hbehind)
    rw [hstate, List.filterMap_append] at hnext
    cases hline : readLine line with
    | none =>
      rw [List.filterMap_cons_none hline, List.filterMap_nil, List.append_nil] at hnext
      rw [answerLines_none _ hline]
      exact ⟨Markdown.free_cons_iff.mpr ⟨hopen, hnext.1⟩, hnext.2⟩
    | some found =>
      obtain ⟨question, answer⟩ := found
      have hfits := hwritable done line rest hsplit question answer hline _ rfl
      have hfence := fenceAfter_answeredLine (q := ⟨_, question, answer⟩) hfits
      rw [List.filterMap_cons_some hline, List.filterMap_nil, List.length_append,
        List.length_singleton] at hnext
      rw [answerLines_some _ hline]
      refine ⟨Markdown.free_cons_iff.mpr ⟨?_, ?_⟩, ?_⟩
      · rintro ⟨hnone, hbound⟩
        exact hopen ⟨hnone, boundary_answeredLine hbound⟩
      · rw [hfence]
        exact hnext.1
      · rw [Markdown.fencesAfter_cons, hfence]
        exact hnext.2

theorem areLines_answerLines (hanswers : ∀ id, '\n' ∉ answerTo answers id) (hlines : AreLines lines) (k : Nat) :
    AreLines (answerLines answers k lines) := by
  induction lines generalizing k with
  | nil => exact fun _ hl => absurd hl List.not_mem_nil
  | cons line lines ih =>
    obtain ⟨hone, hrest⟩ := Text.areLines_cons hlines
    cases hline : readLine line with
    | none =>
      rw [answerLines_none _ hline]
      exact AreLines.cons hone (ih hrest k)
    | some found =>
      obtain ⟨question, answer⟩ := found
      rw [answerLines_some _ hline]
      exact AreLines.cons (newline_answeredLine hline hone (hanswers k)) (ih hrest (k + 1))

/-- A line that begins with a list marker or the mark of a question does not say that there are none. -/
theorem saysNone_newLine (line question given : Text) : saysNone (newLine line question given) = false := by
  obtain ⟨-, c, rest, hcons, hc, -⟩ := lstrip_newLine line question given
  have hspace : Text.isSpace c = false := Text.head_lstrip (newLine line question given) c (by rw [hcons]; rfl)
  have hstrip : ∃ u, Text.strip (newLine line question given) = c :: u := by
    rw [Text.strip_eq, hcons]
    exact ⟨Text.rstrip rest, Text.rstrip_append_snoc hspace [] rest⟩
  obtain ⟨u, hu⟩ := hstrip
  have hlower : ∃ d v, Text.lower (c :: u) = d :: v ∧ d ≠ 'n' ∧ d ≠ '(' := by
    rcases hc with hc | rfl
    · have hlow : Text.lowerChar c = [c] := lowerChar_of_isListMark hc
      refine ⟨c, Text.lower u, ?_, ?_, ?_⟩
      · unfold Text.lower
        rw [List.flatMap_cons, hlow]
        rfl
      · rintro rfl
        exact absurd hc (by decide)
      · rintro rfl
        exact absurd hc (by decide)
    · exact ⟨'q', Text.lower u, rfl, by decide, by decide⟩
  obtain ⟨d, v, hdv, hn, hparen⟩ := hlower
  unfold saysNone
  dsimp only
  rw [hu, hdv]
  simp [List.isPrefixOf, hn.symm, hparen.symm]

/-- A section that has questions does not come to say that it has none. -/
theorem saysNone_answerLines (htold : saysNone (unlines lines) = false) (k : Nat) :
    saysNone (unlines (answerLines answers k lines)) = false := by
  induction lines generalizing k with
  | nil => exact htold
  | cons line lines ih =>
    by_cases hblank : Text.lstrip line = []
    · rw [saysNone_blank hblank] at htold
      rw [answerLines_none k (readLine_blank hblank), saysNone_blank hblank]
      exact ih htold k
    · rw [saysNone_cons hblank] at htold
      cases hline : readLine line with
      | none =>
        rw [answerLines_none k hline, saysNone_cons hblank]
        exact htold
      | some found =>
        obtain ⟨question, answer⟩ := found
        rw [answerLines_some k hline]
        unfold answeredLine
        split_ifs
        · rw [saysNone_cons hblank]
          exact htold
        · rw [saysNone_cons, saysNone_newLine]
          obtain ⟨-, c, rest, hcons, -⟩ := lstrip_newLine line question (answerTo answers k)
          rw [hcons]
          exact List.cons_ne_nil _ _

/-! ## The text -/

/-- The lines around the section: those above it, with its heading, and those below it. -/
def aroundQuestions (text : Text) : List Text × List Text :=
  (before (titles openQuestions.text) none (text.splitOn '\n') ++
      (onward (titles openQuestions.text) none (text.splitOn '\n')).take 1,
    behindOf openQuestions.text none (text.splitOn '\n'))

/-- The lines of the section. -/
def questionLines (text : Text) : List Text := bodyOf openQuestions.text none (text.splitOn '\n')

/-- All answers can be written in the section, unless it says that there are no questions. -/
def AnswersFit (answers : Assoc Text Text) (text : Text) : Prop :=
  saysNone (unlines (questionLines text)) = false →
    Writable answers (aroundQuestions text).1 (questionLines text) (aroundQuestions text).2

/-- The parts of a text with other lines in its section, which goes as far as the old one did. -/
theorem parts_replaced {text : Text} {title : Text} {behind body : List Text}
    (hcons : onward (titles openQuestions.text) none (text.splitOn '\n') = title :: behind)
    (hbody : AreLines body) (hfree : Free boundary none body)
    (hfences : fencesAfter none body = fencesAfter none (questionLines text)) :
    let text' := unlines ((aroundQuestions text).1 ++ body ++ (aroundQuestions text).2)
    questionLines text' = body ∧ aroundQuestions text' = aroundQuestions text := by
  intro text'
  obtain ⟨hsplit, hclosed, htitle⟩ := Markdown.onward_eq_cons hcons
  obtain ⟨hparts, -, hends⟩ := Markdown.parts_of_section hcons
  have hlines := Text.areLines_splitOn text
  have hbelow : AreLines (aroundQuestions text).2 := Markdown.areLines_behindOf openQuestions.text hlines
  have habove : (aroundQuestions text).1 =
      before (titles openQuestions.text) none (text.splitOn '\n') ++ [title] := by
    unfold aroundQuestions
    rw [hcons]
    rfl
  have hsplit' : text'.splitOn '\n' = before (titles openQuestions.text) none (text.splitOn '\n') ++
      title :: (body ++ (aroundQuestions text).2) := by
    have hone : AreLines ((aroundQuestions text).1 ++ body ++ (aroundQuestions text).2) := by
      refine AreLines.append (AreLines.append ?_ hbody) hbelow
      rw [habove]
      rw [hsplit] at hlines
      exact AreLines.append hlines.left (AreLines.cons (Text.areLines_cons hlines.right).1
        fun _ hl => absurd hl List.not_mem_nil)
    have hne : (aroundQuestions text).1 ++ body ++ (aroundQuestions text).2 ≠ [] := by
      rw [habove]
      simp
    rw [Text.splitOn_unlines hne hone, habove]
    simp only [List.append_assoc, List.cons_append, List.nil_append]
  have honward : onward (titles openQuestions.text) none (text'.splitOn '\n') =
      title :: (body ++ (aroundQuestions text).2) := by
    rw [hsplit', Markdown.onward_append_of_free (Markdown.free_before _ none _), hclosed,
      Markdown.onward_hit htitle]
  have hbefore : before (titles openQuestions.text) none (text'.splitOn '\n') =
      before (titles openQuestions.text) none (text.splitOn '\n') := by
    rw [hsplit', Markdown.before_append_of_free (Markdown.free_before _ none _), hclosed,
      Markdown.before_hit htitle, List.append_nil]
  have hrest : before boundary none (body ++ (aroundQuestions text).2) = body ∧
      onward boundary none (body ++ (aroundQuestions text).2) = (aroundQuestions text).2 := by
    rw [Markdown.before_append_of_free hfree, Markdown.onward_append_of_free hfree]
    cases hnext : (aroundQuestions text).2 with
    | nil => exact ⟨List.append_nil body, rfl⟩
    | cons l ls =>
      have hbound : boundary l = true :=
        Markdown.boundary_head_behindOf openQuestions.text (text.splitOn '\n') l (by
          show l ∈ (aroundQuestions text).2.head?
          rw [hnext]
          rfl)
      have hnone : fencesAfter none body = none := by
        rw [hfences]
        exact hends (by
          show (aroundQuestions text).2 ≠ []
          rw [hnext]
          exact List.cons_ne_nil _ _)
      rw [hnone, Markdown.before_hit hbound, Markdown.onward_hit hbound, List.append_nil]
      exact ⟨rfl, rfl⟩
  refine ⟨?_, ?_⟩
  · unfold questionLines
    rw [Markdown.bodyOf_cons honward]
    exact hrest.1
  · have hbehind : behindOf openQuestions.text none (text'.splitOn '\n') = (aroundQuestions text).2 := by
      rw [Markdown.behindOf_cons honward]
      exact hrest.2
    refine Prod.ext ?_ hbehind
    show before _ none (text'.splitOn '\n') ++ (onward _ none (text'.splitOn '\n')).take 1 = _
    rw [hbefore, honward, habove]
    rfl

theorem withAnswer_nil : withAnswer [] = id := rfl

theorem newline_answerTo (hanswers : ∀ id answer, Assoc.get answers id = some answer → '\n' ∉ answer)
    (id : Nat) : '\n' ∉ answerTo answers id := by
  unfold answerTo
  cases hget : Assoc.get answers (Text.ofInt id) with
  | none => exact List.not_mem_nil
  | some answer => exact hanswers _ answer hget

/-- The text that is written is the text around the section, and the section with the answers. -/
theorem writeAnswers_lines {text : Text} {title : Text} {behind : List Text} (hne : answers ≠ [])
    (hcons : onward (titles openQuestions.text) none (text.splitOn '\n') = title :: behind)
    (htold : saysNone (unlines (questionLines text)) = false) (hfit : AnswersFit answers text) :
    writeAnswers answers text =
      unlines ((aroundQuestions text).1 ++ answerLines answers 0 (questionLines text) ++
        (aroundQuestions text).2) := by
  obtain ⟨hparts, -, -⟩ := Markdown.parts_of_section hcons
  have hlines : AreLines (questionLines text) :=
    Markdown.areLines_bodyOf openQuestions.text (Text.areLines_splitOn text)
  have hquestions : extractOpenQuestions text = numbered 0 ((questionLines text).filterMap readLine) := by
    rw [extractOpenQuestions_eq]
    exact if_neg (by rw [← questionLines, htold]; exact Bool.false_ne_true)
  have htext :
      text = unlines ((aroundQuestions text).1 ++ [] ++ (questionLines text ++ (aroundQuestions text).2)) := by
    conv_lhs => rw [← Text.unlines_splitOn text, hparts]
    unfold aroundQuestions questionLines
    rw [hcons]
    simp only [List.take_succ_cons, List.take_zero, List.append_assoc, List.singleton_append, List.append_nil]
  have hloop := writeEach_lines (hfit htold) hlines (List.nil_append (questionLines text)).symm
  unfold writeAnswers
  rw [if_neg hne, hquestions]
  exact (congrArg (writeEach answers _) htext).trans hloop

/-- The answers that are written are read back with their questions, in the same order, and the text around the
section is the same, when the lines of the questions can be written. -/
theorem writeAnswers_reads (answers : Assoc Text Text) (text : Text)
    (hanswers : ∀ id answer, Assoc.get answers id = some answer → '\n' ∉ answer)
    (hfit : AnswersFit answers text) :
    extractOpenQuestions (writeAnswers answers text) = (extractOpenQuestions text).map (withAnswer answers) ∧
      aroundQuestions (writeAnswers answers text) = aroundQuestions text := by
  by_cases hnil : answers = []
  · subst hnil
    have hsame : writeAnswers [] text = text := if_pos rfl
    rw [hsame, withAnswer_nil, List.map_id]
    exact ⟨rfl, rfl⟩
  · by_cases hnone : extractOpenQuestions text = []
    · have hsame : writeAnswers answers text = text := by
        unfold writeAnswers
        rw [if_neg hnil, hnone]
        rfl
      rw [hsame, hnone]
      exact ⟨rfl, rfl⟩
    · have htold : saysNone (unlines (questionLines text)) = false := by
        rw [extractOpenQuestions_eq] at hnone
        rw [Bool.eq_false_iff]
        exact fun htrue => hnone (if_pos htrue)
      obtain ⟨title, behind, hcons⟩ :
          ∃ title behind, onward (titles openQuestions.text) none (text.splitOn '\n') = title :: behind := by
        refine List.exists_cons_of_ne_nil fun hfree => ?_
        have hempty : questionLines text = [] := Markdown.bodyOf_nil hfree
        rw [hempty] at htold
        exact absurd htold (by decide)
      obtain ⟨-, hfree, -⟩ := Markdown.parts_of_section hcons
      have hlines : AreLines (questionLines text) :=
        Markdown.areLines_bodyOf openQuestions.text (Text.areLines_splitOn text)
      have hwritable := hfit htold
      have hwalk := free_answerLines hwritable (List.nil_append (questionLines text)).symm hfree
      have hbody := areLines_answerLines (newline_answerTo hanswers) hlines 0
      obtain ⟨hsection, haround⟩ := parts_replaced hcons hbody hwalk.1 hwalk.2
      rw [writeAnswers_lines hnil hcons htold hfit]
      refine ⟨?_, haround⟩
      have hread := numbered_answerLines hwritable (List.nil_append (questionLines text)).symm
      rw [extractOpenQuestions_eq, extractOpenQuestions_eq]
      rw [← questionLines, ← questionLines, hsection]
      unfold questionsOf
      rw [saysNone_answerLines htold, htold, if_neg Bool.false_ne_true, if_neg Bool.false_ne_true]
      exact hread

/-- A first answer, and another answer to a question that has one. -/
theorem writeAnswers_reads_cache :
    let text := "# Spec\n\n## Open Questions\n- Which TTL?\n2. Q: Which store? A: Redis\n\n## Scope\nAll.".toList
    let answers : Assoc Text Text := [("0".toList, "60 s".toList), ("1".toList, "Memcached".toList)]
    extractOpenQuestions (writeAnswers answers text) = (extractOpenQuestions text).map (withAnswer answers) ∧
      aroundQuestions (writeAnswers answers text) = aroundQuestions text := by
  intro text answers
  refine writeAnswers_reads answers text ?_ ?_
  · intro id answer hget
    have hmem := Assoc.mem_of_get hget
    rcases List.mem_cons.mp hmem with heq | hmem
    · rw [(Prod.mk.inj heq).2]
      decide
    · rw [(Prod.mk.inj (List.mem_singleton.mp hmem)).2]
      decide
  · have hlines : questionLines text =
        ["- Which TTL?".toList, "2. Q: Which store? A: Redis".toList, []] := by decide
    intro _ done line rest hsplit question answer hline given hgiven hne hother
    rw [hlines] at hsplit
    obtain _ | ⟨first, _ | ⟨second, _ | ⟨third, done⟩⟩⟩ := done
    · obtain ⟨rfl, rfl⟩ := List.cons.inj hsplit
      have hread : readLine "- Which TTL?".toList = some ("Which TTL?".toList, []) := by decide
      obtain ⟨rfl, rfl⟩ := Prod.mk.inj (Option.some.inj (hline.symm.trans hread))
      subst hgiven
      decide
    · obtain ⟨rfl, hrest⟩ := List.cons.inj hsplit
      obtain ⟨rfl, rfl⟩ := List.cons.inj hrest
      have hread : readLine "2. Q: Which store? A: Redis".toList =
        some ("Which store?".toList, "Redis".toList) := by decide
      obtain ⟨rfl, rfl⟩ := Prod.mk.inj (Option.some.inj (hline.symm.trans hread))
      subst hgiven
      decide
    · obtain ⟨-, hrest⟩ := List.cons.inj hsplit
      obtain ⟨-, hrest⟩ := List.cons.inj hrest
      obtain ⟨rfl, -⟩ := List.cons.inj hrest
      cases hline
    · simp at hsplit

/-- A question that is also put above the section. -/
theorem answer_written_above :
    let text := "# Spec: Cache\n\nUse Redis? Not decided.\n\n## Open Questions\n- Use Redis?".toList
    let answers : Assoc Text Text := [("0".toList, "yes".toList)]
    extractOpenQuestions text = [⟨0, "Use Redis?".toList, []⟩] ∧
      aroundQuestions (writeAnswers answers text) ≠ aroundQuestions text := by
  intro text answers
  constructor
  · decide
  · decide

end Dashboard.SpecService

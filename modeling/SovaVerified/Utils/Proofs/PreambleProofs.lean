import SovaVerified.Utils.Proofs.MaskProofs

/-!
# Which heading a preamble ends at

`strip_preamble` counts the lines that begin with three backticks, and the mask matches the fences. Both are
readers that go through the lines with a state of their own. They come to the same heading exactly when the
first heading that one of them takes to be outside of a block is outside for the other one too.
-/

namespace Utils.Markdown

open Text (unlines)

variable {line text : Text} {front lines : List Text} {inFence : Bool} {st : Option Fence}

/-! ## Headings -/

/-- The index of the first heading that `mask_fenced_blocks` leaves as it is. -/
def firstUnmaskedIdx (text : Text) : Option Nat :=
  ((text.splitOn '\n').zip ((maskFencedBlocks text).splitOn '\n')).findIdx? fun p =>
    isAtxHeading p.1 && p.2 == p.1

/-- The text from the first heading outside of all blocks on. -/
def cutOutside (text : Text) : Text := cutAt text (firstUnmaskedIdx text)

theorem head_of_isAtxHeading (h : isAtxHeading line = true) : ∃ rest, line = '#' :: rest := by
  unfold isAtxHeading at h
  rw [Bool.and_eq_true, beq_iff_eq] at h
  cases line with
  | nil => cases h.1
  | cons c rest =>
    cases h.1
    exact ⟨rest, rfl⟩

/-- A heading is no fence. -/
theorem not_fence_of_isAtxHeading (h : isAtxHeading line = true) :
    openFence line = none ∧ togglesFence line = false ∧ blanked line ≠ line := by
  obtain ⟨rest, rfl⟩ := head_of_isAtxHeading h
  have hspace : Text.isSpace '#' = false := by decide
  refine ⟨rfl, ?_, ?_⟩
  · have hstrip : Text.strip ('#' :: rest) = '#' :: Text.rstrip rest := by
      have hfront : Text.lstrip ('#' :: rest) = '#' :: rest := Text.lstrip_of_head (by simpa using hspace)
      rw [Text.strip_eq, hfront]
      have hback := Text.rstrip_append ['#'] rest
      rw [List.singleton_append] at hback
      rw [hback]
      split_ifs with hnil
      · rw [hnil]
        exact Text.rstrip_snoc hspace []
      · rfl
    unfold togglesFence
    rw [hstrip]
    rfl
  · intro heq
    have hhead := congrArg List.head? heq
    exact absurd hhead (by simp [blanked, List.replicate_succ])

/-! ## The two readers -/

/-- Some lines leave `strip_preamble` inside of a fence: the number of those that begin with three backticks
is odd, or even where it was inside before them. -/
def staysInFence (inFence : Bool) (front : List Text) : Bool :=
  front.foldl (fun b line => if togglesFence line then !b else b) inFence

theorem staysInFence_eq (inFence : Bool) (front : List Text) :
    staysInFence inFence front = (inFence ^^ decide (front.countP togglesFence % 2 = 1)) := by
  induction front generalizing inFence with
  | nil => simp [staysInFence]
  | cons line front ih =>
    have hcons : staysInFence inFence (line :: front) =
        staysInFence (if togglesFence line then !inFence else inFence) front := rfl
    rw [hcons, ih, List.countP_cons]
    cases hline : togglesFence line with
    | false => simp
    | true =>
      rw [if_pos rfl, if_pos rfl]
      have hparity : decide ((front.countP togglesFence + 1) % 2 = 1) =
          !decide (front.countP togglesFence % 2 = 1) := by
        rw [← decide_not, decide_eq_decide]
        omega
      rw [hparity]
      cases inFence <;> cases decide (front.countP togglesFence % 2 = 1) <;> rfl

/-- The mask as a reader. -/
def firstVisibleIdx : Option Fence → List Text → Option Nat
  | _, [] => none
  | st, line :: lines =>
    if st.isNone && isAtxHeading line then some 0
    else (firstVisibleIdx (fenceAfter st line) lines).map (· + 1)

theorem findIdx_masked (st : Option Fence) (lines : List Text) :
    (lines.zip (maskLines st lines)).findIdx? (fun p => isAtxHeading p.1 && p.2 == p.1) =
      firstVisibleIdx st lines := by
  induction lines generalizing st with
  | nil => rfl
  | cons line lines ih =>
    have htest : (isAtxHeading line && (if isVisible st line then line else blanked line) == line) =
        (st.isNone && isAtxHeading line) := by
      cases hheading : isAtxHeading line with
      | false => rw [Bool.false_and, Bool.and_false]
      | true =>
        obtain ⟨hopen, -, hblank⟩ := not_fence_of_isAtxHeading hheading
        unfold isVisible
        rw [hopen]
        cases st with
        | none => simp
        | some fence => simpa using hblank
    rw [maskLines_cons, List.zip_cons_cons, List.findIdx?_cons, firstVisibleIdx]
    dsimp only
    rw [htest, ih]

theorem firstUnmaskedIdx_eq (text : Text) :
    firstUnmaskedIdx text = firstVisibleIdx none (text.splitOn '\n') := by
  unfold firstUnmaskedIdx
  rw [splitOn_maskFencedBlocks, findIdx_masked]

/-! ## Where they agree -/

/-- A heading that neither reader passes by is outside for both or inside for both. -/
def Agree (inFence : Bool) (st : Option Fence) (lines : List Text) : Prop :=
  ∀ front line back, lines = front ++ line :: back → isAtxHeading line = true →
    (∀ before line' behind, front = before ++ line' :: behind → isAtxHeading line' = true →
      staysInFence inFence before = true ∧ fencesAfter st before ≠ none) →
    (staysInFence inFence front = false ↔ fencesAfter st front = none)

/-- After a line that both readers pass by. -/
theorem agree_cons_iff (hpass : isAtxHeading line = true → inFence = true ∧ st ≠ none) :
    Agree inFence st (line :: lines) ↔
      Agree (if togglesFence line then !inFence else inFence) (fenceAfter st line) lines := by
  constructor
  · intro h front line' back hsplit hheading hfront
    refine h (line :: front) line' back (by rw [hsplit]; rfl) hheading ?_
    intro before line₁ behind hbefore hline₁
    cases before with
    | nil =>
      obtain ⟨rfl, -⟩ := List.cons_eq_cons.mp hbefore
      exact hpass hline₁
    | cons l before =>
      rw [List.cons_append] at hbefore
      obtain ⟨rfl, hrest⟩ := List.cons_eq_cons.mp hbefore
      exact hfront before line₁ behind hrest hline₁
  · intro h front line' back hsplit hheading hfront
    cases front with
    | nil =>
      obtain ⟨rfl, -⟩ := List.cons_eq_cons.mp hsplit
      obtain ⟨hin, hopen⟩ := hpass hheading
      exact iff_of_false (by simp [staysInFence, hin]) hopen
    | cons l front =>
      rw [List.cons_append] at hsplit
      obtain ⟨rfl, hrest⟩ := List.cons_eq_cons.mp hsplit
      refine h front line' back hrest hheading ?_
      intro before line₁ behind hbefore hline₁
      exact hfront (line :: before) line₁ behind (by rw [hbefore]; rfl) hline₁

theorem map_succ_ne_zero (i : Option Nat) : i.map (· + 1) ≠ some 0 := by
  intro hi
  obtain ⟨n, -, hn⟩ := Option.map_eq_some_iff.mp hi
  exact Nat.succ_ne_zero n hn

theorem firstIdx_eq_iff (inFence : Bool) (st : Option Fence) (lines : List Text) :
    firstHeadingIdx inFence lines = firstVisibleIdx st lines ↔ Agree inFence st lines := by
  induction lines generalizing inFence st with
  | nil =>
    refine iff_of_true rfl ?_
    intro front line back hsplit
    cases front <;> cases hsplit
  | cons line lines ih =>
    rw [firstHeadingIdx, firstVisibleIdx]
    by_cases hseen : isAtxHeading line = true ∧ (inFence = false ∨ st = none)
    · -- the first heading that is outside for one of the readers
      obtain ⟨hheading, hout⟩ := hseen
      obtain ⟨-, htoggles, -⟩ := not_fence_of_isAtxHeading hheading
      have hagree : Agree inFence st (line :: lines) ↔ (inFence = false ↔ st = none) := by
        constructor
        · intro h
          exact h [] line lines rfl hheading fun before line' behind hbefore => by cases before <;> cases hbefore
        · intro h front line' back hsplit hheading' hfront
          cases front with
          | nil => exact h
          | cons l front =>
            rw [List.cons_append] at hsplit
            obtain ⟨rfl, -⟩ := List.cons_eq_cons.mp hsplit
            obtain ⟨hin, hopen⟩ := hfront [] line front rfl hheading
            rcases hout with hout | hout
            · exact absurd (hin.symm.trans hout) (by simp)
            · exact absurd hout hopen
      rw [hagree, htoggles, hheading, Bool.and_true, Bool.and_true, if_neg Bool.false_ne_true]
      cases inFence with
      | false =>
        cases st with
        | none => exact iff_of_true rfl (iff_of_true rfl rfl)
        | some fence =>
          refine iff_of_false (fun h => map_succ_ne_zero _ h.symm) ?_
          intro h
          exact absurd (h.mp rfl) (Option.some_ne_none fence)
      | true =>
        cases st with
        | none =>
          refine iff_of_false (fun h => map_succ_ne_zero _ h) ?_
          intro h
          exact absurd (h.mpr rfl) (by simp)
        | some fence => simp at hout
    · have hpass : isAtxHeading line = true → inFence = true ∧ st ≠ none := by
        intro hheading
        have hnot : ¬ (inFence = false ∨ st = none) := fun h => hseen ⟨hheading, h⟩
        rw [not_or, Bool.not_eq_false] at hnot
        exact hnot
      rw [agree_cons_iff hpass, ← ih]
      have hfirst : (!inFence && isAtxHeading line) = false := by
        cases hheading : isAtxHeading line with
        | false => rw [Bool.and_false]
        | true => rw [(hpass hheading).1]; rfl
      have hsecond : (st.isNone && isAtxHeading line) = false := by
        cases hheading : isAtxHeading line with
        | false => rw [Bool.and_false]
        | true =>
          obtain ⟨fence, hst⟩ := Option.ne_none_iff_exists'.mp (hpass hheading).2
          rw [hst]
          rfl
      rw [hfirst, hsecond, if_neg Bool.false_ne_true, if_neg Bool.false_ne_true]
      have hmap : ∀ i j : Option Nat, i.map (· + 1) = j.map (· + 1) ↔ i = j := fun i j =>
        (Option.map_injective Nat.succ_injective).eq_iff
      cases htoggles : togglesFence line with
      | true => rw [if_pos rfl, if_pos rfl, hmap]
      | false => rw [if_neg Bool.false_ne_true, if_neg Bool.false_ne_true, hmap]

/-! ## The texts -/

theorem lt_length_of_firstHeadingIdx {i : Nat} (h : firstHeadingIdx inFence lines = some i) :
    i < lines.length := by
  induction lines generalizing inFence i with
  | nil => cases h
  | cons line lines ih =>
    rw [firstHeadingIdx] at h
    rw [List.length_cons]
    split_ifs at h
    · obtain ⟨j, hj, rfl⟩ := Option.map_eq_some_iff.mp h
      have hlt := ih hj
      omega
    · cases h
      omega
    · obtain ⟨j, hj, rfl⟩ := Option.map_eq_some_iff.mp h
      have hlt := ih hj
      omega

theorem lt_length_of_firstVisibleIdx {i : Nat} (h : firstVisibleIdx st lines = some i) :
    i < lines.length := by
  induction lines generalizing st i with
  | nil => cases h
  | cons line lines ih =>
    rw [firstVisibleIdx] at h
    rw [List.length_cons]
    split_ifs at h
    · cases h
      omega
    · obtain ⟨j, hj, rfl⟩ := Option.map_eq_some_iff.mp h
      have hlt := ih hj
      omega

/-- The length of what is left by a cut. -/
theorem length_cutAt (text : Text) (i : Option Nat) :
    (cutAt text i).length = (unlines ((text.splitOn '\n').drop (i.getD 0))).length := by
  cases i with
  | none => rw [Option.getD_none, List.drop_zero, Text.unlines_splitOn]; rfl
  | some i =>
    cases i with
    | zero => rw [Option.getD_some, List.drop_zero, Text.unlines_splitOn]; rfl
    | succ i => rfl

theorem getD_eq_of_cutAt {i j : Option Nat} (hi : ∀ n, i = some n → n < (text.splitOn '\n').length)
    (hj : ∀ n, j = some n → n < (text.splitOn '\n').length) (h : cutAt text i = cutAt text j) :
    i.getD 0 = j.getD 0 := by
  have hlength := congrArg List.length h
  rw [length_cutAt, length_cutAt] at hlength
  have hpos : 0 < (text.splitOn '\n').length := List.length_pos_iff.mpr (List.splitOn_ne_nil '\n' text)
  have hbound : ∀ k : Option Nat, (∀ n, k = some n → n < (text.splitOn '\n').length) →
      k.getD 0 < (text.splitOn '\n').length := by
    intro k hk
    cases k with
    | none => exact hpos
    | some n => exact hk n rfl
  rcases lt_trichotomy (i.getD 0) (j.getD 0) with hlt | heq | hgt
  · have hshort := Text.length_unlines_drop hlt (hbound j hj)
    omega
  · exact heq
  · have hshort := Text.length_unlines_drop hgt (hbound i hi)
    omega

/-- Both readers begin outside, so that a heading on the first line is the first one for both. -/
theorem first_zero_iff (lines : List Text) :
    firstHeadingIdx false lines = some 0 ↔ firstVisibleIdx none lines = some 0 := by
  cases lines with
  | nil => exact Iff.rfl
  | cons line lines =>
    rw [firstHeadingIdx, firstVisibleIdx]
    cases hheading : isAtxHeading line with
    | true =>
      obtain ⟨-, htoggles, -⟩ := not_fence_of_isAtxHeading hheading
      rw [htoggles]
      exact iff_of_true rfl rfl
    | false =>
      rw [Bool.and_false, Bool.and_false, if_neg Bool.false_ne_true]
      refine iff_of_false ?_ (map_succ_ne_zero _)
      split_ifs
      · exact map_succ_ne_zero _
      · exact map_succ_ne_zero _

/-- The first heading that stands behind an even number of lines with three backticks in front, or outside of
every block, is both. -/
def SameHeading (text : Text) : Prop := Agree false none (text.splitOn '\n')

theorem stripPreamble_eq_iff (text : Text) : stripPreamble text = cutOutside text ↔ SameHeading text := by
  unfold stripPreamble cutOutside SameHeading
  rw [firstUnmaskedIdx_eq, ← firstIdx_eq_iff]
  constructor
  · intro h
    have hgetD := getD_eq_of_cutAt (fun n hn => lt_length_of_firstHeadingIdx hn)
      (fun n hn => lt_length_of_firstVisibleIdx hn) h
    have hzero := first_zero_iff (text.splitOn '\n')
    cases hi : firstHeadingIdx false (text.splitOn '\n') with
    | none =>
      cases hj : firstVisibleIdx none (text.splitOn '\n') with
      | none => rfl
      | some j =>
        rw [hi, hj] at hgetD hzero
        obtain rfl : 0 = j := hgetD
        exact absurd (hzero.mpr rfl) (by simp)
    | some i =>
      cases hj : firstVisibleIdx none (text.splitOn '\n') with
      | none =>
        rw [hi, hj] at hgetD hzero
        obtain rfl : i = 0 := hgetD
        exact absurd (hzero.mp rfl) (by simp)
      | some j =>
        rw [hi, hj] at hgetD
        exact congrArg some hgetD
  · intro h
    rw [h]

/-- A heading in a block of tildes. -/
theorem cuts_inside_tildes :
    ¬ ∀ text : Text, stripPreamble text = cutOutside text := by
  intro h
  exact absurd (h "Preamble\n~~~\n# comment\n~~~\n# Title".toList) (by decide +kernel)

end Utils.Markdown

import Mathlib.Data.List.Sort

/-!
# Greedy selection

A list is gone through from the front, and an element is taken unless it clashes with one that was
taken before it. Clashing need not be transitive, so what is left out is told apart from what is taken
only by the scan itself: an element that is left out clashes with one that is taken
(`select_covers`), and no two that are taken clash (`pairwise_select`).
-/

namespace Selection

variable {α : Type*}

/-- Goes through a list, where `taken` was taken so far. -/
def select (clash : α → α → Bool) (taken : List α) : List α → List α
  | [] => taken
  | x :: rest =>
    if taken.any (clash · x) then select clash taken rest
    else select clash (taken ++ [x]) rest

variable {clash : α → α → Bool}

theorem select_cons_of_clash {taken rest : List α} {x y : α} (hy : y ∈ taken) (h : clash y x = true) :
    select clash taken (x :: rest) = select clash taken rest := by
  rw [select, if_pos (List.any_eq_true.mpr ⟨y, hy, h⟩)]

theorem select_cons_of_not_clash {taken rest : List α} {x : α} (h : ∀ y ∈ taken, clash y x = false) :
    select clash taken (x :: rest) = select clash (taken ++ [x]) rest := by
  rw [select, if_neg]
  simpa using h

/-- What the scan does with an element. -/
theorem clash_cases (clash : α → α → Bool) (taken : List α) (x : α) :
    (∃ y ∈ taken, clash y x = true) ∨ ∀ y ∈ taken, clash y x = false := by
  by_cases h : ∃ y ∈ taken, clash y x = true
  · exact .inl h
  · exact .inr fun y hy => Bool.eq_false_iff.mpr fun hc => h ⟨y, hy, hc⟩

theorem subset_select (taken rest : List α) : taken ⊆ select clash taken rest := by
  induction rest generalizing taken with
  | nil => exact List.Subset.refl taken
  | cons x rest ih =>
    rcases clash_cases clash taken x with ⟨y, hy, h⟩ | h
    · rw [select_cons_of_clash hy h]
      exact ih taken
    · rw [select_cons_of_not_clash h]
      exact List.Subset.trans (List.subset_append_left ..) (ih _)

/-- What is taken keeps its order. -/
theorem select_sublist (taken rest : List α) : (select clash taken rest).Sublist (taken ++ rest) := by
  induction rest generalizing taken with
  | nil =>
    rw [List.append_nil]
    exact List.Sublist.refl taken
  | cons x rest ih =>
    rcases clash_cases clash taken x with ⟨y, hy, h⟩ | h
    · rw [select_cons_of_clash hy h]
      exact (ih taken).trans (List.Sublist.append_left (List.sublist_cons_self x rest) taken)
    · rw [select_cons_of_not_clash h]
      have hrest := ih (taken ++ [x])
      rwa [List.append_assoc] at hrest

/-- No two elements that are taken clash. -/
theorem pairwise_select {taken : List α} (h : taken.Pairwise fun x y => clash x y = false)
    (rest : List α) : (select clash taken rest).Pairwise fun x y => clash x y = false := by
  induction rest generalizing taken with
  | nil => exact h
  | cons x rest ih =>
    rcases clash_cases clash taken x with ⟨y, hy, hc⟩ | hc
    · rw [select_cons_of_clash hy hc]
      exact ih h
    · rw [select_cons_of_not_clash hc]
      refine ih (List.pairwise_append.mpr ⟨h, List.pairwise_singleton _ x, ?_⟩)
      intro y hy z hz
      obtain rfl := List.mem_singleton.mp hz
      exact hc y hy

/-- Every element is taken, or it is left out for one that is taken and stands before it. -/
theorem select_covers {R : α → α → Prop} (clash : α → α → Bool) (taken : List α) {rest : List α}
    (h : (taken ++ rest).Pairwise R) :
    ∃ left, (select clash taken rest ++ left).Perm (taken ++ rest) ∧
      ∀ x ∈ left, ∃ y ∈ select clash taken rest, clash y x = true ∧ R y x := by
  induction rest generalizing taken with
  | nil => exact ⟨[], List.Perm.refl _, by simp⟩
  | cons x rest ih =>
    rcases clash_cases clash taken x with ⟨y, hy, hc⟩ | hc
    · have hsub : (taken ++ rest).Sublist (taken ++ x :: rest) :=
        List.Sublist.append_left (List.sublist_cons_self x rest) taken
      have hR : R y x := (List.pairwise_append.mp h).2.2 y hy x (List.mem_cons_self ..)
      obtain ⟨left, hperm, hleft⟩ := ih taken (h.sublist hsub)
      rw [select_cons_of_clash hy hc]
      refine ⟨x :: left, ?_, ?_⟩
      · exact (List.perm_middle.trans (hperm.cons x)).trans List.perm_middle.symm
      · intro z hz
        rcases List.mem_cons.mp hz with rfl | hz
        · exact ⟨y, subset_select taken rest hy, hc, hR⟩
        · exact hleft z hz
    · rw [select_cons_of_not_clash hc]
      have hcons : taken ++ x :: rest = taken ++ [x] ++ rest := by simp
      rw [hcons] at h ⊢
      exact ih _ h

/-- Where nothing clashes, everything is taken. -/
theorem select_eq_append (taken : List α) {rest : List α}
    (h : (taken ++ rest).Pairwise fun x y => clash x y = false) :
    select clash taken rest = taken ++ rest := by
  induction rest generalizing taken with
  | nil => exact (List.append_nil taken).symm
  | cons x rest ih =>
    have hx : ∀ y ∈ taken, clash y x = false := fun y hy =>
      (List.pairwise_append.mp h).2.2 y hy x (List.mem_cons_self ..)
    have hcons : taken ++ x :: rest = taken ++ [x] ++ rest := by simp
    rw [select_cons_of_not_clash hx, hcons]
    rw [hcons] at h
    exact ih _ h

/-- Taking a part out of a list leaves the other part. -/
theorem diff_perm_of_append_perm [DecidableEq α] {taken left l : List α} (h : (taken ++ left).Perm l) :
    (l.diff taken).Perm left := by
  have happend : (taken ++ left).diff taken = left := by
    clear h
    induction taken with
    | nil => exact List.diff_nil left
    | cons x taken ih => rw [List.cons_append, List.diff_cons, List.erase_cons_head, ih]
  have hdiff := h.diff_right taken
  rw [happend] at hdiff
  exact hdiff.symm

/-! ## The first elements of a sorted list -/

/-- An element is among the first `n` of a strictly sorted list exactly when fewer than `n` elements
come before it in the order. -/
theorem mem_take_iff_countP {before : α → α → Bool} (hirrefl : ∀ x, before x x = false)
    (hasymm : ∀ x y, before x y = true → before y x = false) {l : List α}
    (hl : l.Pairwise fun x y => before x y = true) {x : α} {n : Nat} :
    x ∈ l.take n ↔ x ∈ l ∧ l.countP (before · x) < n := by
  induction l generalizing n with
  | nil => simp
  | cons y l ih =>
    obtain ⟨hy, hl⟩ := List.pairwise_cons.mp hl
    cases n with
    | zero => simp
    | succ n =>
      rw [List.take_succ_cons, List.mem_cons, List.mem_cons, ih hl, List.countP_cons]
      constructor
      · rintro (rfl | ⟨hx, hcount⟩)
        · have hnone : l.countP (before · x) = 0 :=
            List.countP_eq_zero.mpr fun z hz => by simp [hasymm x z (hy z hz)]
          exact ⟨.inl rfl, by simp [hirrefl, hnone]⟩
        · exact ⟨.inr hx, by simp [hy x hx]; omega⟩
      · rintro ⟨rfl | hx, hcount⟩
        · exact .inl rfl
        · refine .inr ⟨hx, ?_⟩
          rw [if_pos (hy x hx)] at hcount
          omega

/-! ## Repetitions -/

/-- A list without the repetitions of what stands before. -/
theorem nodup_eraseDups [BEq α] [LawfulBEq α] (l : List α) : l.eraseDups.Nodup := by
  induction hlength : l.length using Nat.strong_induction_on generalizing l with
  | _ n ih =>
    cases l with
    | nil => exact List.nodup_nil
    | cons a l =>
      have hshorter : (l.filter fun b => !b == a).length < n := by
        have := List.length_filter_le (fun b => !b == a) l
        rw [List.length_cons] at hlength
        omega
      rw [List.eraseDups_cons, List.nodup_cons]
      refine ⟨?_, ih _ hshorter _ rfl⟩
      rw [List.mem_eraseDups, List.mem_filter]
      simp

end Selection

import Mathlib.Data.List.Basic

/-!
# Reading a list up to a hit

A reader goes through a list with a state of its own and stops at the first element that is a hit in the state
it has reached. `before` is what it has read until then, `onward` the rest of the list from the hit on; the list
is free of hits when there is no rest.
-/

namespace Scanning

variable {σ α : Type} {step : σ → α → σ} {hit hit' : σ → α → Bool} {s : σ} {x : α} {xs ys a b : List α}

/-- The elements in front of the first hit. -/
def before (step : σ → α → σ) (hit : σ → α → Bool) : σ → List α → List α
  | _, [] => []
  | s, x :: xs => if hit s x then [] else x :: before step hit (step s x) xs

/-- The elements from the first hit on. -/
def onward (step : σ → α → σ) (hit : σ → α → Bool) : σ → List α → List α
  | _, [] => []
  | s, x :: xs => if hit s x then x :: xs else onward step hit (step s x) xs

@[simp] theorem before_nil (s : σ) : before step hit s [] = [] := rfl

@[simp] theorem onward_nil (s : σ) : onward step hit s [] = [] := rfl

theorem onward_of_hit (h : hit s x = true) (xs : List α) : onward step hit s (x :: xs) = x :: xs := if_pos h

theorem before_of_hit (h : hit s x = true) (xs : List α) : before step hit s (x :: xs) = [] := if_pos h

theorem onward_of_pass (h : hit s x = false) (xs : List α) :
    onward step hit s (x :: xs) = onward step hit (step s x) xs := by
  rw [onward, h, if_neg Bool.false_ne_true]

theorem before_of_pass (h : hit s x = false) (xs : List α) :
    before step hit s (x :: xs) = x :: before step hit (step s x) xs := by
  rw [before, h, if_neg Bool.false_ne_true]

theorem before_append_onward (s : σ) (xs : List α) : before step hit s xs ++ onward step hit s xs = xs := by
  induction xs generalizing s with
  | nil => rfl
  | cons x xs ih =>
    cases h : hit s x with
    | true => rw [before_of_hit h, onward_of_hit h, List.nil_append]
    | false => rw [before_of_pass h, onward_of_pass h, List.cons_append, ih]

theorem onward_append_eq_nil_iff :
    onward step hit s (a ++ b) = [] ↔ onward step hit s a = [] ∧ onward step hit (a.foldl step s) b = [] := by
  induction a generalizing s with
  | nil => simp
  | cons x a ih =>
    rw [List.cons_append, List.foldl_cons]
    cases h : hit s x with
    | true =>
      rw [onward_of_hit h, onward_of_hit h]
      exact iff_of_false (List.cons_ne_nil _ _) fun hnil => List.cons_ne_nil _ _ hnil.1
    | false => rw [onward_of_pass h, onward_of_pass h, ih]

theorem onward_append_of_free (ha : onward step hit s a = []) (b : List α) :
    onward step hit s (a ++ b) = onward step hit (a.foldl step s) b := by
  induction a generalizing s with
  | nil => rfl
  | cons x a ih =>
    cases h : hit s x with
    | true =>
      rw [onward_of_hit h] at ha
      cases ha
    | false =>
      rw [onward_of_pass h] at ha
      rw [List.cons_append, onward_of_pass h, ih ha, List.foldl_cons]

theorem before_append_of_free (ha : onward step hit s a = []) (b : List α) :
    before step hit s (a ++ b) = a ++ before step hit (a.foldl step s) b := by
  induction a generalizing s with
  | nil => rfl
  | cons x a ih =>
    cases h : hit s x with
    | true =>
      rw [onward_of_hit h] at ha
      cases ha
    | false =>
      rw [onward_of_pass h] at ha
      rw [List.cons_append, before_of_pass h, ih ha, List.foldl_cons, List.cons_append]

theorem onward_append_of_hit (ha : onward step hit s a ≠ []) (b : List α) :
    onward step hit s (a ++ b) = onward step hit s a ++ b := by
  induction a generalizing s with
  | nil => exact absurd rfl ha
  | cons x a ih =>
    rw [List.cons_append]
    cases h : hit s x with
    | true => rw [onward_of_hit h, onward_of_hit h, List.cons_append]
    | false =>
      rw [onward_of_pass h] at ha
      rw [onward_of_pass h, onward_of_pass h, ih ha]

theorem before_append_of_hit (ha : onward step hit s a ≠ []) (b : List α) :
    before step hit s (a ++ b) = before step hit s a := by
  induction a generalizing s with
  | nil => exact absurd rfl ha
  | cons x a ih =>
    rw [List.cons_append]
    cases h : hit s x with
    | true => rw [before_of_hit h, before_of_hit h]
    | false =>
      rw [onward_of_pass h] at ha
      rw [before_of_pass h, before_of_pass h, ih ha]

/-- There is no hit in front of the first one. -/
theorem onward_before (s : σ) (xs : List α) : onward step hit s (before step hit s xs) = [] := by
  induction xs generalizing s with
  | nil => rfl
  | cons x xs ih =>
    cases h : hit s x with
    | true => rw [before_of_hit h, onward_nil]
    | false => rw [before_of_pass h, onward_of_pass h, ih]

theorem before_of_free (h : onward step hit s xs = []) : before step hit s xs = xs := by
  have hsplit : before step hit s xs ++ onward step hit s xs = xs := before_append_onward s xs
  rwa [h, List.append_nil] at hsplit

theorem hit_of_onward (h : onward step hit s xs = x :: ys) :
    hit ((before step hit s xs).foldl step s) x = true := by
  induction xs generalizing s with
  | nil => cases h
  | cons y xs ih =>
    cases hy : hit s y with
    | true =>
      rw [onward_of_hit hy] at h
      cases h
      rw [before_of_hit hy]
      exact hy
    | false =>
      rw [onward_of_pass hy] at h
      rw [before_of_pass hy, List.foldl_cons]
      exact ih h

/-- A list that is free of hits is free of those of a reader that stops less often. -/
theorem onward_mono (hle : ∀ s x, hit' s x = true → hit s x = true) (h : onward step hit s xs = []) :
    onward step hit' s xs = [] := by
  induction xs generalizing s with
  | nil => rfl
  | cons x xs ih =>
    cases hx : hit s x with
    | true =>
      rw [onward_of_hit hx] at h
      cases h
    | false =>
      have hx' : hit' s x = false := by
        cases hx' : hit' s x with
        | false => rfl
        | true => rw [hle s x hx'] at hx; cases hx
      rw [onward_of_pass hx] at h
      rw [onward_of_pass hx', ih h]

/-! ## All hits -/

/-- The hits, each with the elements behind it up to the next one. -/
def cuts (step : σ → α → σ) (hit : σ → α → Bool) : σ → List α → List (α × List α)
  | _, [] => []
  | s, x :: xs =>
    if hit s x then (x, before step hit (step s x) xs) :: cuts step hit (step s x) xs
    else cuts step hit (step s x) xs

theorem cuts_of_hit (h : hit s x = true) (xs : List α) :
    cuts step hit s (x :: xs) = (x, before step hit (step s x) xs) :: cuts step hit (step s x) xs := if_pos h

theorem cuts_of_pass (h : hit s x = false) (xs : List α) :
    cuts step hit s (x :: xs) = cuts step hit (step s x) xs := by
  rw [cuts, h, if_neg Bool.false_ne_true]

/-- Where a hit is, and what is read behind it. -/
theorem exists_of_mem_cuts {e : α × List α} (h : e ∈ cuts step hit s xs) :
    ∃ a b, xs = a ++ e.1 :: b ∧ hit (a.foldl step s) e.1 = true ∧
      e.2 = before step hit (step (a.foldl step s) e.1) b := by
  induction xs generalizing s with
  | nil => cases h
  | cons x xs ih =>
    cases hx : hit s x with
    | true =>
      rw [cuts_of_hit hx] at h
      rcases List.mem_cons.mp h with rfl | h
      · exact ⟨[], xs, rfl, hx, rfl⟩
      · obtain ⟨a, b, rfl, hrest⟩ := ih h
        exact ⟨x :: a, b, rfl, hrest⟩
    | false =>
      rw [cuts_of_pass hx] at h
      obtain ⟨a, b, rfl, hrest⟩ := ih h
      exact ⟨x :: a, b, rfl, hrest⟩

end Scanning

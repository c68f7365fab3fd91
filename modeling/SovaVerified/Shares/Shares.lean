import Mathlib.Algebra.BigOperators.Group.List.Basic
import Mathlib.Algebra.Order.BigOperators.Group.List
import Mathlib.Algebra.Order.Group.Defs
import Mathlib.Tactic.Linarith

/-!
# Shares of an amount

An amount is split by taking shares out of it one after the other; what is left is never taken below
zero. As long as the shares do not exceed the amount, the shares and the rest add up to it.
-/

namespace Shares

variable {α M : Type*}

section Sums

variable [AddCommMonoid M] [LinearOrder M] [IsOrderedCancelAddMonoid M]

/-- A sum of amounts is positive exactly when one of them is. -/
theorem sum_pos_iff_exists {f : α → M} {l : List α} (hf : ∀ x ∈ l, 0 ≤ f x) :
    0 < (l.map f).sum ↔ ∃ x ∈ l, 0 < f x := by
  induction l with
  | nil => simp
  | cons a l ih =>
    have ha : 0 ≤ f a := hf a (List.mem_cons_self ..)
    have hl : ∀ x ∈ l, 0 ≤ f x := fun x hx => hf x (List.mem_cons_of_mem _ hx)
    have hsum : 0 ≤ (l.map f).sum := List.sum_nonneg (by simpa using hl)
    rw [List.map_cons, List.sum_cons, List.exists_mem_cons_iff, ← ih hl]
    refine ⟨fun h => ?_, fun h => ?_⟩
    · by_cases hpos : 0 < f a
      · exact .inl hpos
      · have hzero : f a = 0 := le_antisymm (not_lt.mp hpos) ha
        exact .inr (by simpa [hzero] using h)
    · rcases h with h | h
      · exact add_pos_of_pos_of_nonneg h hsum
      · exact add_pos_of_nonneg_of_pos ha h

/-- Where every amount is at most another one and all of them together are not less, each one is equal to
the other one. -/
theorem eq_of_sum_le {f g : α → M} {l : List α} (hle : ∀ x ∈ l, f x ≤ g x)
    (hsum : (l.map g).sum ≤ (l.map f).sum) : ∀ x ∈ l, f x = g x := by
  induction l with
  | nil => simp
  | cons a l ih =>
    obtain ⟨ha, hl⟩ := List.forall_mem_cons.mp hle
    have hrest : (l.map f).sum ≤ (l.map g).sum := List.sum_le_sum hl
    rw [List.map_cons, List.map_cons, List.sum_cons, List.sum_cons] at hsum
    have hfirst : g a ≤ f a :=
      le_of_add_le_add_right ((add_le_add_right hrest (g a)).trans hsum)
    have hback : (l.map g).sum ≤ (l.map f).sum :=
      le_of_add_le_add_left ((add_le_add_left ha _).trans hsum)
    exact List.forall_mem_cons.mpr ⟨le_antisymm ha hfirst, ih hl hback⟩

end Sums

section Leftover

variable [AddCommGroup M] [LinearOrder M] [IsOrderedAddMonoid M]

/-- What is left of an amount after the shares are taken out of it, one after the other. -/
def leftover (amount : M) (shares : List M) : M :=
  shares.foldl (fun rest share => max (rest - share) 0) amount

theorem leftover_eq_sub {amount : M} {shares : List M} (hshares : ∀ x ∈ shares, 0 ≤ x)
    (hsum : shares.sum ≤ amount) : leftover amount shares = amount - shares.sum := by
  induction shares generalizing amount with
  | nil => simp [leftover]
  | cons x shares ih =>
    have hrest : ∀ y ∈ shares, 0 ≤ y := fun y hy => hshares y (List.mem_cons_of_mem _ hy)
    rw [List.sum_cons] at hsum
    have hle : shares.sum ≤ amount - x := by
      rw [le_sub_iff_add_le, add_comm]
      exact hsum
    have hnonneg : 0 ≤ amount - x := le_trans (List.sum_nonneg hrest) hle
    have hstep : leftover amount (x :: shares) = leftover (amount - x) shares := by
      show leftover (max (amount - x) 0) shares = _
      rw [max_eq_left hnonneg]
    rw [hstep, ih hrest hle, List.sum_cons, sub_sub]

end Leftover

end Shares

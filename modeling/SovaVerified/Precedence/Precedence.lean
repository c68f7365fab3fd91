import Mathlib.Data.List.Induction
import Mathlib.Data.List.Nodup
import Mathlib.Logic.Relation
import Mathlib.Tactic.Common

/-!
# Orders that respect a precedence

`E u v` says that `u` comes before `v`. A list is ordered when it is built by adding elements whose
predecessors are there already. Such a list may be cut anywhere: every front of it is ordered
(`Ordered.split`), and it holds all that precedes its elements (`Ordered.mem_of_precedes`).

A run goes along an order and decides about every element, from the decisions made so far. When a
decision asks only about elements that come before or after the element in every order, the order makes
no difference (`agree_pick_of_ordered`).
-/

namespace Precedence

open Relation

variable {α : Type*} {E : α → α → Prop} {l l₁ l₂ : List α} {u v : α}

inductive Ordered (E : α → α → Prop) : List α → Prop
  | nil : Ordered E []
  | snoc {l : List α} {v : α} (hl : Ordered E l) (hnew : v ∉ l) (hpred : ∀ u, E u v → u ∈ l) :
    Ordered E (l ++ [v])

theorem Ordered.nodup (h : Ordered E l) : l.Nodup := by
  induction h with
  | nil => exact List.nodup_nil
  | snoc _ hnew _ ih =>
    rw [List.nodup_append]
    refine ⟨ih, List.nodup_singleton _, ?_⟩
    intro a ha b hb hab
    rw [List.mem_singleton] at hb
    exact hnew (hb ▸ hab ▸ ha)

/-- The last element is new, and its predecessors come before it. -/
theorem Ordered.of_snoc (h : Ordered E (l ++ [v])) :
    Ordered E l ∧ v ∉ l ∧ ∀ u, E u v → u ∈ l := by
  generalize hfull : l ++ [v] = full at h
  cases h with
  | nil => exact absurd hfull (by simp)
  | snoc hl hnew hpred =>
    obtain ⟨rfl, hv⟩ := List.append_inj' hfull rfl
    obtain rfl : v = _ := List.singleton_injective hv
    exact ⟨hl, hnew, hpred⟩

theorem Ordered.front (h : Ordered E (l₁ ++ l₂)) : Ordered E l₁ := by
  induction l₂ using List.reverseRecOn with
  | nil => rwa [List.append_nil] at h
  | append_singleton l₂ v ih =>
    rw [← List.append_assoc] at h
    exact ih h.of_snoc.1

theorem Ordered.split (h : Ordered E (l₁ ++ v :: l₂)) :
    Ordered E l₁ ∧ v ∉ l₁ ∧ ∀ u, E u v → u ∈ l₁ := by
  have hcut : Ordered E (l₁ ++ [v] ++ l₂) := by
    rwa [List.append_assoc, List.singleton_append]
  exact hcut.front.of_snoc

/-- All that precedes an element of the list is in the list. -/
theorem Ordered.mem_of_precedes (h : Ordered E l) (hv : v ∈ l) (huv : TransGen E u v) : u ∈ l := by
  have hstep : ∀ {a b}, E a b → b ∈ l → a ∈ l := by
    intro a b hab hb
    obtain ⟨front, back, rfl⟩ := List.append_of_mem hb
    exact List.mem_append_left _ (h.split.2.2 a hab)
  induction huv using TransGen.head_induction_on with
  | single hab => exact hstep hab hv
  | head hab _ ih => exact hstep hab ih

theorem Ordered.mem_front_of_precedes (h : Ordered E (l₁ ++ v :: l₂)) (huv : TransGen E u v) :
    u ∈ l₁ := by
  obtain ⟨hl, -, hpred⟩ := h.split
  rcases TransGen.tail'_iff.mp huv with ⟨w, huw, hwv⟩
  rcases reflTransGen_iff_eq_or_transGen.mp huw with rfl | huw
  · exact hpred _ hwv
  · exact hl.mem_of_precedes (hpred w hwv) huw

theorem Ordered.idxOf_lt [BEq α] [LawfulBEq α] (h : Ordered E l) (huv : E u v) (hv : v ∈ l) :
    l.idxOf u < l.idxOf v := by
  obtain ⟨front, back, rfl⟩ := List.append_of_mem hv
  obtain ⟨-, hnew, hpred⟩ := h.split
  have hu : front.idxOf u < front.length := List.idxOf_lt_length_iff.mpr (hpred u huv)
  rw [List.idxOf_append_of_mem (hpred u huv), List.idxOf_append_of_notMem hnew]
  omega

/-- What an element precedes does not come before it. -/
theorem Ordered.not_mem_front (h : Ordered E (l₁ ++ v :: l₂)) (hvu : ReflTransGen E v u) :
    u ∉ l₁ := by
  obtain ⟨hl, hv, -⟩ := h.split
  rcases reflTransGen_iff_eq_or_transGen.mp hvu with rfl | hvu
  · exact hv
  · exact fun hu => hv (hl.mem_of_precedes hu hvu)

/-- What all others precede comes last. -/
theorem Ordered.getLast?_eq (h : Ordered E l) (hv : v ∈ l) (hall : ∀ u ∈ l, ReflTransGen E u v) :
    l.getLast? = some v := by
  obtain ⟨front, back, rfl⟩ := List.append_of_mem hv
  have hback : back = [] := by
    refine List.eq_nil_iff_forall_not_mem.mpr fun w hw => ?_
    have hnodup := h.nodup
    rw [List.nodup_append, List.nodup_cons] at hnodup
    have hw' : w ∈ front ++ v :: back := List.mem_append_right _ (List.mem_cons_of_mem _ hw)
    rcases reflTransGen_iff_eq_or_transGen.mp (hall w hw') with rfl | hwv
    · exact hnodup.2.1.1 hw
    · have hfront := h.mem_front_of_precedes hwv
      exact hnodup.2.2 w hfront w (List.mem_cons_of_mem _ hw) rfl
  rw [hback, List.getLast?_append_of_ne_nil _ (List.cons_ne_nil v [])]
  rfl

/-- Elements that are nothing but predecessors of each other can all be put in order or none. -/
theorem Ordered.subset_of_closed (h : Ordered E l) {s : α → Prop}
    (hs : ∀ v ∈ l, (∀ u, E u v → s u) → s v) : ∀ v ∈ l, s v := by
  induction h with
  | nil => exact fun v hv => absurd hv List.not_mem_nil
  | @snoc l v _ _ hpred ih =>
    have hfront := ih fun w hw => hs w (List.mem_append_left _ hw)
    intro w hw
    rcases List.mem_append.mp hw with hw | hw
    · exact hfront w hw
    · obtain rfl := List.mem_singleton.mp hw
      exact hs w (List.mem_append_right _ hw) fun u hu => hfront u (hpred u hu)

/-! ## Decisions along an order -/

/-- The elements that were taken and the ones that were passed over. -/
def pick (take : α → List α → List α → Bool) (l : List α) : List α × List α :=
  l.foldl (fun s v => if take v s.1 s.2 then (s.1 ++ [v], s.2) else (s.1, s.2 ++ [v])) ([], [])

variable {take : α → List α → List α → Bool}

theorem pick_snoc (take : α → List α → List α → Bool) (l : List α) (v : α) :
    pick take (l ++ [v]) =
      if take v (pick take l).1 (pick take l).2 then
        ((pick take l).1 ++ [v], (pick take l).2)
      else ((pick take l).1, (pick take l).2 ++ [v]) := by
  unfold pick
  rw [List.foldl_append, List.foldl_cons, List.foldl_nil]

/-- Every element is either taken or passed over. -/
theorem perm_pick (take : α → List α → List α → Bool) (l : List α) :
    ((pick take l).1 ++ (pick take l).2).Perm l := by
  induction l using List.reverseRecOn with
  | nil => exact List.Perm.refl _
  | append_singleton l v ih =>
    rw [pick_snoc]
    split_ifs with h
    · have hmove : ((pick take l).1 ++ [v] ++ (pick take l).2).Perm
          ((pick take l).1 ++ (pick take l).2 ++ [v]) := by
        rw [List.append_assoc, List.append_assoc]
        exact List.Perm.append_left _ List.perm_append_comm
      exact hmove.trans (ih.append_right [v])
    · rw [← List.append_assoc]
      exact ih.append_right [v]

theorem mem_of_mem_pick (h : v ∈ (pick take l).1 ∨ v ∈ (pick take l).2) : v ∈ l :=
  (perm_pick take l).mem_iff.mp (List.mem_append.mpr h)

/-- A later decision leaves the earlier ones alone. -/
theorem mem_pick_append_iff (hv : v ∉ l₂) :
    (v ∈ (pick take (l₁ ++ l₂)).1 ↔ v ∈ (pick take l₁).1) ∧
      (v ∈ (pick take (l₁ ++ l₂)).2 ↔ v ∈ (pick take l₁).2) := by
  induction l₂ using List.reverseRecOn with
  | nil =>
    rw [List.append_nil]
    exact ⟨Iff.rfl, Iff.rfl⟩
  | append_singleton l₂ w ih =>
    rw [List.mem_append, not_or, List.mem_singleton] at hv
    obtain ⟨htaken, hpassed⟩ := ih hv.1
    rw [← List.append_assoc, pick_snoc]
    split_ifs with h
    · rw [List.mem_append, List.mem_singleton, or_iff_left hv.2]
      exact ⟨htaken, hpassed⟩
    · rw [List.mem_append, List.mem_singleton, or_iff_left hv.2]
      exact ⟨htaken, hpassed⟩

/-- The decisions about an element agree in two runs. -/
def Agree (s t : List α × List α) (u : α) : Prop := (u ∈ s.1 ↔ u ∈ t.1) ∧ (u ∈ s.2 ↔ u ∈ t.2)

theorem Agree.symm {s t : List α × List α} (h : Agree s t u) : Agree t s u :=
  ⟨h.1.symm, h.2.symm⟩

theorem Agree.trans {s t r : List α × List α} (h : Agree s t u) (h' : Agree t r u) : Agree s r u :=
  ⟨h.1.trans h'.1, h.2.trans h'.2⟩

theorem agree_append (hv : v ∉ l₂) : Agree (pick take (l₁ ++ l₂)) (pick take l₁) v :=
  mem_pick_append_iff hv

theorem agree_of_not_mem (take : α → List α → List α → Bool) (h₁ : u ∉ l₁) (h₂ : u ∉ l₂) :
    Agree (pick take l₁) (pick take l₂) u :=
  ⟨iff_of_false (fun h => h₁ (mem_of_mem_pick (.inl h))) fun h => h₂ (mem_of_mem_pick (.inl h)),
    iff_of_false (fun h => h₁ (mem_of_mem_pick (.inr h))) fun h => h₂ (mem_of_mem_pick (.inr h))⟩

/-- What is known about an element when it is its turn is the final decision about each predecessor,
and nothing about the elements it precedes. -/
theorem agree_at_turn (take : α → List α → List α → Bool) {front back : List α}
    (h : Ordered E (front ++ v :: back)) (huv : TransGen E u v) :
    Agree (pick take front) (pick take (front ++ v :: back)) u := by
  have hu := h.mem_front_of_precedes huv
  have hdisjoint := (List.nodup_append.mp h.nodup).2.2
  exact (agree_append fun hback => hdisjoint u hu u hback rfl).symm

/-- Two orders of the same elements lead to the same decisions, when a decision about an element asks
only about ones that are before it or after it in every order, or in none. -/
theorem agree_pick_of_ordered (take : α → List α → List α → Bool) (asks : α → α → Prop)
    (h₁ : Ordered E l₁) (h₂ : Ordered E l₂)
    (hsame : ∀ v, v ∈ l₁ ↔ v ∈ l₂)
    (htake : ∀ v ∈ l₁, ∀ s t : List α × List α, (∀ u, asks v u → Agree s t u) →
      take v s.1 s.2 = take v t.1 t.2)
    (hasks : ∀ v ∈ l₁, ∀ u, asks v u → TransGen E u v ∨ ReflTransGen E v u ∨ u ∉ l₁) (v : α) :
    Agree (pick take l₁) (pick take l₂) v := by
  -- The invariant along the first order: what is decided so far is what the second run decides.
  have hfronts : ∀ front back, l₁ = front ++ back →
      ∀ u ∈ front, Agree (pick take front) (pick take l₂) u := by
    intro front
    induction front using List.reverseRecOn with
    | nil => exact fun _ _ u hu => absurd hu List.not_mem_nil
    | append_singleton front v ih =>
      intro back hl₁
      have hcut : l₁ = front ++ v :: back := by
        rw [hl₁, List.append_assoc, List.singleton_append]
      have hv₁ : v ∈ l₁ := by
        rw [hcut]
        exact List.mem_append_right _ (List.mem_cons_self ..)
      have ih := ih (v :: back) hcut
      have hordered := hcut ▸ h₁
      obtain ⟨front₂, back₂, hcut₂⟩ := List.append_of_mem ((hsame v).mp hv₁)
      have hordered₂ := hcut₂ ▸ h₂
      have hknown : ∀ u, asks v u → Agree (pick take front) (pick take front₂) u := by
        intro u hu
        rcases hasks v hv₁ u hu with hbefore | hafter | hnever
        · have hleft := ih u (hordered.mem_front_of_precedes hbefore)
          have hright := agree_at_turn take hordered₂ hbefore
          rw [hcut₂] at hleft
          exact hleft.trans hright.symm
        · exact agree_of_not_mem take (hordered.not_mem_front hafter) (hordered₂.not_mem_front hafter)
        · refine agree_of_not_mem take (fun hmem => hnever ?_) fun hmem => hnever ?_
          · rw [hcut]
            exact List.mem_append_left _ hmem
          · rw [hsame, hcut₂]
            exact List.mem_append_left _ hmem
      have hv : Agree (pick take (front ++ [v])) (pick take (front₂ ++ [v])) v := by
        have hnew : v ∉ front := hordered.split.2.1
        have hnew₂ : v ∉ front₂ := hordered₂.split.2.1
        have hold := agree_of_not_mem take hnew hnew₂
        rw [pick_snoc, pick_snoc, htake v hv₁ _ _ hknown]
        split_ifs with h
        · exact ⟨by simp, hold.2⟩
        · exact ⟨hold.1, by simp⟩
      intro u hu
      rcases List.mem_append.mp hu with hfront | hlast
      · have hne : u ∉ [v] := by
          rw [List.mem_singleton]
          intro heq
          exact hordered.split.2.1 (heq ▸ hfront)
        exact (agree_append hne).trans (ih u hfront)
      · obtain rfl := List.mem_singleton.mp hlast
        have hlater : u ∉ back₂ := by
          have hnodup := h₂.nodup
          rw [hcut₂, List.nodup_append, List.nodup_cons] at hnodup
          exact hnodup.2.1.1
        have hcut₂' : l₂ = front₂ ++ [u] ++ back₂ := by
          rw [hcut₂, List.append_assoc, List.singleton_append]
        rw [hcut₂']
        exact hv.trans (agree_append hlater).symm
  by_cases hv : v ∈ l₁
  · exact hfronts l₁ [] (List.append_nil l₁).symm v hv
  · exact agree_of_not_mem take hv fun h => hv ((hsame v).mpr h)

end Precedence

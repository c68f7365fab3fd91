import Mathlib.Data.List.Basic
import Mathlib.Data.Set.Card
import Mathlib.Logic.Relation
import Mathlib.Tactic.Common

/-!
# Counting what can be reached

A walk in breadth that looks at each node once, counts the nodes that pass a test, and goes on only from
these. It comes to its end on every finite graph (`pending_go`), and it has counted the nodes that can be
reached through nodes that pass (`Walking.encard_eq`).
-/

namespace Walk

open Relation

variable {α : Type*} [DecidableEq α]

/-- A walk: the nodes that were looked at, those to go on from, and how many were counted. -/
structure State (α : Type*) where
  seen : List α
  pending : List α
  count : Nat := 0

/-- A neighbor is looked at, unless it was before. -/
def look (passes : α → Bool) (s : State α) (v : α) : State α :=
  if v ∈ s.seen then s
  else if passes v then { seen := s.seen ++ [v], pending := s.pending ++ [v], count := s.count + 1 }
  else { s with seen := s.seen ++ [v] }

/-- The walk, for a number of turns. -/
def go (neighbors : α → List α) (passes : α → Bool) : Nat → State α → State α
  | 0, s => s
  | turns + 1, s =>
    match s.pending with
    | [] => s
    | u :: rest => go neighbors passes turns ((neighbors u).foldl (look passes) { s with pending := rest })

def start (u : α) : State α := { seen := [u], pending := [u] }

variable {neighbors : α → List α} {passes : α → Bool} {ids l : List α} {s : State α} {first u v : α}

/-- What a look at some nodes comes to: the new ones are seen, and of these the ones that pass are counted
and pending. -/
structure Looked (passes : α → Bool) (l : List α) (s s' : State α) (new : List α) : Prop where
  nodup : new.Nodup
  new_iff : ∀ v, v ∈ new ↔ v ∈ l ∧ v ∉ s.seen
  seen : s'.seen = s.seen ++ new
  pending : s'.pending = s.pending ++ new.filter passes
  count : s'.count = s.count + (new.filter passes).length

omit [DecidableEq α] in
theorem Looked.nil (s : State α) : Looked passes [] s s [] where
  nodup := List.nodup_nil
  new_iff v := by simp
  seen := (List.append_nil _).symm
  pending := (List.append_nil _).symm
  count := rfl

theorem look_of_mem (h : v ∈ s.seen) : look passes s v = s := if_pos h

theorem looked_look (h : v ∉ s.seen) : Looked passes [v] s (look passes s v) [v] := by
  have hnew : ∀ w, w ∈ [v] ↔ w ∈ [v] ∧ w ∉ s.seen := by
    intro w
    rw [List.mem_singleton]
    exact ⟨fun heq => ⟨heq, heq ▸ h⟩, fun hw => hw.1⟩
  unfold look
  rw [if_neg h]
  cases hpass : passes v with
  | true => exact ⟨List.nodup_singleton v, hnew, rfl, by simp [hpass], by simp [hpass]⟩
  | false => exact ⟨List.nodup_singleton v, hnew, rfl, by simp [hpass], by simp [hpass]⟩

theorem looked_foldl (passes : α → Bool) (l : List α) (s : State α) :
    ∃ new, Looked passes l s (l.foldl (look passes) s) new := by
  induction l generalizing s with
  | nil => exact ⟨[], Looked.nil s⟩
  | cons v l ih =>
    rw [List.foldl_cons]
    obtain ⟨new, h⟩ := ih (look passes s v)
    by_cases hv : v ∈ s.seen
    · rw [look_of_mem hv] at h ⊢
      refine ⟨new, h.nodup, fun w => ?_, h.seen, h.pending, h.count⟩
      rw [h.new_iff, List.mem_cons]
      constructor
      · exact fun hw => ⟨.inr hw.1, hw.2⟩
      · rintro ⟨rfl | hw, hnot⟩
        · exact absurd hv hnot
        · exact ⟨hw, hnot⟩
    · -- The node itself comes first among the new ones.
      have hone : Looked passes [v] s (look passes s v) [v] := looked_look hv
      refine ⟨v :: new, ?_, fun w => ?_, ?_, ?_, ?_⟩
      · refine List.nodup_cons.mpr ⟨fun hmem => ?_, h.nodup⟩
        refine ((h.new_iff v).mp hmem).2 ?_
        rw [hone.seen]
        exact List.mem_append_right _ (List.mem_singleton.mpr rfl)
      · rw [List.mem_cons, h.new_iff, hone.seen, List.mem_cons, List.mem_append, List.mem_singleton]
        constructor
        · rintro (rfl | ⟨hw, hnot⟩)
          · exact ⟨.inl rfl, hv⟩
          · exact ⟨.inr hw, fun hseen => hnot (.inl hseen)⟩
        · rintro ⟨hw, hnot⟩
          by_cases heq : w = v
          · exact .inl heq
          · exact .inr ⟨hw.resolve_left heq, fun h => h.elim hnot heq⟩
      · rw [h.seen, hone.seen, List.append_assoc]
        rfl
      · rw [h.pending, hone.pending, List.append_assoc, ← List.filter_append]
        rfl
      · have hfilter : (v :: new).filter passes = [v].filter passes ++ new.filter passes :=
          List.filter_append [v] new
        rw [h.count, hone.count, hfilter, List.length_append]
        omega

/-! ## The end of a walk -/

/-- The turns that a walk can still take. -/
def turns (ids : List α) (s : State α) : Nat := s.pending.length + (ids.filter (· ∉ s.seen)).length

theorem length_filter_not_mem_add_le {new : List α} (hnodup : new.Nodup) (hsub : new ⊆ l) :
    (l.filter (· ∉ new)).length + new.length ≤ l.length := by
  have hle : new.length ≤ (l.filter (· ∈ new)).length := by
    refine (List.subperm_of_subset hnodup fun v hv => ?_).length_le
    exact List.mem_filter.mpr ⟨hsub hv, decide_eq_true hv⟩
  have hsplit := List.length_eq_length_filter_add (l := l) (decide <| · ∈ new)
  have hnot : l.filter (fun v => !decide (v ∈ new)) = l.filter (· ∉ new) :=
    List.filter_congr fun v _ => by simp
  rw [hnot] at hsplit
  omega

/-- Each node is pending once at most: a turn takes one, and what it adds was not seen before. -/
theorem turns_foldl (passes : α → Bool) (hclosed : ∀ u, ∀ v ∈ neighbors u, v ∈ ids) (hpending : s.pending = u :: l) :
    turns ids ((neighbors u).foldl (look passes) { s with pending := l }) < turns ids s := by
  obtain ⟨new, h⟩ := looked_foldl passes (neighbors u) { s with pending := l }
  have hsub : new ⊆ ids.filter (· ∉ s.seen) := by
    intro v hv
    obtain ⟨hv, hnew⟩ := (h.new_iff v).mp hv
    exact List.mem_filter.mpr ⟨hclosed u v hv, decide_eq_true hnew⟩
  have hunseen : ids.filter (· ∉ s.seen ++ new) = (ids.filter (· ∉ s.seen)).filter (· ∉ new) := by
    rw [List.filter_filter]
    refine List.filter_congr fun v _ => ?_
    simp [and_comm]
  have hlength := length_filter_not_mem_add_le h.nodup hsub
  have hfilter := List.length_filter_le passes new
  unfold turns
  rw [h.seen, h.pending, hpending, hunseen, List.length_append, List.length_cons]
  dsimp only
  omega

/-- The walk comes to its end. -/
theorem pending_go (hclosed : ∀ u, ∀ v ∈ neighbors u, v ∈ ids) (n : Nat) (hn : turns ids s ≤ n) :
    (go neighbors passes n s).pending = [] := by
  induction n generalizing s with
  | zero =>
    unfold turns at hn
    have hnone : s.pending.length = 0 := by omega
    exact List.length_eq_zero_iff.mp hnone
  | succ n ih =>
    unfold go
    cases hpending : s.pending with
    | nil => exact hpending
    | cons u rest =>
      have hless := turns_foldl passes hclosed hpending
      exact ih (by omega)

theorem turns_start (first : α) : turns ids (start first) ≤ ids.length + 1 := by
  have hle := List.length_filter_le (· ∉ (start first).seen) ids
  unfold turns
  show 1 + _ ≤ _
  omega

/-! ## What is counted -/

/-- A step of the graph to a node that passes. -/
def Step (neighbors : α → List α) (passes : α → Bool) (u v : α) : Prop :=
  v ∈ neighbors u ∧ passes v = true

/-- What holds of a walk at each turn. -/
structure Walking (neighbors : α → List α) (passes : α → Bool) (first : α) (s : State α) : Prop where
  nodup : s.seen.Nodup
  begun : first ∈ s.seen
  pending : ∀ u ∈ s.pending, u = first ∨ TransGen (Step neighbors passes) first u
  counted : s.count = (s.seen.filter fun v => v ≠ first && passes v).length
  reached : ∀ v ∈ s.seen, v ≠ first → passes v = true → TransGen (Step neighbors passes) first v
  closed : ∀ u ∈ s.seen, u = first ∨ passes u = true → u ∈ s.pending ∨ ∀ v ∈ neighbors u, v ∈ s.seen

theorem walking_start (first : α) : Walking neighbors passes first (start first) := by
  have hmem : ∀ v, v ∈ (start first).seen → v = first := fun v hv => List.mem_singleton.mp hv
  refine ⟨List.nodup_singleton first, List.mem_singleton.mpr rfl, ?_, ?_, ?_, ?_⟩
  · exact fun u hu => .inl (List.mem_singleton.mp hu)
  · simp [start]
  · exact fun v hv hne => absurd (hmem v hv) hne
  · exact fun u hu _ => .inl hu

/-- A turn of the walk keeps the invariant. -/
theorem Walking.turn (h : Walking neighbors passes first s) (hpending : s.pending = u :: l) :
    Walking neighbors passes first ((neighbors u).foldl (look passes) { s with pending := l }) := by
  obtain ⟨new, hlook⟩ := looked_foldl passes (neighbors u) { s with pending := l }
  have hu := h.pending u (hpending ▸ List.mem_cons_self ..)
  have hreach : ∀ v ∈ new, passes v = true → TransGen (Step neighbors passes) first v := by
    intro v hv hpass
    have hstep : Step neighbors passes u v := ⟨((hlook.new_iff v).mp hv).1, hpass⟩
    rcases hu with rfl | hu
    · exact TransGen.single hstep
    · exact hu.tail hstep
  have hfirst : ∀ v ∈ new, v ≠ first := by
    rintro v hv rfl
    exact ((hlook.new_iff v).mp hv).2 h.begun
  refine ⟨?_, ?_, ?_, ?_, ?_, ?_⟩
  · rw [hlook.seen, List.nodup_append]
    refine ⟨h.nodup, hlook.nodup, fun v hv w hw heq => ?_⟩
    exact ((hlook.new_iff w).mp hw).2 (heq ▸ hv)
  · rw [hlook.seen]
    exact List.mem_append_left _ h.begun
  · intro v hv
    rw [hlook.pending, List.mem_append, List.mem_filter] at hv
    rcases hv with hv | ⟨hv, hpass⟩
    · exact h.pending v (hpending ▸ List.mem_cons_of_mem _ hv)
    · exact .inr (hreach v hv hpass)
  · have hnew : (new.filter fun v => v ≠ first && passes v) = new.filter passes :=
      List.filter_congr fun v hv => by simp [hfirst v hv]
    rw [hlook.count, hlook.seen, List.filter_append, List.length_append, hnew]
    exact congrArg (· + _) h.counted
  · intro v hv hne hpass
    rw [hlook.seen] at hv
    rcases List.mem_append.mp hv with hv | hv
    · exact h.reached v hv hne hpass
    · exact hreach v hv hpass
  · intro w hw hopen
    rw [hlook.seen, List.mem_append] at hw
    rw [hlook.pending, hlook.seen]
    rcases hw with hw | hw
    · rcases h.closed w hw hopen with hpend | hall
      · rcases List.mem_cons.mp (hpending ▸ hpend) with rfl | hrest
        · -- The node of this turn: all its neighbors are seen now.
          refine .inr fun v hv => ?_
          by_cases hseen : v ∈ s.seen
          · exact List.mem_append_left _ hseen
          · exact List.mem_append_right _ ((hlook.new_iff v).mpr ⟨hv, hseen⟩)
        · exact .inl (List.mem_append_left _ hrest)
      · exact .inr fun v hv => List.mem_append_left _ (hall v hv)
    · have hpass := hopen.resolve_left (hfirst w hw)
      exact .inl (List.mem_append_right _ (List.mem_filter.mpr ⟨hw, hpass⟩))

theorem Walking.go (n : Nat) (h : Walking neighbors passes first s) :
    Walking neighbors passes first (go neighbors passes n s) := by
  induction n generalizing s with
  | zero => exact h
  | succ n ih =>
    unfold Walk.go
    cases hpending : s.pending with
    | nil => exact h
    | cons u rest => exact ih (h.turn hpending)

/-- At its end a walk has counted what can be reached from its first node, without this node. -/
theorem Walking.encard_eq (h : Walking neighbors passes first s) (hend : s.pending = []) :
    (s.count : ℕ∞) = {v | v ≠ first ∧ TransGen (Step neighbors passes) first v}.encard := by
  have hclosed : ∀ u ∈ s.seen, u = first ∨ passes u = true → ∀ v ∈ neighbors u, v ∈ s.seen := by
    intro u hu hopen
    rcases h.closed u hu hopen with hpend | hall
    · rw [hend] at hpend
      cases hpend
    · exact hall
  have hseen : ∀ v, TransGen (Step neighbors passes) first v → v ∈ s.seen ∧ passes v = true := by
    intro v hv
    induction hv with
    | single hstep => exact ⟨hclosed first h.begun (.inl rfl) _ hstep.1, hstep.2⟩
    | tail _ hstep ih => exact ⟨hclosed _ ih.1 (.inr ih.2) _ hstep.1, hstep.2⟩
  have hset : {v | v ≠ first ∧ TransGen (Step neighbors passes) first v} =
      ↑(s.seen.filter fun v => v ≠ first && passes v).toFinset := by
    ext v
    simp only [Set.mem_ofPred_eq, List.coe_toFinset, List.mem_filter, Bool.and_eq_true, decide_eq_true_eq]
    constructor
    · rintro ⟨hne, hv⟩
      exact ⟨(hseen v hv).1, hne, (hseen v hv).2⟩
    · rintro ⟨hv, hne, hpass⟩
      exact ⟨hne, h.reached v hv hne hpass⟩
  rw [hset, Set.encard_coe_eq_coe_finsetCard, List.toFinset_card_of_nodup (h.nodup.filter _), h.counted]

end Walk

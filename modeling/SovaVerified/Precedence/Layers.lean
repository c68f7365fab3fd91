import Mathlib.Order.Bounds.Defs
import Mathlib.Order.WellFoundedSet
import SovaVerified.Precedence.Kahn

/-!
# Cycles

A node is grounded when no cycle leads to it. The grounded nodes of a finite graph are well founded
(`grounded_induction`), and they are the ones that Kahn's algorithm puts out (`Kahn.mem_sort_iff`); so it
puts out all of a graph exactly when the graph has no cycle.
-/

namespace Precedence

open Relation

variable {α : Type*} {E : α → α → Prop} {l ids : List α} {u v : α}

/-- No cycle leads to the node. -/
def Grounded (E : α → α → Prop) (v : α) : Prop := ∀ u, ReflTransGen E u v → ¬TransGen E u u

theorem Grounded.of_precedes (h : Grounded E v) (huv : E u v) : Grounded E u :=
  fun w hw => h w (hw.tail huv)

/-- What is in order lies on no cycle. -/
theorem Ordered.grounded (h : Ordered E l) (hv : v ∈ l) : Grounded E v := by
  intro u huv hcycle
  have hu : u ∈ l := by
    rcases reflTransGen_iff_eq_or_transGen.mp huv with rfl | huv
    · exact hv
    · exact h.mem_of_precedes hv huv
  obtain ⟨front, back, rfl⟩ := List.append_of_mem hu
  exact h.split.2.1 (h.mem_front_of_precedes hcycle)

/-- Induction along the edges of a finite graph, for the nodes that no cycle leads to. -/
theorem grounded_induction {P : α → Prop}
    (hstep : ∀ v ∈ ids, Grounded E v → (∀ u ∈ ids, E u v → P u) → P v) :
    ∀ v ∈ ids, Grounded E v → P v := by
  -- Before, and not the other way round: strict whatever the graph.
  let before : α → α → Prop := fun u v => TransGen E u v ∧ ¬TransGen E v u
  have hirrefl : Std.Irrefl before := ⟨fun u h => h.2 h.1⟩
  have htrans : IsTrans α before :=
    ⟨fun u v w huv hvw => ⟨huv.1.trans hvw.1, fun hwu => huv.2 (hvw.1.trans hwu)⟩⟩
  have hstrict : IsStrictOrder α before := { hirrefl, htrans with }
  have hfinite : {v | v ∈ ids ∧ Grounded E v}.Finite :=
    (List.finite_toSet ids).subset fun v hv => hv.1
  intro v hv hgrounded
  refine hfinite.wellFoundedOn.induction (r := before) ⟨hv, hgrounded⟩ ?_
  intro v hv ih
  refine hstep v hv.1 hv.2 fun u hu huv => ?_
  refine ih u ⟨hu, hv.2.of_precedes huv⟩ ⟨TransGen.single huv, fun hvu => ?_⟩
  exact hv.2 v ReflTransGen.refl (hvu.tail huv)

end Precedence

namespace Kahn

open Precedence Relation

variable {α : Type*} [DecidableEq α] {ids : List α} {adjacency : α → List α} {inDegree : α → Int} {v : α}

/-- What Kahn's algorithm puts out. -/
theorem mem_sort_iff (h : Counted ids adjacency inDegree) :
    v ∈ sort adjacency inDegree ids ↔ v ∈ ids ∧ Grounded (Edge ids adjacency) v := by
  obtain ⟨-, hsubset, hordered, hclosed⟩ := sort_spec h
  constructor
  · exact fun hv => ⟨hsubset v hv, hordered.grounded hv⟩
  · rintro ⟨hv, hgrounded⟩
    refine grounded_induction (P := (· ∈ sort adjacency inDegree ids)) ?_ v hv hgrounded
    intro v hv _ hpred
    exact hclosed v hv fun u hu => hpred u hu.1 hu

/-- Kahn's algorithm puts out every node exactly when there is no cycle. -/
theorem length_sort_eq_iff_acyclic (h : Counted ids adjacency inDegree) :
    (sort adjacency inDegree ids).length = ids.length ↔
      ∀ v ∈ ids, ¬TransGen (Edge ids adjacency) v v := by
  rw [length_sort_eq_iff h]
  simp only [mem_sort_iff h]
  constructor
  · exact fun hall v hv => (hall v hv).2 v ReflTransGen.refl
  · intro hacyclic v hv
    refine ⟨hv, fun u huv hcycle => ?_⟩
    obtain ⟨w, huw, -⟩ := TransGen.head'_iff.mp hcycle
    exact hacyclic u huw.1 hcycle

end Kahn

/-!
# Layers of a graph

The nodes without an edge that leads to them are the first layer; they are taken off together with their
edges, and the nodes that are left without one are the next layer, until no layer comes out. The layer of
a node is the length of the longest chain of edges that leads to it (`mem_peel_iff_isGreatest`), and the
nodes without a layer are the ones that a cycle leads to (`exists_mem_peel_iff`).
-/

namespace Layers

open Precedence Kahn Relation

variable {α : Type*}

/-! ## Chains -/

/-- A chain of `n` edges leads to the node. -/
def Chain (E : α → α → Prop) : Nat → α → Prop
  | 0, _ => True
  | n + 1, v => ∃ u, E u v ∧ Chain E n u

variable {E : α → α → Prop} {u v : α}

theorem Chain.pred {n : Nat} (h : Chain E (n + 1) v) : Chain E n v := by
  induction n generalizing v with
  | zero => trivial
  | succ n ih =>
    obtain ⟨u, huv, hu⟩ := h
    exact ⟨u, huv, ih hu⟩

theorem Chain.of_le {m n : Nat} (h : Chain E n v) (hmn : m ≤ n) : Chain E m v := by
  induction hmn with
  | refl => exact h
  | step _ ih => exact ih h.pred

/-- Chains of every length lead to what a cycle leads to. -/
theorem chain_of_cycle (hcycle : TransGen E u u) (huv : ReflTransGen E u v) (n : Nat) : Chain E n v := by
  induction n generalizing v with
  | zero => trivial
  | succ n ih =>
    obtain ⟨w, huw, hwv⟩ := TransGen.tail'_iff.mp (hcycle.trans_left huv)
    exact ⟨w, hwv, ih huw⟩

/-- The chains that lead to a node of a finite graph are bounded when no cycle leads to it. -/
theorem exists_not_chain {ids : List α} (hclosed : ∀ u v, E u v → u ∈ ids) :
    ∀ v ∈ ids, Grounded E v → ∃ n, ¬Chain E n v := by
  refine grounded_induction (P := fun v => ∃ n, ¬Chain E n v) ?_
  intro v _ _ hpred
  have hbound : ∀ l : List α, (∀ u ∈ l, u ∈ ids) → ∃ n, ∀ u ∈ l, E u v → ¬Chain E n u := by
    intro l
    induction l with
    | nil => exact fun _ => ⟨0, fun u hu => absurd hu List.not_mem_nil⟩
    | cons w l ih =>
      intro hl
      obtain ⟨n, hn⟩ := ih fun u hu => hl u (List.mem_cons_of_mem _ hu)
      by_cases hwv : E w v
      · obtain ⟨m, hm⟩ := hpred w (hl w (List.mem_cons_self ..)) hwv
        refine ⟨max m n, fun u hu huv hchain => ?_⟩
        rcases List.mem_cons.mp hu with rfl | hu
        · exact hm (hchain.of_le (le_max_left ..))
        · exact hn u hu huv (hchain.of_le (le_max_right ..))
      · refine ⟨n, fun u hu huv => ?_⟩
        rcases List.mem_cons.mp hu with rfl | hu
        · exact absurd huv hwv
        · exact hn u hu huv
  obtain ⟨n, hn⟩ := hbound ids fun u hu => hu
  refine ⟨n + 1, ?_⟩
  rintro ⟨u, huv, hu⟩
  exact hn u (hclosed u v huv) huv hu

theorem isGreatest_chain_iff {n : Nat} :
    IsGreatest {n | Chain E n v} n ↔ Chain E n v ∧ ¬Chain E (n + 1) v := by
  constructor
  · intro h
    refine ⟨h.1, fun hlonger => ?_⟩
    have hle : n + 1 ≤ n := h.2 hlonger
    omega
  · rintro ⟨h, hlonger⟩
    refine ⟨h, fun m hm => ?_⟩
    by_contra hlt
    exact hlonger (hm.of_le (not_le.mp hlt))

/-! ## The layers -/

variable [DecidableEq α]

/-- The edges of one node are taken off the counts of the nodes that remain. -/
def takeOff (remaining : List α) (degree : α → Int) (dependents : List α) : α → Int :=
  dependents.foldl (fun degree v =>
    if v ∈ remaining then Function.update degree v (degree v - 1) else degree) degree

/-- The layers, as long as there is one. -/
def peel (adjacency : α → List α) : Nat → List α → (α → Int) → List (List α)
  | 0, _, _ => []
  | fuel + 1, remaining, degree =>
    let layer := remaining.filter fun v => degree v = 0
    if layer = [] then []
    else
      let rest := remaining.filter (· ∉ layer)
      layer :: peel adjacency fuel rest
        (layer.foldl (fun degree u => takeOff rest degree (adjacency u)) degree)

/-! ## The counts -/

theorem takeOff_apply (remaining : List α) (degree : α → Int) (dependents : List α) (hv : v ∈ remaining) :
    takeOff remaining degree dependents v = degree v - dependents.count v := by
  unfold takeOff
  induction dependents generalizing degree with
  | nil => simp
  | cons w dependents ih =>
    rw [List.foldl_cons, ih]
    by_cases hw : w = v
    · rw [if_pos (hw ▸ hv), hw, Function.update_self, List.count_cons_self]
      omega
    · have hsame : (if w ∈ remaining then Function.update degree w (degree w - 1) else degree) v =
          degree v := by
        split_ifs
        · exact Function.update_of_ne (Ne.symm hw) ..
        · rfl
      rw [hsame, List.count_cons_of_ne hw]

theorem foldl_takeOff_apply (adjacency : α → List α) (remaining layer : List α) (degree : α → Int)
    (hv : v ∈ remaining) :
    layer.foldl (fun degree u => takeOff remaining degree (adjacency u)) degree v =
      degree v - (layer.map fun u => ((adjacency u).count v : Int)).sum := by
  induction layer generalizing degree with
  | nil => simp
  | cons u layer ih =>
    rw [List.foldl_cons, ih, takeOff_apply remaining degree _ hv, List.map_cons, List.sum_cons]
    omega

variable {ids remaining : List α} {adjacency : α → List α} {degree inDegree : α → Int} {n : Nat}

/-- Before a turn: the nodes that remain are the ones that a chain as long as the number of layers so far
leads to, and their counts are the numbers of edges from one another. -/
structure Peeling (ids : List α) (adjacency : α → List α) (n : Nat) (remaining : List α)
    (degree : α → Int) : Prop where
  mem : ∀ v, v ∈ remaining ↔ v ∈ ids ∧ Chain (Edge ids adjacency) n v
  degree : ∀ v ∈ remaining,
    degree v = (remaining.map fun u => ((adjacency u).count v : Int)).sum

theorem Peeling.degree_eq_zero_iff (h : Peeling ids adjacency n remaining degree) (hv : v ∈ remaining) :
    degree v = 0 ↔ ¬Chain (Edge ids adjacency) (n + 1) v := by
  rw [h.degree v hv, sum_count_eq_zero_iff]
  constructor
  · rintro hnone ⟨u, hedge, hu⟩
    exact hnone u ((h.mem u).mpr ⟨hedge.1, hu⟩) hedge.2
  · intro hchain u hu hedge
    obtain ⟨hid, hu⟩ := (h.mem u).mp hu
    exact hchain ⟨u, ⟨hid, hedge⟩, hu⟩

theorem Peeling.mem_layer_iff (h : Peeling ids adjacency n remaining degree) :
    v ∈ remaining.filter (fun v => degree v = 0) ↔ v ∈ ids ∧
      Chain (Edge ids adjacency) n v ∧ ¬Chain (Edge ids adjacency) (n + 1) v := by
  rw [List.mem_filter, decide_eq_true_eq]
  constructor
  · rintro ⟨hv, hzero⟩
    obtain ⟨hid, hchain⟩ := (h.mem v).mp hv
    exact ⟨hid, hchain, (h.degree_eq_zero_iff hv).mp hzero⟩
  · rintro ⟨hid, hchain, hlonger⟩
    have hv := (h.mem v).mpr ⟨hid, hchain⟩
    exact ⟨hv, (h.degree_eq_zero_iff hv).mpr hlonger⟩

/-- When no layer comes out, chains of every length lead to the nodes that remain. -/
theorem Peeling.endless (h : Peeling ids adjacency n remaining degree)
    (hnone : remaining.filter (fun v => degree v = 0) = []) (m : Nat) (hv : v ∈ remaining) :
    Chain (Edge ids adjacency) m v := by
  induction m generalizing v with
  | zero => trivial
  | succ m ih =>
    have hzero : degree v ≠ 0 := by
      intro hzero
      have hmem : v ∈ remaining.filter fun v => degree v = 0 := by simp [hv, hzero]
      rw [hnone] at hmem
      cases hmem
    rw [ne_eq, h.degree_eq_zero_iff hv, not_not] at hzero
    obtain ⟨u, hedge, hu⟩ := hzero
    exact ⟨u, hedge, ih ((h.mem u).mpr ⟨hedge.1, hu⟩)⟩

theorem Peeling.next (h : Peeling ids adjacency n remaining degree) {layer rest : List α}
    (hlayer : layer = remaining.filter fun v => degree v = 0)
    (hrest : rest = remaining.filter (· ∉ layer)) :
    Peeling ids adjacency (n + 1) rest
      (layer.foldl (fun degree u => takeOff rest degree (adjacency u)) degree) := by
  have hmem : ∀ v, v ∈ rest ↔ v ∈ remaining ∧ v ∉ layer := by
    intro v
    rw [hrest, List.mem_filter, decide_eq_true_eq]
  have hin : ∀ v, v ∈ layer ↔ v ∈ ids ∧
      Chain (Edge ids adjacency) n v ∧ ¬Chain (Edge ids adjacency) (n + 1) v := by
    intro v
    rw [hlayer]
    exact h.mem_layer_iff
  refine ⟨?_, ?_⟩
  · intro v
    rw [hmem, h.mem, hin]
    constructor
    · rintro ⟨⟨hid, hchain⟩, hout⟩
      refine ⟨hid, ?_⟩
      by_contra hlonger
      exact hout ⟨hid, hchain, hlonger⟩
    · rintro ⟨hid, hchain⟩
      exact ⟨⟨hid, hchain.pred⟩, fun hout => hout.2.2 hchain⟩
  · intro v hv
    have hsplit : (layer ++ rest).Perm remaining := by
      have hrest' : rest = remaining.filter fun v => !decide (degree v = 0) := by
        rw [hrest]
        refine List.filter_congr fun v hv => ?_
        rw [hlayer]
        simp [hv]
      rw [hlayer, hrest']
      exact List.filter_append_perm ..
    have hsum := (hsplit.map fun u => ((adjacency u).count v : Int)).sum_eq
    rw [List.map_append, List.sum_append] at hsum
    have hdegree := h.degree v ((hmem v).mp hv).1
    rw [foldl_takeOff_apply adjacency rest layer degree hv]
    omega

theorem Peeling.mem_peel (h : Peeling ids adjacency n remaining degree) {fuel : Nat}
    (hfuel : remaining.length ≤ fuel) (i : Nat) :
    v ∈ (peel adjacency fuel remaining degree)[i]?.getD [] ↔ v ∈ ids ∧
      Chain (Edge ids adjacency) (n + i) v ∧ ¬Chain (Edge ids adjacency) (n + i + 1) v := by
  induction fuel generalizing n remaining degree i with
  | zero =>
    have hnil : remaining = [] := List.length_eq_zero_iff.mp (by omega)
    refine iff_of_false (by simp [peel]) ?_
    rintro ⟨hid, hchain, -⟩
    have hv := (h.mem v).mpr ⟨hid, hchain.of_le (Nat.le_add_right ..)⟩
    rw [hnil] at hv
    cases hv
  | succ fuel ih =>
    unfold peel
    dsimp only
    by_cases hnone : remaining.filter (fun v => degree v = 0) = []
    · rw [if_pos hnone]
      refine iff_of_false (by simp) ?_
      rintro ⟨hid, hchain, hlonger⟩
      have hv := (h.mem v).mpr ⟨hid, hchain.of_le (Nat.le_add_right ..)⟩
      exact hlonger (h.endless hnone _ hv)
    · rw [if_neg hnone]
      cases i with
      | zero =>
        show v ∈ remaining.filter (fun v => degree v = 0) ↔ _
        exact h.mem_layer_iff
      | succ i =>
        have hshorter : (remaining.filter
            (· ∉ remaining.filter fun v => degree v = 0)).length ≤ fuel := by
          obtain ⟨w, hw⟩ := List.exists_mem_of_ne_nil _ hnone
          have hlt : (remaining.filter (· ∉ remaining.filter fun v => degree v = 0)).length <
              remaining.length :=
            List.length_filter_lt_length_iff_exists.mpr ⟨w, List.mem_of_mem_filter hw, by simp [hw]⟩
          omega
        rw [List.getElem?_cons_succ, ih (h.next rfl rfl) hshorter i]
        have hindex : n + 1 + i = n + (i + 1) := by omega
        rw [hindex]

section Whole

variable (h : Counted ids adjacency inDegree)

include h

theorem peeling_start : Peeling ids adjacency 0 ids inDegree :=
  ⟨fun _ => (and_iff_left trivial).symm, h.degree⟩

/-- The layer of a node is the length of the longest chain that leads to it. -/
theorem mem_peel_iff_isGreatest (i : Nat) :
    v ∈ (peel adjacency ids.length ids inDegree)[i]?.getD [] ↔
      v ∈ ids ∧ IsGreatest {n | Chain (Edge ids adjacency) n v} i := by
  rw [(peeling_start h).mem_peel (le_refl _), isGreatest_chain_iff, Nat.zero_add]

/-- The nodes that have a layer. -/
theorem exists_mem_peel_iff :
    (∃ i : Nat, v ∈ (peel adjacency ids.length ids inDegree)[i]?.getD []) ↔
      v ∈ ids ∧ Grounded (Edge ids adjacency) v := by
  simp only [(peeling_start h).mem_peel (le_refl _), Nat.zero_add]
  constructor
  · rintro ⟨i, hid, -, hlonger⟩
    exact ⟨hid, fun u huv hcycle => hlonger (chain_of_cycle hcycle huv _)⟩
  · rintro ⟨hid, hgrounded⟩
    have hbounded := exists_not_chain (fun _ _ hedge => hedge.1) v hid hgrounded
    classical
    -- The least length that no chain has is one more than the length of the longest.
    have hleast := Nat.find_spec hbounded
    cases hlength : Nat.find hbounded with
    | zero =>
      rw [hlength] at hleast
      exact absurd trivial hleast
    | succ i =>
      rw [hlength] at hleast
      have hshorter : i < Nat.find hbounded := by omega
      exact ⟨i, hid, not_not.mp (Nat.find_min hbounded hshorter), hleast⟩

end Whole

/-- A layer lists its nodes in the order of the graph. -/
theorem sublist_of_mem_peel {fuel : Nat} {layer : List α}
    (hlayer : layer ∈ peel adjacency fuel remaining degree) : layer.Sublist remaining := by
  induction fuel generalizing remaining degree with
  | zero => cases hlayer
  | succ fuel ih =>
    unfold peel at hlayer
    dsimp only at hlayer
    split_ifs at hlayer
    · cases hlayer
    · rcases List.mem_cons.mp hlayer with rfl | hlayer
      · exact List.filter_sublist
      · exact (ih hlayer).trans List.filter_sublist


end Layers

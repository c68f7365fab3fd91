import Mathlib.Algebra.BigOperators.Group.List.Basic
import Mathlib.Algebra.Order.BigOperators.Group.List
import Mathlib.Algebra.Order.Ring.Int
import SovaVerified.Precedence.Precedence

/-!
# Kahn's algorithm

Every node has a count of the edges that lead to it. The nodes without any are queued, and a node that
leaves the queue is put out and takes one off the count of each node that it has an edge to. A count
that reaches nought sends its node to the queue.

The invariant `Inv` says that the counts are the numbers of edges from nodes that are not put out yet, and
that exactly the nodes with count nought were queued. So the list that is put out is ordered, whatever
order the first nodes were queued in, and it lacks a node only when no order has all of them.
-/

namespace Kahn

open Precedence

variable {α : Type*} [DecidableEq α]

structure State (α : Type*) where
  inDegree : α → Int
  queue : List α
  result : List α := []

/-- One edge to a node is taken off. -/
def relax (s : State α) (neighbor : α) : State α :=
  let degree := s.inDegree neighbor - 1
  { s with
    inDegree := Function.update s.inDegree neighbor degree
    queue := if degree = 0 then s.queue ++ [neighbor] else s.queue }

/-- A node leaves the queue. -/
def put (adjacency : α → List α) (s : State α) (node : α) (rest : List α) : State α :=
  (adjacency node).foldl relax
    { s with
      queue := rest
      result := s.result ++ [node] }

def loop (adjacency : α → List α) : Nat → State α → State α
  | 0, s => s
  | fuel + 1, s =>
    match s.queue with
    | [] => s
    | node :: rest => loop adjacency fuel (put adjacency s node rest)

def start (inDegree : α → Int) (ids : List α) : State α where
  inDegree := inDegree
  queue := ids.filter fun v => inDegree v = 0

/-- The list that is put out. No node is queued twice, so there are at most as many turns as nodes. -/
def sort (adjacency : α → List α) (inDegree : α → Int) (ids : List α) : List α :=
  (loop adjacency ids.length (start inDegree ids)).result

/-! ## One turn -/

/-- The edges of one node are taken off one after the other; a node that they leave with none is queued
once. -/
theorem foldl_relax (l : List α) (s : State α) :
    (∀ v, (l.foldl relax s).inDegree v = s.inDegree v - l.count v) ∧
      (l.foldl relax s).result = s.result ∧
      ∃ pushed : List α, (l.foldl relax s).queue = s.queue ++ pushed ∧ pushed.Nodup ∧
        ∀ v, v ∈ pushed ↔ 0 < s.inDegree v ∧ s.inDegree v ≤ l.count v := by
  induction l generalizing s with
  | nil =>
    refine ⟨fun v => by simp, rfl, [], (List.append_nil _).symm, List.nodup_nil, fun v => ?_⟩
    refine iff_of_false List.not_mem_nil ?_
    rw [List.count_nil]
    omega
  | cons x l ih =>
    obtain ⟨hdegree, hresult, pushed, hqueue, hnodup, hmem⟩ := ih (relax s x)
    have hself : (relax s x).inDegree x = s.inDegree x - 1 := Function.update_self ..
    have hother : ∀ v, v ≠ x → (relax s x).inDegree v = s.inDegree v :=
      fun v hv => Function.update_of_ne hv ..
    have hcount : ∀ v, v ≠ x → (x :: l).count v = l.count v :=
      fun v hv => List.count_cons_of_ne (Ne.symm hv)
    have hcountSelf : (x :: l).count x = l.count x + 1 := List.count_cons_self
    rw [List.foldl_cons]
    refine ⟨?_, hresult, ?_⟩
    · intro v
      rw [hdegree]
      by_cases hv : v = x
      · rw [hv, hself, hcountSelf]
        omega
      · rw [hother v hv, hcount v hv]
    · by_cases hzero : s.inDegree x - 1 = 0
      · have hpush : (relax s x).queue = s.queue ++ [x] := if_pos hzero
        refine ⟨x :: pushed, ?_, ?_, ?_⟩
        · rw [hqueue, hpush, List.append_assoc, List.singleton_append]
        · rw [List.nodup_cons]
          refine ⟨fun hx => ?_, hnodup⟩
          have := ((hmem x).mp hx).1
          omega
        · intro v
          rw [List.mem_cons, hmem]
          by_cases hv : v = x
          · rw [hv, hcountSelf]
            refine iff_of_true (.inl rfl) ?_
            omega
          · rw [or_iff_right hv, hother v hv, hcount v hv]
      · have hkeep : (relax s x).queue = s.queue := if_neg hzero
        refine ⟨pushed, by rw [hqueue, hkeep], hnodup, ?_⟩
        intro v
        rw [hmem]
        by_cases hv : v = x
        · rw [hv, hself, hcountSelf]
          omega
        · rw [hother v hv, hcount v hv]

/-! ## The invariant -/

/-- A finite graph with the counts of its edges: what the algorithm is started with. -/
structure Counted (ids : List α) (adjacency : α → List α) (inDegree : α → Int) : Prop where
  nodup : ids.Nodup
  closed : ∀ u ∈ ids, ∀ v ∈ adjacency u, v ∈ ids
  degree : ∀ v ∈ ids, inDegree v = (ids.map fun u => ((adjacency u).count v : Int)).sum

/-- There is an edge between two nodes of the graph. -/
def Edge (ids : List α) (adjacency : α → List α) (u v : α) : Prop := u ∈ ids ∧ v ∈ adjacency u

/-- The number of edges to a node from the nodes that are not put out. -/
def pending (ids : List α) (adjacency : α → List α) (result : List α) (v : α) : Int :=
  ((ids.filter (· ∉ result)).map fun u => ((adjacency u).count v : Int)).sum

structure Inv (ids : List α) (adjacency : α → List α) (s : State α) : Prop where
  nodup : (s.result ++ s.queue).Nodup
  subset : ∀ v ∈ s.result ++ s.queue, v ∈ ids
  degree : ∀ v ∈ ids, s.inDegree v = pending ids adjacency s.result v
  queued : ∀ v ∈ ids, v ∈ s.result ++ s.queue ↔ s.inDegree v = 0
  ordered : Ordered (Edge ids adjacency) s.result

variable {ids : List α}

section Run

variable {adjacency : α → List α} {inDegree : α → Int} {s : State α} {v : α}

theorem pending_nonneg (result : List α) (v : α) : 0 ≤ pending ids adjacency result v := by
  apply List.sum_nonneg
  intro n hn
  obtain ⟨u, -, rfl⟩ := List.mem_map.mp hn
  exact Int.natCast_nonneg _

/-- No edge leads to a node from the given ones when they have none together. -/
theorem sum_count_eq_zero_iff {l : List α} :
    (l.map fun u => ((adjacency u).count v : Int)).sum = 0 ↔ ∀ u ∈ l, v ∉ adjacency u := by
  have hnonneg : ∀ n ∈ l.map fun u => ((adjacency u).count v : Int), 0 ≤ n := by
    intro n hn
    obtain ⟨u, -, rfl⟩ := List.mem_map.mp hn
    exact Int.natCast_nonneg _
  constructor
  · intro h u hu hv
    have hzero := List.all_zero_of_le_zero_le_of_sum_eq_zero hnonneg h (List.mem_map_of_mem hu)
    have hpos := List.count_pos_iff.mpr hv
    omega
  · intro h
    refine List.sum_eq_zero fun n hn => ?_
    obtain ⟨u, hu, rfl⟩ := List.mem_map.mp hn
    rw [List.count_eq_zero.mpr (h u hu)]
    rfl

/-- A node has no pending edge exactly when all its predecessors are put out. -/
theorem pending_eq_zero_iff {result : List α} :
    pending ids adjacency result v = 0 ↔ ∀ u, Edge ids adjacency u v → u ∈ result := by
  unfold pending
  rw [sum_count_eq_zero_iff]
  constructor
  · intro h u hu
    by_contra hout
    have hmem : u ∈ ids.filter (· ∉ result) := by simp [hu.1, hout]
    exact h u hmem hu.2
  · intro h u hu hv
    rw [List.mem_filter, decide_eq_true_eq] at hu
    exact hu.2 (h u ⟨hu.1, hv⟩)

theorem pending_snoc (adjacency : α → List α) (hids : ids.Nodup) {result : List α} {node : α} (hnode : node ∈ ids)
    (hnew : node ∉ result) (v : α) :
    pending ids adjacency result v =
      (adjacency node).count v + pending ids adjacency (result ++ [node]) v := by
  have hmem : node ∈ ids.filter (· ∉ result) := by simp [hnode, hnew]
  have herase : ids.filter (· ∉ result ++ [node]) = (ids.filter (· ∉ result)).erase node := by
    rw [(hids.filter _).erase_eq_filter, List.filter_filter]
    refine List.filter_congr fun u _ => ?_
    by_cases hu : u = node
    · simp [hu]
    · simp [hu]
  unfold pending
  rw [herase, ((List.perm_cons_erase hmem).map _).sum_eq, List.map_cons, List.sum_cons]

theorem inv_start (h : Counted ids adjacency inDegree) :
    Inv ids adjacency (start inDegree ids) where
  nodup := h.nodup.filter _
  subset v hv := List.mem_of_mem_filter hv
  degree v hv := by
    unfold pending
    simpa [start] using h.degree v hv
  queued v hv := by simp [start, hv]
  ordered := .nil

theorem Inv.put {node : α} {rest : List α} (hg : Counted ids adjacency inDegree)
    (h : Inv ids adjacency s) (hqueue : s.queue = node :: rest) :
    Inv ids adjacency (put adjacency s node rest) := by
  have hold : s.result ++ s.queue = s.result ++ [node] ++ rest := by
    rw [hqueue, List.append_assoc, List.singleton_append]
  have hqueued : node ∈ s.result ++ s.queue := by
    rw [hqueue]
    exact List.mem_append_right _ (List.mem_cons_self ..)
  have hnode : node ∈ ids := h.subset node hqueued
  have hnew : node ∉ s.result := by
    have hnodup := h.nodup
    rw [hqueue, List.nodup_append] at hnodup
    exact fun hmem => hnodup.2.2 node hmem node (List.mem_cons_self ..) rfl
  obtain ⟨hdegree, hresult, pushed, hpushed, hpushedNodup, hmem⟩ := foldl_relax (adjacency node)
    { s with queue := rest, result := s.result ++ [node] }
  have hafter : ∀ v ∈ ids, s.inDegree v - (adjacency node).count v =
      pending ids adjacency (s.result ++ [node]) v := by
    intro v hv
    have hsplit := pending_snoc adjacency hg.nodup hnode hnew v
    have hbefore := h.degree v hv
    omega
  have hall : (Kahn.put adjacency s node rest).result ++ (Kahn.put adjacency s node rest).queue =
      s.result ++ s.queue ++ pushed := by
    unfold Kahn.put
    rw [hresult, hpushed, hold, ← List.append_assoc]
  have hzero : ∀ v, v ∈ s.result ++ s.queue → s.inDegree v = 0 :=
    fun v hv => (h.queued v (h.subset v hv)).mp hv
  constructor
  · rw [hall, List.nodup_append]
    refine ⟨h.nodup, hpushedNodup, ?_⟩
    intro a ha b hb hab
    have hpos := ((hmem b).mp hb).1
    have hnought := hzero a ha
    rw [hab] at hnought
    exact absurd hnought (ne_of_gt hpos)
  · intro v hv
    rw [hall] at hv
    rcases List.mem_append.mp hv with hv | hv
    · exact h.subset v hv
    · obtain ⟨hpos, hle⟩ := (hmem v).mp hv
      have hcount : 0 < (adjacency node).count v := by
        have := lt_of_lt_of_le hpos hle
        omega
      exact hg.closed node hnode v (List.count_pos_iff.mp hcount)
  · intro v hv
    unfold Kahn.put
    rw [hdegree, hresult]
    exact hafter v hv
  · intro v hv
    have hleft : 0 ≤ s.inDegree v - (adjacency node).count v := by
      rw [hafter v hv]
      exact pending_nonneg _ v
    rw [hall, List.mem_append, h.queued v hv, hmem]
    unfold Kahn.put
    rw [hdegree]
    dsimp only
    omega
  · unfold Kahn.put
    rw [hresult]
    refine h.ordered.snoc hnew (pending_eq_zero_iff.mp ?_)
    rw [← h.degree node hnode]
    exact hzero node hqueued

/-! ## A whole run -/

theorem Inv.loop (hg : Counted ids adjacency inDegree) (fuel : Nat) (h : Inv ids adjacency s)
    (hfuel : ids.length ≤ s.result.length + fuel) :
    Inv ids adjacency (loop adjacency fuel s) ∧ (loop adjacency fuel s).queue = [] := by
  induction fuel generalizing s with
  | zero =>
    refine ⟨h, ?_⟩
    have hlength := (List.subperm_of_subset h.nodup h.subset).length_le
    rw [List.length_append] at hlength
    exact List.length_eq_zero_iff.mp (by show s.queue.length = 0; omega)
  | succ fuel ih =>
    unfold Kahn.loop
    cases hqueue : s.queue with
    | nil => exact ⟨h, hqueue⟩
    | cons node rest =>
      refine ih (h.put hg hqueue) ?_
      have hresult := (foldl_relax (adjacency node)
        { s with queue := rest, result := s.result ++ [node] }).2.1
      have hlength : (Kahn.put adjacency s node rest).result.length = s.result.length + 1 := by
        unfold Kahn.put
        rw [hresult, List.length_append, List.length_singleton]
      omega

section Whole

variable (h : Counted ids adjacency inDegree)

include h

theorem sort_spec : (sort adjacency inDegree ids).Nodup ∧
    (∀ v ∈ sort adjacency inDegree ids, v ∈ ids) ∧
    Ordered (Edge ids adjacency) (sort adjacency inDegree ids) ∧
    ∀ v ∈ ids, (∀ u, Edge ids adjacency u v → u ∈ sort adjacency inDegree ids) →
      v ∈ sort adjacency inDegree ids := by
  obtain ⟨hinv, hdone⟩ := (inv_start h).loop h ids.length (by omega)
  have hnodup := hinv.nodup
  have hsubset := hinv.subset
  have hqueued := hinv.queued
  rw [hdone, List.append_nil] at hnodup hsubset hqueued
  refine ⟨hnodup, hsubset, hinv.ordered, ?_⟩
  intro v hv hpred
  rw [sort, hqueued v hv, hinv.degree v hv, pending_eq_zero_iff]
  exact hpred

/-- When the nodes can be ordered at all, every one of them is put out. -/
theorem subset_sort {l : List α} (hl : Ordered (Edge ids adjacency) l) (hall : ∀ v ∈ ids, v ∈ l) :
    ∀ v ∈ ids, v ∈ sort adjacency inDegree ids := by
  have hclosed := hl.subset_of_closed
    (s := fun v => v ∈ ids → v ∈ sort adjacency inDegree ids) fun v _ hpred hv =>
      (sort_spec h).2.2.2 v hv fun u hu => hpred u hu hu.1
  exact fun v hv => hclosed v (hall v hv) hv

theorem length_sort_eq_iff : (sort adjacency inDegree ids).length = ids.length ↔
    ∀ v ∈ ids, v ∈ sort adjacency inDegree ids := by
  obtain ⟨hnodup, hsubset, -, -⟩ := sort_spec h
  have hsub := List.subperm_of_subset hnodup hsubset
  constructor
  · intro hlength v hv
    exact (hsub.perm_of_length_le hlength.ge).mem_iff.mpr hv
  · intro hall
    exact le_antisymm hsub.length_le (List.subperm_of_subset h.nodup hall).length_le

end Whole

end Run

/-! ## Graphs as lists of links -/

/-- The nodes that a node has a link to. -/
def adjacency (links : List (α × α)) (node : α) : List α :=
  (links.filter (·.1 = node)).map Prod.snd

/-- The number of links to a node. -/
def inDegree (links : List (α × α)) (node : α) : Int :=
  links.countP (·.2 = node)

theorem mem_adjacency {links : List (α × α)} {u v : α} : v ∈ adjacency links u ↔ (u, v) ∈ links := by
  simp [adjacency]

/-- Of a list without duplicates, one element counts. -/
theorem sum_map_ite (hnodup : ids.Nodup) {u : α} (hu : u ∈ ids) (f : α → Int) (n : Int) :
    (ids.map fun w => f w + if u = w then n else 0).sum = (ids.map f).sum + n := by
  have hrest : ∀ l : List α, u ∉ l →
      (l.map fun w => f w + if u = w then n else 0) = l.map f := by
    intro l hl
    refine List.map_congr_left fun w hw => ?_
    have hne : u ≠ w := fun h => hl (h ▸ hw)
    rw [if_neg hne, Int.add_zero]
  obtain ⟨front, back, rfl⟩ := List.append_of_mem hu
  rw [List.nodup_append, List.nodup_cons] at hnodup
  have hfront : u ∉ front := fun h => hnodup.2.2 u h u (List.mem_cons_self ..) rfl
  rw [List.map_append, List.map_append, List.map_cons, List.map_cons, hrest front hfront,
    hrest back hnodup.2.1.1, if_pos rfl, List.sum_append, List.sum_append, List.sum_cons,
    List.sum_cons]
  omega

/-- The counts that are taken from a list of links are the numbers of edges. -/
theorem inDegree_eq (hnodup : ids.Nodup) (v : α) {links : List (α × α)}
    (hlinks : ∀ link ∈ links, link.1 ∈ ids) :
    inDegree links v = (ids.map fun w => ((adjacency links w).count v : Int)).sum := by
  induction links with
  | nil => simp [inDegree, adjacency]
  | cons link links ih =>
    obtain ⟨source, target⟩ := link
    have hsource : source ∈ ids := hlinks _ (List.mem_cons_self ..)
    have ih := ih fun link hlink => hlinks link (List.mem_cons_of_mem _ hlink)
    have hcount : ∀ w, ((adjacency ((source, target) :: links) w).count v : Int) =
        (adjacency links w).count v +
          if source = w then (if target = v then 1 else 0) else 0 := by
      intro w
      unfold adjacency
      by_cases hw : source = w
      · rw [List.filter_cons_of_pos (by simpa using hw), List.map_cons, List.count_cons, if_pos hw]
        by_cases hv : target = v
        · simp [hv]
        · simp [hv]
      · rw [List.filter_cons_of_neg (by simpa using hw), if_neg hw, Int.add_zero]
    rw [List.map_congr_left fun w _ => hcount w, sum_map_ite hnodup hsource, ← ih]
    unfold inDegree
    rw [List.countP_cons]
    by_cases hv : target = v
    · simp [hv]
    · simp [hv]

/-- Links between nodes make a counted graph. -/
theorem counted_of_links (hnodup : ids.Nodup) {links : List (α × α)}
    (hlinks : ∀ link ∈ links, link.1 ∈ ids ∧ link.2 ∈ ids) :
    Counted ids (adjacency links) (inDegree links) where
  nodup := hnodup
  closed _ _ _ hv := (hlinks _ (mem_adjacency.mp hv)).2
  degree v _ := inDegree_eq hnodup v fun link hlink => (hlinks link hlink).1

end Kahn

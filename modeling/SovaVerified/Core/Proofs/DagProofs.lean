import Mathlib.Data.List.Dedup
import SovaVerified.Core.Dag
import SovaVerified.Precedence.Layers

/-!
# Whether the order of the node ids matters to a workflow

Kahn's queue is seeded in the order in which a set is gone through, so a graph has several orders. Which
nodes run is the same for all of them as long as each condition asks about nodes that come before or
after its edge's target in every order (`execute_order_independent`). A condition that asks about any
other node sees the order.
-/

namespace Dag

open Relation Precedence

/-- The list goes through the set of node ids. -/
structure Seeds (g : Graph) (order : List Text) : Prop where
  nodup : order.Nodup
  mem : ∀ id, id ∈ order ↔ id ∈ g.nodes.map Node.id

/-- `validate_dag` reports no error. -/
def Accepts (g : Graph) (order : List Text) : Prop := ∃ ids, validateDag g order = .ok ([], ids)

/-- There is an edge from the first node to the second. -/
def Precedes (g : Graph) (u v : Text) : Prop := ∃ e ∈ g.edges, e.source = some u ∧ e.target = some v

variable {g : Graph} {order order' : List Text} {u v : Text}

/-! ## The links of a graph -/

theorem unknownNode_eq_nil_iff {role : Text} {id : Option Text} :
    unknownNode role order id = [] ↔ ∃ i ∈ order, id = some i := by
  cases id with
  | none => simp [unknownNode]
  | some i =>
    unfold unknownNode
    by_cases hi : i ∈ order
    · simp [hi]
    · simp [hi]

theorem edgeErrors_eq_nil_iff {e : Edge} : edgeErrors order e = [] ↔
    (∃ i ∈ order, e.source = some i) ∧ ∃ i ∈ order, e.target = some i := by
  unfold edgeErrors
  rw [List.append_eq_nil_iff, unknownNode_eq_nil_iff, unknownNode_eq_nil_iff]

theorem hasEnds_of_edgeErrors {e : Edge} (h : edgeErrors order e = []) : e.hasEnds = true := by
  obtain ⟨⟨i, -, hi⟩, ⟨j, -, hj⟩⟩ := edgeErrors_eq_nil_iff.mp h
  simp [Edge.hasEnds, hi, hj]

theorem mem_links {link : Text × Text} : link ∈ g.links order ↔
    link.1 ∈ order ∧ link.2 ∈ order ∧ Precedes g link.1 link.2 := by
  unfold Graph.links Precedes
  rw [List.mem_filterMap]
  constructor
  · rintro ⟨e, he, h⟩
    split at h
    · next source target hsource htarget =>
      split_ifs at h with hmem
      cases h
      exact ⟨hmem.1, hmem.2, e, he, hsource, htarget⟩
    · cases h
  · rintro ⟨hsource, htarget, e, he, hs, ht⟩
    refine ⟨e, he, ?_⟩
    simp only [hs, ht]
    rw [if_pos ⟨hsource, htarget⟩]

/-- When every edge is between known nodes, the links are the edges. -/
theorem link_iff_precedes (hedges : ∀ e ∈ g.edges, edgeErrors order e = []) :
    (u, v) ∈ g.links order ↔ Precedes g u v := by
  refine ⟨fun h => (mem_links.mp h).2.2, ?_⟩
  rintro ⟨e, he, hsource, htarget⟩
  obtain ⟨⟨i, hi, hi'⟩, ⟨j, hj, hj'⟩⟩ := edgeErrors_eq_nil_iff.mp (hedges e he)
  rw [hsource] at hi'
  rw [htarget] at hj'
  cases hi'
  cases hj'
  exact mem_links.mpr ⟨hi, hj, e, he, hsource, htarget⟩

/-- Which order the ids are gone through does not matter to the links. -/
theorem links_congr (h : ∀ id, id ∈ order ↔ id ∈ order') : g.links order = g.links order' := by
  unfold Graph.links
  refine List.filterMap_congr fun e _ => ?_
  split
  · next source target _ _ => simp only [h]
  · rfl

theorem mem_neighbors {links : List (Text × Text)} :
    v ∈ neighbors links u ↔ (u, v) ∈ links ∨ (v, u) ∈ links := by
  simp [neighbors]

theorem counted (h : order.Nodup) (g : Graph) :
    Kahn.Counted order (Kahn.adjacency (g.links order)) (Kahn.inDegree (g.links order)) :=
  Kahn.counted_of_links h fun _ hlink => ⟨(mem_links.mp hlink).1, (mem_links.mp hlink).2.1⟩

theorem finite (g : Graph) (order : List Text) :
    Components.Finite order (neighbors (g.links order)) := by
  have hclosed : ∀ u, ∀ v ∈ neighbors (g.links order) u, v ∈ order := by
    intro u v hv
    rcases mem_neighbors.mp hv with hlink | hlink
    · exact (mem_links.mp hlink).2.1
    · exact (mem_links.mp hlink).1
  refine ⟨fun u _ v hv => hclosed u v hv, ?_⟩
  intro u _
  exact (List.subperm_of_subset (List.nodup_dedup _) (hclosed u)).length_le

/-! ## What is accepted -/

theorem componentErrors_eq_nil_iff : componentErrors g order = [] ↔
    (Components.components (neighbors (g.links order)) order).length ≤ 1 := by
  unfold componentErrors
  dsimp only
  split_ifs with h
  · exact iff_of_false (by simp) (by omega)
  · exact iff_of_true rfl (by omega)

/-- What an accepted graph is, and the ids that come with it. -/
theorem validateDag_eq_ok_nil_iff {ids : List Text} : validateDag g order = .ok ([], ids) ↔
    g.nodes ≠ [] ∧ (∀ e ∈ g.edges, edgeErrors order e = []) ∧
      (∀ node ∈ g.nodes, node.hasCommand = true) ∧
      ((g.sorted order).length = order.length ∧ ids = g.sorted order) ∧
      (1 < g.nodes.length → componentErrors g order = []) := by
  have hcommands : g.nodes.flatMap commandErrors = [] ↔ ∀ node ∈ g.nodes, node.hasCommand = true := by
    rw [List.flatMap_eq_nil_iff]
    refine forall₂_congr fun node _ => ?_
    unfold commandErrors
    split_ifs with h
    · exact iff_of_true rfl h
    · exact iff_of_false (by simp) h
  unfold validateDag
  by_cases hnodes : g.nodes = []
  · rw [if_pos hnodes]
    refine iff_of_false (fun h => ?_) fun h => h.1 hnodes
    cases h
  · rw [if_neg hnodes, ← hcommands, ← List.flatMap_eq_nil_iff]
    unfold topologicalSort
    by_cases hends : g.edges.all Edge.hasEnds = true
    · rw [if_pos hends]
      dsimp only
      show (Except.bind _ _ = _) ↔ _
      by_cases hlength : (g.sorted order).length = order.length
      · rw [if_neg (not_not.mpr hlength)]
        dsimp only [Except.bind]
        rw [Except.ok.injEq, Prod.mk.injEq, List.append_eq_nil_iff, List.append_eq_nil_iff,
          List.append_eq_nil_iff]
        constructor
        · rintro ⟨⟨⟨⟨hedges, hcommand⟩, -⟩, hcomponents⟩, rfl⟩
          refine ⟨hnodes, hedges, hcommand, ⟨hlength, rfl⟩, fun hsize => ?_⟩
          rwa [if_pos hsize] at hcomponents
        · rintro ⟨-, hedges, hcommand, ⟨-, rfl⟩, hcomponents⟩
          refine ⟨⟨⟨⟨hedges, hcommand⟩, rfl⟩, ?_⟩, rfl⟩
          split_ifs with hsize
          · exact hcomponents hsize
          · rfl
      · rw [if_pos hlength]
        dsimp only [Except.bind]
        refine iff_of_false (fun h => ?_) fun h => hlength h.2.2.2.1.1
        simp at h
    · rw [if_neg hends]
      refine iff_of_false (fun h => by cases h) ?_
      rintro ⟨-, hedges, -⟩
      refine hends (List.all_eq_true.mpr fun e he => ?_)
      exact hasEnds_of_edgeErrors (List.flatMap_eq_nil_iff.mp hedges e he)

theorem edge_iff (order : List Text) :
    Kahn.Edge order (Kahn.adjacency (g.links order)) u v ↔ (u, v) ∈ g.links order := by
  unfold Kahn.Edge
  rw [Kahn.mem_adjacency]
  exact ⟨fun h => h.2, fun h => ⟨(mem_links.mp h).1, h⟩⟩

/-- The sort puts the ends of every edge in order. -/
theorem ordered_sorted (h : order.Nodup) (g : Graph) :
    Ordered (fun u v => (u, v) ∈ g.links order) (g.sorted order) := by
  have hordered := (Kahn.sort_spec (counted h g)).2.2.1
  have hrel : Kahn.Edge order (Kahn.adjacency (g.links order)) = fun u v => (u, v) ∈ g.links order := by
    funext u v
    exact propext (edge_iff order)
  rw [← hrel]
  exact hordered

/-- In an accepted graph these are the edges that the nodes were given. -/
theorem ordered_precedes (h : order.Nodup) (hedges : ∀ e ∈ g.edges, edgeErrors order e = []) :
    Ordered (Precedes g) (g.sorted order) := by
  have hrel : (fun u v => (u, v) ∈ g.links order) = Precedes g := by
    funext u v
    exact propext (link_iff_precedes hedges)
  rw [← hrel]
  exact ordered_sorted h g

theorem mem_sorted_iff (h : order.Nodup) (hlength : (g.sorted order).length = order.length) :
    v ∈ g.sorted order ↔ v ∈ order :=
  ⟨(Kahn.sort_spec (counted h g)).2.1 v, (Kahn.length_sort_eq_iff (counted h g)).mp hlength v⟩

/-- Whether a graph is accepted does not depend on the order of its ids. -/
theorem Accepts.congr (hs : Seeds g order) (hs' : Seeds g order') (h : Accepts g order) :
    Accepts g order' := by
  have hmem : ∀ id, id ∈ order ↔ id ∈ order' := fun id => (hs.mem id).trans (hs'.mem id).symm
  have hlinks := links_congr (g := g) hmem
  obtain ⟨ids, hids⟩ := h
  obtain ⟨hnodes, hedges, hcommands, ⟨hlength, -⟩, hcomponents⟩ := validateDag_eq_ok_nil_iff.mp hids
  refine ⟨g.sorted order', validateDag_eq_ok_nil_iff.mpr ⟨hnodes, ?_, hcommands, ⟨?_, rfl⟩, ?_⟩⟩
  · intro e he
    have herr := edgeErrors_eq_nil_iff.mp (hedges e he)
    simp only [hmem] at herr
    exact edgeErrors_eq_nil_iff.mpr herr
  · have hordered := ordered_sorted hs.nodup g
    rw [hlinks] at hordered
    have hrel : (fun u v => (u, v) ∈ g.links order') =
        Kahn.Edge order' (Kahn.adjacency (g.links order')) := by
      funext u v
      exact propext (edge_iff order').symm
    rw [hrel] at hordered
    refine (Kahn.length_sort_eq_iff (counted hs'.nodup g)).mpr
      (Kahn.subset_sort (counted hs'.nodup g) hordered fun v hv => ?_)
    rw [mem_sorted_iff hs.nodup hlength, hmem]
    exact hv
  · intro hsize
    have hone := componentErrors_eq_nil_iff.mp (hcomponents hsize)
    have hsymm : ∀ (links : List (Text × Text)) (u v : Text), v ∈ neighbors links u →
        u ∈ neighbors links v := by
      intro links u v huv
      rw [mem_neighbors] at huv ⊢
      exact huv.symm
    rw [Components.length_components_le_one_iff (finite g order) (hsymm _)] at hone
    rw [componentErrors_eq_nil_iff,
      Components.length_components_le_one_iff (finite g order') (hsymm _), ← hlinks]
    simp only [← hmem]
    exact hone

/-! ## Conditions -/

/-- The operator that a condition is split at. -/
def operatorOf (condition : Text) : Option Text :=
  if Text.isIn "!=".toList condition then some "!=".toList
  else if Text.isIn "==".toList condition then some "==".toList
  else none

/-- The condition compares the key of a node with one of the two values that the key can have: the node
has completed, or it has not. -/
def Reads (condition u : Text) : Prop :=
  ∃ op, operatorOf condition = some op ∧ (splitCondition op condition).1 = doneKey u ∧
    (splitCondition op condition).2 ∈ ["true".toList, []]

/-- The context keys after the given nodes have completed. -/
def contextOf (ran : List Text) : Assoc Text Text :=
  ran.foldl (fun keys id => keys.put (doneKey id) "true".toList) []

theorem doneKey_injective (h : doneKey u = doneKey v) : u = v := List.append_cancel_right h

theorem contextOf_snoc (ran : List Text) (u : Text) :
    contextOf (ran ++ [u]) = (contextOf ran).put (doneKey u) "true".toList := by
  unfold contextOf
  rw [List.foldl_append, List.foldl_cons, List.foldl_nil]

theorem get_contextOf_doneKey (ran : List Text) (u : Text) :
    (contextOf ran).get (doneKey u) = if u ∈ ran then some "true".toList else none := by
  induction ran using List.reverseRecOn with
  | nil => rfl
  | append_singleton ran v ih =>
    rw [contextOf_snoc]
    by_cases huv : u = v
    · rw [huv, Assoc.get_put_self, if_pos (by simp)]
    · have hkey : doneKey u ≠ doneKey v := fun h => huv (doneKey_injective h)
      rw [Assoc.get_put_ne _ _ hkey, ih]
      simp [huv]

theorem get_contextOf_of_not_doneKey (ran : List Text) {key : Text} (h : ∀ u, key ≠ doneKey u) :
    (contextOf ran).get key = none := by
  induction ran using List.reverseRecOn with
  | nil => rfl
  | append_singleton ran v ih =>
    rw [contextOf_snoc, Assoc.get_put_ne _ _ (h v), ih]

/-- A comparison comes out the same when the nodes that it asks about are in the same state. -/
theorem compare_congr {ran ran' : List Text} {op condition : Text}
    (hop : operatorOf condition = some op)
    (h : ∀ u, Reads condition u → (u ∈ ran ↔ u ∈ ran')) :
    ((contextOf ran).get (splitCondition op condition).1).getD [] = (splitCondition op condition).2 ↔
      ((contextOf ran').get (splitCondition op condition).1).getD [] =
        (splitCondition op condition).2 := by
  by_cases hkey : ∃ u, (splitCondition op condition).1 = doneKey u
  · obtain ⟨u, hu⟩ := hkey
    rw [hu, get_contextOf_doneKey, get_contextOf_doneKey]
    by_cases hvalue : (splitCondition op condition).2 ∈ ["true".toList, []]
    · have hmem := h u ⟨op, hop, hu, hvalue⟩
      simp only [hmem]
    · have hother : ∀ p : Prop, ∀ _ : Decidable p,
          (if p then some "true".toList else none).getD [] ≠ (splitCondition op condition).2 := by
        intro p _ heq
        refine hvalue (heq ▸ ?_)
        split_ifs
        · exact List.mem_cons_self ..
        · exact List.mem_cons_of_mem _ (List.mem_cons_self ..)
      exact iff_of_false (hother _ _) (hother _ _)
  · have hnone : ∀ u, (splitCondition op condition).1 ≠ doneKey u := fun u hu => hkey ⟨u, hu⟩
    rw [get_contextOf_of_not_doneKey ran hnone, get_contextOf_of_not_doneKey ran' hnone]

theorem evaluateCondition_congr {ran ran' : List Text} {condition : Text}
    (h : ∀ u, Reads condition u → (u ∈ ran ↔ u ∈ ran')) :
    evaluateCondition condition (contextOf ran) = evaluateCondition condition (contextOf ran') := by
  unfold evaluateCondition
  dsimp only
  split_ifs with hne heq
  · have hop : operatorOf condition = some "!=".toList := if_pos hne
    rw [decide_eq_decide, ne_eq, ne_eq, compare_congr hop h]
  · have hop : operatorOf condition = some "==".toList := (if_neg hne).trans (if_pos heq)
    rw [decide_eq_decide, compare_congr hop h]
  · rfl

/-! ## Whether a node runs -/

/-- The decision about a node depends on the state of these nodes. -/
def Asks (g : Graph) (v u : Text) : Prop :=
  ∃ e ∈ g.edges, e.target = some v ∧ (e.source = some u ∨ ∃ c, e.condition = some c ∧ Reads c u)

/-- `_should_execute` for a graph whose edges all have a source. -/
def takes (g : Graph) (v : Text) (ran skipped : List Text) : Bool :=
  match shouldExecute g v (contextOf ran) skipped with
  | .ok take => take
  | .error _ => false

theorem edgesHold_congr {s t : List Text × List Text} {edges : List Edge}
    (h : ∀ e ∈ edges, ∀ u, (e.source = some u ∨ ∃ c, e.condition = some c ∧ Reads c u) →
      Agree s t u) (has : Bool) :
    edgesHold (contextOf s.1) s.2 has edges = edgesHold (contextOf t.1) t.2 has edges := by
  induction edges generalizing has with
  | nil => rfl
  | cons e edges ih =>
    have ih := ih fun e' he' => h e' (List.mem_cons_of_mem _ he')
    have he := h e (List.mem_cons_self ..)
    unfold edgesHold
    cases hsource : e.source with
    | none => rfl
    | some source =>
      obtain ⟨hran, hskipped⟩ := he source (.inl hsource)
      have hkey : (contextOf s.1).get (doneKey source) = (contextOf t.1).get (doneKey source) := by
        rw [get_contextOf_doneKey, get_contextOf_doneKey]
        simp only [hran]
      simp only [hskipped, hkey, ih]
      cases hcondition : e.condition with
      | none => rfl
      | some condition =>
        have heval := evaluateCondition_congr fun u hu => (he u (.inr ⟨condition, hcondition, hu⟩)).1
        simp only [heval]

theorem takes_congr {s t : List Text × List Text} (h : ∀ u, Asks g v u → Agree s t u) :
    takes g v s.1 s.2 = takes g v t.1 t.2 := by
  have hedges : ∀ e ∈ g.incoming v, ∀ u,
      (e.source = some u ∨ ∃ c, e.condition = some c ∧ Reads c u) → Agree s t u := by
    intro e he u hu
    obtain ⟨hmem, htarget⟩ := List.mem_filter.mp he
    exact h u ⟨e, hmem, of_decide_eq_true htarget, hu⟩
  unfold takes shouldExecute
  cases hincoming : g.incoming v with
  | nil => rfl
  | cons e edges =>
    rw [hincoming] at hedges
    dsimp only
    rw [edgesHold_congr hedges]

theorem edgesHold_returns {keys : Assoc Text Text} {skipped : List Text} {edges : List Edge}
    (h : ∀ e ∈ edges, e.source.isSome = true) (has : Bool) :
    ∃ take, edgesHold keys skipped has edges = .ok take := by
  induction edges generalizing has with
  | nil => exact ⟨has, rfl⟩
  | cons e edges ih =>
    have ih := ih fun e' he' => h e' (List.mem_cons_of_mem _ he')
    obtain ⟨source, hsource⟩ := Option.isSome_iff_exists.mp (h e (List.mem_cons_self ..))
    unfold edgesHold
    simp only [hsource]
    split_ifs
    · exact ih has
    · exact ⟨false, rfl⟩
    · cases e.condition with
      | none => exact ih true
      | some condition =>
        dsimp only
        split_ifs
        · exact ih true
        · exact ⟨false, rfl⟩

theorem shouldExecute_returns (h : ∀ e ∈ g.edges, e.source.isSome = true) (v : Text)
    (keys : Assoc Text Text) (skipped : List Text) :
    ∃ take, shouldExecute g v keys skipped = .ok take := by
  unfold shouldExecute
  split
  · exact ⟨true, rfl⟩
  · exact edgesHold_returns (fun e he => h e (List.mem_of_mem_filter he)) false

theorem shouldExecute_eq (h : ∀ e ∈ g.edges, e.source.isSome = true) (v : Text)
    (ran skipped : List Text) :
    shouldExecute g v (contextOf ran) skipped = .ok (takes g v ran skipped) := by
  obtain ⟨take, htake⟩ := shouldExecute_returns h v (contextOf ran) skipped
  unfold takes
  rw [htake]

/-! ## Execution -/

/-- The state of an execution that has gone through the given ids without a failure. -/
structure Follows (g : Graph) (p : Progress) (done : List Text) : Prop where
  ran : p.results.map NodeResult.nodeId = (pick (takes g) done).1
  skipped : p.skipped = (pick (takes g) done).2
  contextKeys : p.contextKeys = contextOf (pick (takes g) done).1

theorem node_spec {id : Text} (h : id ∈ g.nodes.map Node.id) :
    ∃ node, g.node id = some node ∧ node.id = id ∧ node ∈ g.nodes := by
  obtain ⟨node, hnode, hid⟩ := List.mem_map.mp h
  have hsome : (g.node id).isSome = true := by
    unfold Graph.node
    rw [List.find?_isSome]
    exact ⟨node, List.mem_reverse.mpr hnode, by simpa using hid⟩
  obtain ⟨node', hnode'⟩ := Option.isSome_iff_exists.mp hsome
  have hfound := List.find?_some hnode'
  have hmem := List.mem_of_find?_eq_some hnode'
  exact ⟨node', hnode', by simpa using hfound, List.mem_reverse.mp hmem⟩

/-- When every command succeeds, an execution decides about every id in its turn. -/
theorem executeFrom_eq {runCommand : Node → Outcome}
    (hsuccess : ∀ node ∈ g.nodes, (runCommand node).success = true)
    (hsources : ∀ e ∈ g.edges, e.source.isSome = true) {p : Progress} {done rest : List Text}
    (hp : Follows g p done) (hrest : ∀ id ∈ rest, id ∈ g.nodes.map Node.id) :
    ∃ p', executeFrom g runCommand p rest = .ok p'.completed ∧ Follows g p' (done ++ rest) := by
  induction rest generalizing p done with
  | nil => exact ⟨p, rfl, by rwa [List.append_nil]⟩
  | cons id rest ih =>
    have hcut : done ++ id :: rest = done ++ [id] ++ rest := by simp
    have hrest' : ∀ id ∈ rest, id ∈ g.nodes.map Node.id :=
      fun i hi => hrest i (List.mem_cons_of_mem _ hi)
    obtain ⟨node, hnode, hid, hmem⟩ := node_spec (hrest id (List.mem_cons_self ..))
    have hdecision : shouldExecute g id p.contextKeys p.skipped =
        .ok (takes g id (pick (takes g) done).1 (pick (takes g) done).2) := by
      rw [hp.contextKeys, hp.skipped]
      exact shouldExecute_eq hsources id _ _
    have hpick := pick_snoc (takes g) done id
    unfold executeFrom
    rw [hnode, hdecision, hcut]
    by_cases htake : takes g id (pick (takes g) done).1 (pick (takes g) done).2 = true
    · rw [if_pos htake] at hpick
      rw [htake]
      have hstep : Follows g ((p.record (executeNode runCommand node)).complete id)
          (done ++ [id]) := by
        refine ⟨?_, ?_, ?_⟩
        · show (p.results ++ [executeNode runCommand node]).map NodeResult.nodeId = _
          rw [List.map_append, hp.ran, hpick]
          exact congrArg (_ ++ [·]) hid
        · rw [hpick]
          exact hp.skipped
        · rw [hpick, contextOf_snoc, ← hp.contextKeys]
          rfl
      obtain ⟨p', hp', hfollows⟩ := ih hstep hrest'
      refine ⟨p', ?_, hfollows⟩
      have hok : (executeNode runCommand node).outcome.success = true := hsuccess node hmem
      show (if (!(executeNode runCommand node).outcome.success) = true then _ else _) = _
      rw [hok]
      exact hp'
    · rw [if_neg htake] at hpick
      rw [Bool.not_eq_true] at htake
      rw [htake]
      have hstep : Follows g (p.skip id) (done ++ [id]) := by
        refine ⟨?_, ?_, ?_⟩
        · rw [hpick]
          exact hp.ran
        · show p.skipped ++ [id] = _
          rw [hp.skipped, hpick]
        · rw [hpick]
          exact hp.contextKeys
      obtain ⟨p', hp', hfollows⟩ := ih hstep hrest'
      exact ⟨p', hp', hfollows⟩

/-- The execution of an accepted graph whose commands succeed. -/
theorem execute_eq {runCommand : Node → Outcome}
    (hsuccess : ∀ node ∈ g.nodes, (runCommand node).success = true) (hs : Seeds g order)
    (h : Accepts g order) : ∃ x, execute g order runCommand = .ok x ∧
      (∀ id, x.Ran id ↔ id ∈ (pick (takes g) (g.sorted order)).1) ∧
      x.skipped = (pick (takes g) (g.sorted order)).2 := by
  obtain ⟨ids, hids⟩ := h
  obtain ⟨-, hedges, -, ⟨hlength, rfl⟩, -⟩ := validateDag_eq_ok_nil_iff.mp hids
  have hends : ∀ e ∈ g.edges, e.source.isSome = true ∧ e.target.isSome = true := by
    intro e he
    have hends := hasEnds_of_edgeErrors (hedges e he)
    exact (Bool.and_eq_true ..).mp hends
  have hnodes : ∀ id ∈ g.sorted order, id ∈ g.nodes.map Node.id := by
    intro id hid
    rw [← hs.mem, ← mem_sorted_iff hs.nodup hlength]
    exact hid
  have hbegin : Follows g {} [] := ⟨rfl, rfl, rfl⟩
  obtain ⟨p, hp, hfollows⟩ := executeFrom_eq hsuccess (fun e he => (hends e he).1) hbegin hnodes
  rw [List.nil_append] at hfollows
  refine ⟨p.completed, ?_, ?_, hfollows.skipped⟩
  · unfold execute
    rw [if_pos (List.all_eq_true.mpr fun e he => (hends e he).2), hids]
    exact hp
  · intro id
    rw [← hfollows.ran, List.mem_map]
    exact Iff.rfl

/-- Every condition asks only about nodes that come before its edge's target in every order, or after
it. -/
def AsksInOrder (g : Graph) : Prop :=
  ∀ e ∈ g.edges, ∀ c, e.condition = some c → ∀ v, e.target = some v →
    ∀ u ∈ g.nodes.map Node.id, Reads c u →
      TransGen (Precedes g) u v ∨ ReflTransGen (Precedes g) v u

/-- Which nodes run, and which are skipped, does not depend on the order in which the set of node ids
is gone through. -/
theorem execute_order_independent (g : Graph) (order order' : List Text) (runCommand : Node → Outcome)
    (hs : Seeds g order) (hs' : Seeds g order') (haccepts : Accepts g order)
    (hsuccess : ∀ node ∈ g.nodes, (runCommand node).success = true) (hasks : AsksInOrder g) :
    ∃ x x', execute g order runCommand = .ok x ∧ execute g order' runCommand = .ok x' ∧
      (∀ id, x.Ran id ↔ x'.Ran id) ∧ ∀ id, id ∈ x.skipped ↔ id ∈ x'.skipped := by
  have haccepts' := haccepts.congr hs hs'
  obtain ⟨x, hx, hran, hskipped⟩ := execute_eq hsuccess hs haccepts
  obtain ⟨x', hx', hran', hskipped'⟩ := execute_eq hsuccess hs' haccepts'
  obtain ⟨ids, hids⟩ := haccepts
  obtain ⟨ids', hids'⟩ := haccepts'
  obtain ⟨-, hedges, -, ⟨hlength, -⟩, -⟩ := validateDag_eq_ok_nil_iff.mp hids
  obtain ⟨-, hedges', -, ⟨hlength', -⟩, -⟩ := validateDag_eq_ok_nil_iff.mp hids'
  have hmem : ∀ id, id ∈ order ↔ id ∈ order' := fun id => (hs.mem id).trans (hs'.mem id).symm
  have hordered := ordered_precedes hs.nodup hedges
  have hordered' := ordered_precedes hs'.nodup hedges'
  have hagree := agree_pick_of_ordered (takes g) (Asks g) hordered hordered'
    (fun v => by rw [mem_sorted_iff hs.nodup hlength, mem_sorted_iff hs'.nodup hlength', hmem])
    (fun v _ s t h => takes_congr h) ?_
  · refine ⟨x, x', hx, hx', fun id => ?_, fun id => ?_⟩
    · rw [hran, hran']
      exact (hagree id).1
    · rw [hskipped, hskipped']
      exact (hagree id).2
  · rintro v - u ⟨e, he, htarget, hsource | ⟨c, hc, hreads⟩⟩
    · exact .inl (TransGen.single ⟨e, he, hsource, htarget⟩)
    · by_cases hu : u ∈ g.nodes.map Node.id
      · exact (hasks e he c hc v htarget u hu hreads).imp_right .inl
      · refine .inr (.inr fun hmem => hu ?_)
        rw [← hs.mem, ← mem_sorted_iff hs.nodup hlength]
        exact hmem

/-! A node whose condition asks about a node on another branch. -/

def twoRoots : Graph where
  nodes := [⟨"a".toList, some "triage".toList⟩, ⟨"x".toList, some "triage".toList⟩,
    ⟨"b".toList, some "review".toList⟩, ⟨"c".toList, some "develop".toList⟩]
  edges := [⟨some "a".toList, some "c".toList, some "b.done == true".toList⟩,
    ⟨some "x".toList, some "c".toList, none⟩, ⟨some "x".toList, some "b".toList, none⟩]

def succeeding : Node → Outcome := fun _ => { success := true }

/-- The nodes that an execution skips. -/
def skippedOf : Except PyException Execution → List Text
  | .ok x => x.skipped
  | .error _ => []

theorem skipped_depends_on_order :
    ¬∀ (g : Graph) (order order' : List Text) (runCommand : Node → Outcome), Seeds g order →
      Seeds g order' → Accepts g order → (∀ node ∈ g.nodes, (runCommand node).success = true) →
      ∃ x x', execute g order runCommand = .ok x ∧ execute g order' runCommand = .ok x' ∧
        (∀ id, x.Ran id ↔ x'.Ran id) ∧ ∀ id, id ∈ x.skipped ↔ id ∈ x'.skipped := by
  intro h
  have hs : Seeds twoRoots ["a".toList, "x".toList, "b".toList, "c".toList] :=
    ⟨by decide, fun id => Iff.rfl⟩
  have hs' : Seeds twoRoots ["x".toList, "a".toList, "b".toList, "c".toList] := by
    refine ⟨by decide, fun id => ?_⟩
    rw [← hs.mem]
    exact (List.Perm.swap ..).mem_iff
  obtain ⟨x, x', hx, hx', -, hskipped⟩ := h twoRoots _ _ succeeding hs hs' ⟨_, rfl⟩ fun _ _ => rfl
  have hc : skippedOf (execute twoRoots ["a".toList, "x".toList, "b".toList, "c".toList] succeeding) =
      ["c".toList] := by decide
  have hnone : skippedOf
      (execute twoRoots ["x".toList, "a".toList, "b".toList, "c".toList] succeeding) = [] := by decide
  rw [hx] at hc
  rw [hx'] at hnone
  have hc' : x.skipped = ["c".toList] := hc
  have hnone' : x'.skipped = [] := hnone
  have hmem := hskipped "c".toList
  rw [hc', hnone'] at hmem
  exact absurd (hmem.mp (List.mem_cons_self ..)) List.not_mem_nil

/-- The same graph with a condition about a node that comes before the edge's target. -/
def twoRootsInOrder : Graph where
  nodes := twoRoots.nodes
  edges := [⟨some "a".toList, some "c".toList, some "x.done == true".toList⟩,
    ⟨some "x".toList, some "c".toList, none⟩, ⟨some "x".toList, some "b".toList, none⟩]

theorem twoRootsInOrder_order_independent :
    ∃ x x', execute twoRootsInOrder ["a".toList, "x".toList, "b".toList, "c".toList] succeeding = .ok x ∧
      execute twoRootsInOrder ["x".toList, "a".toList, "b".toList, "c".toList] succeeding = .ok x' ∧
      (∀ id, x.Ran id ↔ x'.Ran id) ∧ ∀ id, id ∈ x.skipped ↔ id ∈ x'.skipped := by
  refine execute_order_independent twoRootsInOrder _ _ succeeding ⟨by decide, fun id => Iff.rfl⟩
    ⟨by decide, fun id => (List.Perm.swap ..).mem_iff⟩ ⟨_, rfl⟩ (fun _ _ => rfl) ?_
  intro e he c hc v hv u _ hu
  have hx : c = "x.done == true".toList ∧ v = "c".toList := by
    simp only [twoRootsInOrder, List.mem_cons, List.not_mem_nil, or_false] at he
    rcases he with rfl | rfl | rfl
    · cases hc
      cases hv
      exact ⟨rfl, rfl⟩
    · cases hc
    · cases hc
  obtain ⟨op, hop, hkey, -⟩ := hu
  rw [hx.1] at hop hkey
  have hop' : op = "==".toList := Option.some.inj (hop.symm.trans (by decide))
  rw [hop'] at hkey
  have hux : u = "x".toList := doneKey_injective (hkey.symm.trans (by decide))
  rw [hux, hx.2]
  exact .inl (TransGen.single ⟨⟨some "x".toList, some "c".toList, none⟩, by simp [twoRootsInOrder],
    rfl, rfl⟩)

end Dag

/-!
# What validation says about a workflow graph

For a graph whose edges have both ends the validation is exact (`validateDag_exact`). An edge without an
end makes it raise instead of reporting (`reports_iff`), and two node entries with one id pass it although
only the later one can run (`execute_runs_each_iff`).
-/

namespace Dag

open Relation Precedence

variable {g : Graph} {order : List Text} {u v : Text}

/-! ## Valid graphs -/

/-- There is an edge between the nodes, in one direction or the other. -/
def Linked (g : Graph) (u v : Text) : Prop := Precedes g u v ∨ Precedes g v u

structure ValidDag (g : Graph) : Prop where
  nonempty : g.nodes ≠ []
  /-- Every edge references existing nodes. -/
  known : ∀ e ∈ g.edges, ∀ id, e.source = some id ∨ e.target = some id → id ∈ g.nodes.map Node.id
  commands : ∀ node ∈ g.nodes, node.hasCommand = true
  acyclic : ∀ v, ¬TransGen (Precedes g) v v
  connected : ∀ u ∈ g.nodes.map Node.id, ∀ v ∈ g.nodes.map Node.id, ReflTransGen (Linked g) u v

theorem edgeErrors_eq_nil_iff_known (hs : Seeds g order) {e : Edge} (hends : e.hasEnds = true) :
    edgeErrors order e = [] ↔
      ∀ id, e.source = some id ∨ e.target = some id → id ∈ g.nodes.map Node.id := by
  obtain ⟨hsource, htarget⟩ := (Bool.and_eq_true ..).mp hends
  obtain ⟨source, hsource⟩ := Option.isSome_iff_exists.mp hsource
  obtain ⟨target, htarget⟩ := Option.isSome_iff_exists.mp htarget
  rw [edgeErrors_eq_nil_iff, hsource, htarget]
  constructor
  · rintro ⟨⟨i, hi, hi'⟩, ⟨j, hj, hj'⟩⟩ id (hid | hid)
    · obtain rfl := Option.some.inj (hi'.symm.trans hid)
      exact (hs.mem i).mp hi
    · obtain rfl := Option.some.inj (hj'.symm.trans hid)
      exact (hs.mem j).mp hj
  · intro h
    exact ⟨⟨source, (hs.mem source).mpr (h source (.inl rfl)), rfl⟩,
      ⟨target, (hs.mem target).mpr (h target (.inr rfl)), rfl⟩⟩

/-- The sort puts out every id exactly when no node precedes itself. -/
theorem length_sorted_eq_iff (hs : Seeds g order) (hedges : ∀ e ∈ g.edges, edgeErrors order e = []) :
    (g.sorted order).length = order.length ↔ ∀ v, ¬TransGen (Precedes g) v v := by
  have hrel : Kahn.Edge order (Kahn.adjacency (g.links order)) = Precedes g := by
    funext u v
    exact propext ((edge_iff order).trans (link_iff_precedes hedges))
  have hacyclic := Kahn.length_sort_eq_iff_acyclic (counted hs.nodup g)
  rw [hrel] at hacyclic
  rw [Graph.sorted, hacyclic]
  refine ⟨fun h v hcycle => ?_, fun h v _ => h v⟩
  obtain ⟨w, hvw, -⟩ := TransGen.head'_iff.mp hcycle
  exact h v (mem_links.mp ((link_iff_precedes hedges).mpr hvw)).1 hcycle

/-- There is one component exactly when all nodes are linked. -/
theorem componentErrors_eq_nil_iff_linked (hs : Seeds g order)
    (hedges : ∀ e ∈ g.edges, edgeErrors order e = []) :
    componentErrors g order = [] ↔ ∀ u ∈ g.nodes.map Node.id, ∀ v ∈ g.nodes.map Node.id,
      ReflTransGen (Linked g) u v := by
  have hrel : (fun u v => v ∈ neighbors (g.links order) u) = Linked g := by
    funext u v
    refine propext ?_
    rw [mem_neighbors, link_iff_precedes hedges, link_iff_precedes hedges]
    exact Iff.rfl
  have hsymm : ∀ u v, v ∈ neighbors (g.links order) u → u ∈ neighbors (g.links order) v := by
    intro u v huv
    rw [mem_neighbors] at huv ⊢
    exact huv.symm
  rw [componentErrors_eq_nil_iff, Components.length_components_le_one_iff (finite g order) hsymm]
  unfold Components.Reach
  rw [hrel]
  simp only [hs.mem]

theorem accepts_iff (hs : Seeds g order) (hends : ∀ e ∈ g.edges, e.hasEnds = true) :
    Accepts g order ↔ ValidDag g := by
  have hknown : (∀ e ∈ g.edges, edgeErrors order e = []) ↔
      ∀ e ∈ g.edges, ∀ id, e.source = some id ∨ e.target = some id → id ∈ g.nodes.map Node.id :=
    forall₂_congr fun e he => edgeErrors_eq_nil_iff_known hs (hends e he)
  unfold Accepts
  simp only [validateDag_eq_ok_nil_iff]
  constructor
  · rintro ⟨-, hnodes, hedges, hcommands, ⟨hlength, -⟩, hcomponents⟩
    refine ⟨hnodes, hknown.mp hedges, hcommands, (length_sorted_eq_iff hs hedges).mp hlength, ?_⟩
    by_cases hsize : 1 < g.nodes.length
    · exact (componentErrors_eq_nil_iff_linked hs hedges).mp (hcomponents hsize)
    · -- One node is linked to itself.
      intro u hu v hv
      have hone : (g.nodes.map Node.id).length ≤ 1 := by
        rw [List.length_map]
        omega
      obtain ⟨i, hi, rfl⟩ := List.getElem_of_mem hu
      obtain ⟨j, hj, rfl⟩ := List.getElem_of_mem hv
      have hij : i = j := by omega
      subst hij
      exact ReflTransGen.refl
  · intro h
    have hedges := hknown.mpr h.known
    exact ⟨_, h.nonempty, hedges, h.commands, ⟨(length_sorted_eq_iff hs hedges).mpr h.acyclic, rfl⟩,
      fun _ => (componentErrors_eq_nil_iff_linked hs hedges).mpr h.connected⟩

/-- The validation of a graph whose edges have both ends reports no error exactly when the graph is
valid, and then the ids come in an order in which every edge leads forward. -/
theorem validateDag_exact (g : Graph) (order : List Text) (hs : Seeds g order)
    (hends : ∀ e ∈ g.edges, e.hasEnds = true) :
    ((∃ ids, validateDag g order = .ok ([], ids)) ↔ ValidDag g) ∧
      ∀ ids, validateDag g order = .ok ([], ids) → ids.Perm (g.nodes.map Node.id).dedup ∧
        ∀ u v, Precedes g u v → ids.idxOf u < ids.idxOf v := by
  refine ⟨accepts_iff hs hends, fun ids hids => ?_⟩
  obtain ⟨-, hedges, -, ⟨hlength, rfl⟩, -⟩ := validateDag_eq_ok_nil_iff.mp hids
  have hordered := ordered_precedes hs.nodup hedges
  refine ⟨?_, fun u v huv => ?_⟩
  · refine (List.perm_ext_iff_of_nodup hordered.nodup (List.nodup_dedup _)).mpr fun id => ?_
    rw [mem_sorted_iff hs.nodup hlength, hs.mem, List.mem_dedup]
  · have hlink := (link_iff_precedes hedges).mpr huv
    exact hordered.idxOf_lt huv ((mem_sorted_iff hs.nodup hlength).mpr (mem_links.mp hlink).2.1)

theorem twoRoots_exact :
    ((∃ ids, validateDag twoRoots ["a".toList, "x".toList, "b".toList, "c".toList] = .ok ([], ids)) ↔
        ValidDag twoRoots) ∧
      ∀ ids, validateDag twoRoots ["a".toList, "x".toList, "b".toList, "c".toList] = .ok ([], ids) →
        ids.Perm (twoRoots.nodes.map Node.id).dedup ∧
          ∀ u v, Precedes twoRoots u v → ids.idxOf u < ids.idxOf v :=
  validateDag_exact twoRoots _ ⟨by decide, fun _ => Iff.rfl⟩ (by decide)

/-! ## Edges without an end -/

/-- The validation returns a list of errors, and the executor can be built and executed; where an edge
lacks an end, there is an error and the execution fails. -/
structure Reports (g : Graph) (order : List Text) (runCommand : Node → Outcome) : Prop where
  validated : ∃ errors ids, validateDag g order = .ok (errors, ids) ∧
    ((∃ e ∈ g.edges, e.hasEnds = false) → errors ≠ [])
  executed : ∃ x, execute g order runCommand = .ok x ∧
    ((∃ e ∈ g.edges, e.hasEnds = false) → x.result.success = false)

theorem validateDag_returns_iff :
    (∃ r, validateDag g order = .ok r) ↔ g.nodes = [] ∨ ∀ e ∈ g.edges, e.hasEnds = true := by
  unfold validateDag
  by_cases hnodes : g.nodes = []
  · rw [if_pos hnodes]
    exact iff_of_true ⟨_, rfl⟩ (.inl hnodes)
  · rw [if_neg hnodes, or_iff_right hnodes, ← List.all_eq_true]
    unfold topologicalSort
    by_cases hends : g.edges.all Edge.hasEnds = true
    · rw [if_pos hends]
      refine iff_of_true ?_ hends
      dsimp only
      by_cases hlength : (g.sorted order).length ≠ order.length
      · rw [if_pos hlength]
        exact ⟨_, rfl⟩
      · rw [if_neg hlength]
        exact ⟨_, rfl⟩
    · rw [if_neg hends]
      refine iff_of_false ?_ hends
      rintro ⟨r, h⟩
      cases h

/-- An execution of known ids returns, whatever the commands come to. -/
theorem executeFrom_returns (hsources : ∀ e ∈ g.edges, e.source.isSome = true)
    (runCommand : Node → Outcome) (p : Progress) {rest : List Text}
    (hrest : ∀ id ∈ rest, id ∈ g.nodes.map Node.id) :
    ∃ x, executeFrom g runCommand p rest = .ok x := by
  induction rest generalizing p with
  | nil => exact ⟨p.completed, rfl⟩
  | cons id rest ih =>
    have hrest' : ∀ id ∈ rest, id ∈ g.nodes.map Node.id :=
      fun i hi => hrest i (List.mem_cons_of_mem _ hi)
    obtain ⟨node, hnode, -, -⟩ := node_spec (hrest id (List.mem_cons_self ..))
    obtain ⟨take, htake⟩ := shouldExecute_returns hsources id p.contextKeys p.skipped
    unfold executeFrom
    rw [hnode, htake]
    cases take with
    | false => exact ih (p.skip id) hrest'
    | true =>
      show ∃ x, (if (!(executeNode runCommand node).outcome.success) = true then _ else _) = _
      split_ifs
      · exact ⟨_, rfl⟩
      · exact ih _ hrest'

theorem execute_returns_iff (hs : Seeds g order) (runCommand : Node → Outcome) :
    (∃ x, execute g order runCommand = .ok x) ↔ (∀ e ∈ g.edges, e.target.isSome = true) ∧
      (g.nodes = [] ∨ ∀ e ∈ g.edges, e.source.isSome = true) := by
  have hends : (∀ e ∈ g.edges, e.target.isSome = true) → ((∀ e ∈ g.edges, e.hasEnds = true) ↔
      ∀ e ∈ g.edges, e.source.isSome = true) := by
    intro htargets
    refine forall₂_congr fun e he => ?_
    rw [Edge.hasEnds, htargets e he, Bool.and_true]
  have hvalidates : (∃ r, validateDag g order = .ok r) ↔
      g.nodes = [] ∨ ∀ e ∈ g.edges, e.hasEnds = true := validateDag_returns_iff
  unfold execute
  by_cases htargets : (g.edges.all fun e => e.target.isSome) = true
  · rw [if_pos htargets]
    rw [List.all_eq_true] at htargets
    rw [and_iff_right htargets, ← hends htargets, ← hvalidates]
    constructor
    · rintro ⟨x, hx⟩
      cases hvalid : validateDag g order with
      | ok r => exact ⟨r, rfl⟩
      | error e =>
        rw [hvalid] at hx
        cases hx
    · rintro ⟨⟨errors, ids⟩, hvalid⟩
      rw [hvalid]
      show ∃ x, (if errors ≠ [] then _ else _) = _
      split_ifs with herrors
      · exact ⟨_, rfl⟩
      · rw [not_not] at herrors
        rw [herrors] at hvalid
        obtain ⟨-, hedges, -, ⟨hlength, rfl⟩, -⟩ := validateDag_eq_ok_nil_iff.mp hvalid
        have hsources : ∀ e ∈ g.edges, e.source.isSome = true := fun e he =>
          ((Bool.and_eq_true ..).mp (hasEnds_of_edgeErrors (hedges e he))).1
        refine executeFrom_returns hsources runCommand {} fun id hid => ?_
        rw [← hs.mem, ← mem_sorted_iff hs.nodup hlength]
        exact hid
  · rw [if_neg htargets]
    rw [List.all_eq_true] at htargets
    refine iff_of_false ?_ fun h => htargets h.1
    rintro ⟨x, hx⟩
    cases hx

/-- Of a graph that validates with errors, the execution fails. -/
theorem success_of_errors {errors ids : List Text} {runCommand : Node → Outcome} {x : Execution}
    (hvalid : validateDag g order = .ok (errors, ids)) (herrors : errors ≠ [])
    (hx : execute g order runCommand = .ok x) : x.result.success = false := by
  unfold execute at hx
  split_ifs at hx
  rw [hvalid] at hx
  have hx : (if errors ≠ [] then _ else _) = Except.ok x := hx
  rw [if_pos herrors] at hx
  cases hx
  rfl

/-- An edge that goes nowhere. -/
def openEdge : Graph where
  nodes := [⟨"a".toList, some "triage".toList⟩]
  edges := [⟨some "a".toList, none, none⟩]

/-- Every entry of the node list has run once, and after all that precede it. -/
structure RunsEach (g : Graph) (runCommand : Node → Outcome) (x : Execution) : Prop where
  once : x.result.nodeResults.Perm (g.nodes.map (executeNode runCommand))
  after : ∀ u v, Precedes g u v →
    (x.result.nodeResults.map NodeResult.nodeId).idxOf u <
      (x.result.nodeResults.map NodeResult.nodeId).idxOf v

/-- Without conditions, every node of an order is taken. -/
theorem pick_takes_eq (hconditions : ∀ e ∈ g.edges, e.condition = none)
    (hsources : ∀ e ∈ g.edges, e.source.isSome = true) {l : List Text} (h : Ordered (Precedes g) l) :
    pick (takes g) l = (l, []) := by
  induction h with
  | nil => rfl
  | @snoc l v _ _ hpred ih =>
    have hedges : ∀ (edges : List Edge) (has : Bool), (∀ e ∈ edges, e ∈ g.incoming v) →
        edgesHold (contextOf l) [] has edges = .ok (has || !edges.isEmpty) := by
      intro edges
      induction edges with
      | nil => exact fun has _ => congrArg Except.ok (Bool.or_false has).symm
      | cons e edges ihedges =>
        intro has hmem
        obtain ⟨he, htarget⟩ := List.mem_filter.mp (hmem e (List.mem_cons_self ..))
        obtain ⟨source, hsource⟩ := Option.isSome_iff_exists.mp (hsources e he)
        have hbefore : source ∈ l := hpred source ⟨e, he, hsource, of_decide_eq_true htarget⟩
        have hdone : ((contextOf l).get (doneKey source)).isNone = false := by
          rw [get_contextOf_doneKey, if_pos hbefore]
          rfl
        have hrest := ihedges true fun e' he' => hmem e' (List.mem_cons_of_mem _ he')
        unfold edgesHold
        simp only [hsource, hconditions e he, hdone, List.not_mem_nil, if_false, Bool.false_eq_true]
        rw [hrest]
        simp
    have htake : takes g v l [] = true := by
      unfold takes shouldExecute
      cases hincoming : g.incoming v with
      | nil => rfl
      | cons e edges =>
        have hhold := hedges (e :: edges) false fun e' he' => hincoming ▸ he'
        dsimp only
        rw [hhold]
        rfl
    rw [pick_snoc, ih, if_pos htake]

/-- The results of an execution are runs of the entries that the ids stand for. -/
def Entries (g : Graph) (runCommand : Node → Outcome) (results : List NodeResult) : Prop :=
  ∀ r ∈ results, ∃ node, g.node r.nodeId = some node ∧ r = executeNode runCommand node

theorem entries_executeFrom {runCommand : Node → Outcome} {p : Progress} {rest : List Text} {x : Execution}
    (hp : Entries g runCommand p.results) (hx : executeFrom g runCommand p rest = .ok x) :
    Entries g runCommand x.result.nodeResults := by
  induction rest generalizing p with
  | nil =>
    cases hx
    exact hp
  | cons id rest ih =>
    unfold executeFrom at hx
    cases hnode : g.node id with
    | none =>
      rw [hnode] at hx
      cases hx
    | some node =>
      have hid : node.id = id := by
        have hfound := List.find?_some hnode
        simpa using hfound
      have hrecord : Entries g runCommand (p.record (executeNode runCommand node)).results := by
        intro r hr
        rcases List.mem_append.mp hr with hr | hr
        · exact hp r hr
        · obtain rfl := List.mem_singleton.mp hr
          exact ⟨node, (congrArg g.node hid).trans hnode, rfl⟩
      rw [hnode] at hx
      cases htake : shouldExecute g id p.contextKeys p.skipped with
      | error e =>
        rw [htake] at hx
        cases hx
      | ok take =>
        rw [htake] at hx
        cases take with
        | false => exact ih (p := p.skip id) hp hx
        | true =>
          have hx : (if (!(executeNode runCommand node).outcome.success) = true then _ else _) =
              Except.ok x := hx
          split_ifs at hx
          · cases hx
            exact hrecord
          · exact ih (p := (p.record (executeNode runCommand node)).complete id) hrecord hx

/-- The execution of an accepted graph without conditions whose commands succeed. -/
theorem execute_unconditional {runCommand : Node → Outcome}
    (hsuccess : ∀ node ∈ g.nodes, (runCommand node).success = true) (hs : Seeds g order)
    (haccepts : Accepts g order) (hconditions : ∀ e ∈ g.edges, e.condition = none) :
    ∃ x, execute g order runCommand = .ok x ∧
      x.result.nodeResults.map NodeResult.nodeId = g.sorted order ∧
      Entries g runCommand x.result.nodeResults ∧ Ordered (Precedes g) (g.sorted order) ∧
      ∀ id, id ∈ g.sorted order ↔ id ∈ g.nodes.map Node.id := by
  obtain ⟨ids, hids⟩ := haccepts
  obtain ⟨-, hedges, -, ⟨hlength, rfl⟩, -⟩ := validateDag_eq_ok_nil_iff.mp hids
  have hends : ∀ e ∈ g.edges, e.source.isSome = true ∧ e.target.isSome = true :=
    fun e he => (Bool.and_eq_true ..).mp (hasEnds_of_edgeErrors (hedges e he))
  have hmem : ∀ id, id ∈ g.sorted order ↔ id ∈ g.nodes.map Node.id :=
    fun id => (mem_sorted_iff hs.nodup hlength).trans (hs.mem id)
  have hordered := ordered_precedes hs.nodup hedges
  have hbegin : Follows g {} [] := ⟨rfl, rfl, rfl⟩
  obtain ⟨p, hp, hfollows⟩ := executeFrom_eq hsuccess (fun e he => (hends e he).1) hbegin
    fun id hid => (hmem id).mp hid
  have hran := hfollows.ran
  rw [List.nil_append, pick_takes_eq hconditions (fun e he => (hends e he).1) hordered] at hran
  refine ⟨p.completed, ?_, hran, ?_, hordered, hmem⟩
  · unfold execute
    rw [if_pos (List.all_eq_true.mpr fun e he => (hends e he).2), hids]
    exact hp
  · refine entries_executeFrom ?_ hp
    intro r hr
    cases hr

/-- The runs of the entries come out as the entries themselves exactly when no two share an id. -/
theorem results_perm_iff {runCommand : Node → Outcome} {results : List NodeResult}
    (hentries : Entries g runCommand results) (hnodup : (results.map NodeResult.nodeId).Nodup)
    (hmem : ∀ id, id ∈ results.map NodeResult.nodeId ↔ id ∈ g.nodes.map Node.id) :
    results.Perm (g.nodes.map (executeNode runCommand)) ↔ (g.nodes.map Node.id).Nodup := by
  have hids : (g.nodes.map (executeNode runCommand)).map NodeResult.nodeId = g.nodes.map Node.id := by
    rw [List.map_map]
    rfl
  constructor
  · intro hperm
    rw [← hids, ← (hperm.map NodeResult.nodeId).nodup_iff]
    exact hnodup
  · intro hdistinct
    have hnode : ∀ node ∈ g.nodes, g.node node.id = some node := by
      intro node hin
      obtain ⟨node', hnode', hid, hin'⟩ := node_spec (List.mem_map_of_mem hin)
      have hsame : node' = node := List.inj_on_of_nodup_map hdistinct hin' hin hid
      rw [hnode', hsame]
    have hall : (g.nodes.map (executeNode runCommand)).Nodup := by
      refine List.Nodup.of_map NodeResult.nodeId ?_
      rwa [hids]
    refine (List.perm_ext_iff_of_nodup hnodup.of_map hall).mpr fun r => ?_
    rw [List.mem_map]
    constructor
    · intro hr
      obtain ⟨node, hnode', rfl⟩ := hentries r hr
      exact ⟨node, List.mem_reverse.mp (List.mem_of_find?_eq_some hnode'), rfl⟩
    · rintro ⟨node, hin, rfl⟩
      obtain ⟨r, hr, hid⟩ := List.mem_map.mp ((hmem node.id).mpr (List.mem_map_of_mem hin))
      obtain ⟨node', hnode', rfl⟩ := hentries r hr
      have hid' : node'.id = node.id := hid
      rw [show (executeNode runCommand node').nodeId = node.id from hid', hnode node hin] at hnode'
      obtain rfl := Option.some.inj hnode'
      exact hr

/-- An accepted graph without conditions whose commands succeed runs every entry of its node list once
exactly when no two entries share an id. -/
theorem execute_runs_each_iff (g : Graph) (order : List Text) (runCommand : Node → Outcome)
    (hs : Seeds g order) (haccepts : Accepts g order)
    (hconditions : ∀ e ∈ g.edges, e.condition = none)
    (hsuccess : ∀ node ∈ g.nodes, (runCommand node).success = true) :
    (∃ x, execute g order runCommand = .ok x ∧ RunsEach g runCommand x) ↔
      (g.nodes.map Node.id).Nodup := by
  obtain ⟨x, hx, hids, hentries, hordered, hmem⟩ :=
    execute_unconditional hsuccess hs haccepts hconditions
  have hperm := results_perm_iff hentries (hids ▸ hordered.nodup) (hids ▸ hmem)
  rw [← hperm]
  constructor
  · rintro ⟨x', hx', heach⟩
    cases hx.symm.trans hx'
    exact heach.once
  · intro honce
    refine ⟨x, hx, honce, fun u v huv => ?_⟩
    rw [hids]
    obtain ⟨ids, haccepts⟩ := haccepts
    obtain ⟨-, hedges, -, -, -⟩ := validateDag_eq_ok_nil_iff.mp haccepts
    have hlink := (link_iff_precedes hedges).mpr huv
    refine hordered.idxOf_lt huv ((hmem v).mpr ?_)
    exact (hs.mem v).mp (mem_links.mp hlink).2.1

/-- Two entries with one id. -/
def twoEntries : Graph where
  nodes := [⟨"a".toList, some "triage".toList⟩, ⟨"a".toList, some "review".toList⟩]
  edges := []

theorem twoEntries_lost :
    ¬∀ (g : Graph) (order : List Text) (runCommand : Node → Outcome), Seeds g order → Accepts g order →
      (∀ e ∈ g.edges, e.condition = none) → (∀ node ∈ g.nodes, (runCommand node).success = true) →
      ∃ x, execute g order runCommand = .ok x ∧ RunsEach g runCommand x := by
  intro h
  obtain ⟨x, hx, honce, -⟩ := h twoEntries ["a".toList] succeeding
    ⟨by decide, fun id => by simp [twoEntries]⟩ ⟨_, rfl⟩ (fun e he => by cases he) fun _ _ => rfl
  have hlength := honce.length_eq
  cases hx
  revert hlength
  decide

/-- Two entries with an edge from one to the other. -/
def oneEdge : Graph where
  nodes := [⟨"a".toList, some "triage".toList⟩, ⟨"b".toList, some "review".toList⟩]
  edges := [⟨some "a".toList, some "b".toList, none⟩]

theorem oneEdge_runs_each :
    (∃ x, execute oneEdge ["b".toList, "a".toList] succeeding = .ok x ∧ RunsEach oneEdge succeeding x) ↔
      (oneEdge.nodes.map Node.id).Nodup := by
  refine execute_runs_each_iff oneEdge _ succeeding ⟨by decide, fun id => ?_⟩ ⟨_, rfl⟩ ?_ fun _ _ => rfl
  · exact (List.Perm.swap ..).mem_iff
  · intro e he
    obtain rfl := List.mem_singleton.mp he
    rfl

end Dag

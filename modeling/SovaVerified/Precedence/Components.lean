import Mathlib.Data.List.Basic
import Mathlib.Logic.Relation
import Mathlib.Order.Nat
import Mathlib.Tactic.Common

/-!
# Components of a graph

The components of a finite graph, each found by a search in breadth from its first node. A search goes
through everything that can be reached (`mem_component_iff`, `mem_closure_iff`), and the whole graph is one
component exactly when every node can be reached from every other (`length_components_le_one_iff`).
-/

namespace Components

open Relation

variable {α : Type*}

/-! ## Searching -/

/-- The second node can be reached from the first one. -/
def Reach (neighbors : α → List α) : α → α → Prop :=
  ReflTransGen fun u v => v ∈ neighbors u

/-- The nodes of a graph with the neighbors of each. -/
structure Finite (ids : List α) (neighbors : α → List α) : Prop where
  closed : ∀ u ∈ ids, ∀ v ∈ neighbors u, v ∈ ids
  bounded : ∀ u ∈ ids, (neighbors u).length ≤ ids.length

variable {ids found queue : List α} {neighbors : α → List α} {node start u v : α}

/-- What holds of a search: everything it saw is a node that can be reached, and each neighbor of what
it found is found or queued. -/
structure Searching (ids : List α) (neighbors : α → List α) (start : α) (found queue : List α) :
    Prop where
  begun : start ∈ found ∨ start ∈ queue
  reached : ∀ v, v ∈ found ∨ v ∈ queue → v ∈ ids ∧ Reach neighbors start v
  open_ : ∀ u ∈ found, ∀ v ∈ neighbors u, v ∈ found ∨ v ∈ queue

theorem Searching.begin (hstart : start ∈ ids) : Searching ids neighbors start [] [start] := by
  refine ⟨.inr (List.mem_singleton.mpr rfl), ?_, ?_⟩
  · rintro v (hv | hv)
    · cases hv
    · rw [List.mem_singleton.mp hv]
      exact ⟨hstart, ReflTransGen.refl⟩
  · intro u hu
    cases hu

/-- A node that was found already leaves the queue. -/
theorem Searching.skip (h : Searching ids neighbors start found (node :: queue)) (hnode : node ∈ found) :
    Searching ids neighbors start found queue := by
  have hstays : ∀ v, v ∈ found ∨ v ∈ node :: queue → v ∈ found ∨ v ∈ queue := by
    rintro v (hv | hv)
    · exact .inl hv
    · rcases List.mem_cons.mp hv with heq | hv
      · exact .inl (heq ▸ hnode)
      · exact .inr hv
  refine ⟨hstays start h.begun, ?_, fun u hu v hv => hstays v (h.open_ u hu v hv)⟩
  exact fun v hv => h.reached v (hv.imp_right (List.mem_cons_of_mem _))

/-- A new node is found, and its neighbors are queued as far as they were not found before. -/
theorem Searching.find (hg : Finite ids neighbors)
    (h : Searching ids neighbors start found (node :: queue)) (hnode : node ∉ found) {pushed : List α}
    (hpushed : ∀ v ∈ pushed, v ∈ neighbors node)
    (hall : ∀ v ∈ neighbors node, v ∈ found ++ [node] ∨ v ∈ pushed) :
    Searching ids neighbors start (found ++ [node]) (queue ++ pushed) := by
  obtain ⟨hid, hreach⟩ := h.reached node (.inr (List.mem_cons_self ..))
  have hmem : ∀ w, w ∈ found ∨ w ∈ node :: queue → w ∈ found ++ [node] ∨ w ∈ queue ++ pushed := by
    rintro w (hw | hw)
    · exact .inl (List.mem_append_left _ hw)
    · rcases List.mem_cons.mp hw with rfl | hw
      · exact .inl (List.mem_append_right _ (List.mem_singleton.mpr rfl))
      · exact .inr (List.mem_append_left _ hw)
  refine ⟨hmem start h.begun, ?_, ?_⟩
  · rintro v (hv | hv)
    · rcases List.mem_append.mp hv with hv | hv
      · exact h.reached v (.inl hv)
      · rw [List.mem_singleton.mp hv]
        exact ⟨hid, hreach⟩
    · rcases List.mem_append.mp hv with hv | hv
      · exact h.reached v (.inr (List.mem_cons_of_mem _ hv))
      · have hedge := hpushed v hv
        exact ⟨hg.closed node hid v hedge, hreach.tail hedge⟩
  · intro u hu v hv
    rcases List.mem_append.mp hu with hu | hu
    · exact hmem v (h.open_ u hu v hv)
    · rw [List.mem_singleton.mp hu] at hv
      exact (hall v hv).imp_right (List.mem_append_right _)

/-- A search that has come to its end found what can be reached. -/
theorem Searching.mem_iff (h : Searching ids neighbors start found []) :
    v ∈ found ↔ Reach neighbors start v := by
  constructor
  · exact fun hv => (h.reached v (.inl hv)).2
  · intro hreach
    induction hreach with
    | refl => exact h.begun.resolve_right List.not_mem_nil
    | tail _ hedge ih => exact (h.open_ _ ih _ hedge).resolve_right List.not_mem_nil

/-! ## Searches -/

variable [DecidableEq α]

/-- The search: what was found, and what is queued. A node may be queued more than once. -/
def search (neighbors : α → List α) : Nat → List α → List α → List α
  | 0, found, _ => found
  | _ + 1, found, [] => found
  | fuel + 1, found, node :: queue =>
    if node ∈ found then search neighbors fuel found queue
    else
      search neighbors fuel (found ++ [node])
        (queue ++ (neighbors node).filter (· ∉ found ++ [node]))

/-- With at most `size` nodes and as many neighbors of each, `size * size + 1` turns are enough. -/
def component (neighbors : α → List α) (size : Nat) (start : α) : List α :=
  search neighbors (size * size + 1) [] [start]

/-- The search that queues every neighbor of a node, also those that were found before. -/
def collect (neighbors : α → List α) : Nat → List α → List α → List α
  | 0, found, _ => found
  | _ + 1, found, [] => found
  | fuel + 1, found, node :: queue =>
    if node ∈ found then collect neighbors fuel found queue
    else collect neighbors fuel (found ++ [node]) (queue ++ neighbors node)

def closure (neighbors : α → List α) (size : Nat) (start : α) : List α :=
  collect neighbors (size * size + 1) [] [start]

/-- One turn of the loop over the nodes: a node that was not found so far starts a component. -/
def addComponent (neighbors : α → List α) (size : Nat) (components : List (List α)) (start : α) :
    List (List α) :=
  if components.any (start ∈ ·) then components
  else components ++ [component neighbors size start]

def components (neighbors : α → List α) (ids : List α) : List (List α) :=
  ids.foldl (addComponent neighbors ids.length) []

/-- The turns that a search can still take. -/
def turns (ids found queue : List α) : Nat :=
  queue.length + (ids.filter (· ∉ found)).length * ids.length

theorem turns_find (queue : List α) {pushed : List α} (hnode : node ∈ ids) (hnew : node ∉ found)
    (hpushed : pushed.length ≤ ids.length) :
    turns ids (found ++ [node]) (queue ++ pushed) < turns ids found (node :: queue) := by
  have hmissing : (ids.filter (· ∉ found ++ [node])).length < (ids.filter (· ∉ found)).length := by
    have hfilter : ids.filter (· ∉ found ++ [node]) =
        (ids.filter (· ∉ found)).filter (· ≠ node) := by
      rw [List.filter_filter]
      refine List.filter_congr fun u _ => ?_
      simp [and_comm]
    rw [hfilter, List.length_filter_lt_length_iff_exists]
    exact ⟨node, by simp [hnode, hnew], by simp⟩
  obtain ⟨missing, hm⟩ := Nat.exists_eq_add_of_lt hmissing
  have hmul := Nat.mul_le_mul_right ids.length (Nat.succ_le_of_lt hmissing)
  rw [Nat.succ_mul] at hmul
  unfold turns
  rw [List.length_append, List.length_cons]
  omega

theorem turns_start (start : α) : turns ids [] [start] = ids.length * ids.length + 1 := by
  have hall : ids.filter (· ∉ ([] : List α)) = ids := List.filter_eq_self.mpr (by simp)
  unfold turns
  rw [hall, List.length_singleton, Nat.add_comm]

theorem Searching.queue_eq_nil (hfuel : turns ids found queue ≤ 0) : queue = [] := by
  unfold turns at hfuel
  exact List.length_eq_zero_iff.mp (by omega)

theorem Searching.search (hg : Finite ids neighbors) (fuel : Nat)
    (h : Searching ids neighbors start found queue) (hfuel : turns ids found queue ≤ fuel) :
    Searching ids neighbors start (search neighbors fuel found queue) [] := by
  induction fuel generalizing found queue with
  | zero =>
    rw [Searching.queue_eq_nil hfuel] at h
    exact h
  | succ fuel ih =>
    cases queue with
    | nil => exact h
    | cons node queue =>
      unfold Components.search
      by_cases hnode : node ∈ found
      · rw [if_pos hnode]
        refine ih (h.skip hnode) ?_
        unfold turns at hfuel ⊢
        rw [List.length_cons] at hfuel
        omega
      · rw [if_neg hnode]
        have hid := (h.reached node (.inr (List.mem_cons_self ..))).1
        refine ih (h.find hg hnode (fun v hv => List.mem_of_mem_filter hv) ?_) ?_
        · intro v hv
          by_cases hfound : v ∈ found ++ [node]
          · exact .inl hfound
          · exact .inr (List.mem_filter.mpr ⟨hv, by simpa using hfound⟩)
        · have := turns_find queue hid hnode
            ((List.length_filter_le (· ∉ found ++ [node]) _).trans (hg.bounded node hid))
          omega

theorem nodup_collect (neighbors : α → List α) (fuel : Nat) (queue : List α) (h : found.Nodup) :
    (collect neighbors fuel found queue).Nodup := by
  induction fuel generalizing found queue with
  | zero => exact h
  | succ fuel ih =>
    cases queue with
    | nil => exact h
    | cons node queue =>
      unfold collect
      split_ifs with hnode
      · exact ih queue h
      · refine ih _ (List.nodup_append.mpr ⟨h, List.nodup_cons.mpr ⟨List.not_mem_nil, List.nodup_nil⟩, ?_⟩)
        intro a ha b hb hab
        rw [List.mem_singleton] at hb
        exact hnode (hb ▸ hab ▸ ha)

/-- A search that queues every neighbor finds the same. -/
theorem Searching.collect (hg : Finite ids neighbors) (fuel : Nat)
    (h : Searching ids neighbors start found queue) (hfuel : turns ids found queue ≤ fuel) :
    Searching ids neighbors start (collect neighbors fuel found queue) [] := by
  induction fuel generalizing found queue with
  | zero =>
    rw [Searching.queue_eq_nil hfuel] at h
    exact h
  | succ fuel ih =>
    cases queue with
    | nil => exact h
    | cons node queue =>
      unfold Components.collect
      by_cases hnode : node ∈ found
      · rw [if_pos hnode]
        refine ih (h.skip hnode) ?_
        unfold turns at hfuel ⊢
        rw [List.length_cons] at hfuel
        omega
      · rw [if_neg hnode]
        have hid := (h.reached node (.inr (List.mem_cons_self ..))).1
        refine ih (h.find hg hnode (fun v hv => hv) fun v hv => .inr hv) ?_
        have := turns_find queue hid hnode (hg.bounded node hid)
        omega

/-- A component is what can be reached from its first node. -/
theorem mem_component_iff (hg : Finite ids neighbors) (hstart : start ∈ ids) :
    v ∈ component neighbors ids.length start ↔ Reach neighbors start v :=
  ((Searching.begin hstart).search hg _ (turns_start start).le).mem_iff

theorem mem_closure_iff (hg : Finite ids neighbors) (hstart : start ∈ ids) :
    v ∈ closure neighbors ids.length start ↔ Reach neighbors start v :=
  ((Searching.begin hstart).collect hg _ (turns_start start).le).mem_iff

theorem nodup_closure (neighbors : α → List α) (size : Nat) (start : α) :
    (closure neighbors size start).Nodup :=
  nodup_collect neighbors _ _ List.nodup_nil

theorem length_le_foldl_addComponent (neighbors : α → List α) (size : Nat) (l : List α) (cs : List (List α)) :
    cs.length ≤ (l.foldl (addComponent neighbors size) cs).length := by
  induction l generalizing cs with
  | nil => exact le_refl _
  | cons v l ih =>
    rw [List.foldl_cons]
    refine le_trans ?_ (ih _)
    unfold addComponent
    split
    · exact le_refl _
    · rw [List.length_append]
      exact Nat.le_add_right ..

/-- After the first component there is another one exactly when it lacks a node. -/
theorem length_foldl_addComponent_le_one_iff (size : Nat) (l c : List α) :
    (l.foldl (addComponent neighbors size) [c]).length ≤ 1 ↔ ∀ v ∈ l, v ∈ c := by
  induction l with
  | nil => simp
  | cons v l ih =>
    rw [List.foldl_cons, List.forall_mem_cons]
    by_cases hv : v ∈ c
    · have hskip : addComponent neighbors size [c] v = [c] := if_pos (by simpa using hv)
      rw [hskip, ih]
      exact ⟨fun h => ⟨hv, h⟩, fun h => h.2⟩
    · have hadd : addComponent neighbors size [c] v = [c, component neighbors size v] :=
        if_neg (by simpa using hv)
      have hlength := length_le_foldl_addComponent neighbors size l
        [c, component neighbors size v]
      rw [List.length_cons, List.length_singleton] at hlength
      rw [hadd]
      refine iff_of_false ?_ fun h => hv h.1
      omega

/-- The graph is one component exactly when it is connected. -/
theorem length_components_le_one_iff (hg : Finite ids neighbors)
    (hsymm : ∀ u v, v ∈ neighbors u → u ∈ neighbors v) :
    (components neighbors ids).length ≤ 1 ↔ ∀ u ∈ ids, ∀ v ∈ ids, Reach neighbors u v := by
  have hreach : ∀ {u v}, Reach neighbors u v → Reach neighbors v u := by
    intro u v huv
    induction huv with
    | refl => exact ReflTransGen.refl
    | tail _ hedge ih => exact ReflTransGen.head (hsymm _ _ hedge) ih
  cases hids : ids with
  | nil => simp [components]
  | cons start rest =>
    have hstart : start ∈ ids := hids ▸ List.mem_cons_self ..
    have hmem := fun v => mem_component_iff (v := v) hg hstart
    rw [hids] at hmem
    unfold components
    have hfirst : addComponent neighbors (start :: rest).length [] start =
        [component neighbors (start :: rest).length start] := by
      simp [addComponent]
    rw [List.foldl_cons, hfirst, length_foldl_addComponent_le_one_iff]
    constructor
    · intro h u hu v hv
      have hfrom : ∀ w ∈ start :: rest, Reach neighbors start w := by
        intro w hw
        rcases List.mem_cons.mp hw with rfl | hw
        · exact ReflTransGen.refl
        · exact (hmem w).mp (h w hw)
      exact (hreach (hfrom u hu)).trans (hfrom v hv)
    · intro h v hv
      exact (hmem v).mpr (h start (List.mem_cons_self ..) v (List.mem_cons_of_mem _ hv))

end Components

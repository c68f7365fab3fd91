import SovaVerified.Supervisor.Proofs.DependencyGraphProofs
import SovaVerified.Supervisor.Proofs.QueueMaintenanceProofs

/-!
# Cycles and readiness

`validate` reports as members of cycles the tasks that depend on a cycle, directly or not
(`mem_cycleMembers_iff`); these are the tasks on cycles exactly when nothing else depends on a cycle. The
issues that are ready are the same in every view of the graph, since each classifies a task in one way.
-/

namespace Supervisor

open Relation Precedence Adapters

namespace BuiltGraph

variable (g : BuiltGraph) {issue dep u v : Int} {task : Task} {suitabilities : Option (Assoc Int Suitability)}

/-! ## Cycles -/

/-- The issue depends on itself, over other issues. -/
def OnCycle (issue : Int) : Prop := TransGen g.DependsOn issue issue

theorem OnCycle.hasTask {g : BuiltGraph} (h : g.OnCycle issue) : g.hasTask issue = true := by
  obtain ⟨dep, hdep, -⟩ := TransGen.head'_iff.mp h
  exact g.hasTask_of_mem_getDependencies hdep.1

theorem edge_nodes_iff :
    Kahn.Edge (g.nodes.insertionSort (· ≤ ·)) (fun nid => (g.rdeps nid).filter (· ∈ g.nodes)) u v ↔
      g.Before u v := by
  have hedge : Kahn.Edge g.nodes g.rdeps u v ↔ g.Before u v := g.edge_iff
  unfold Kahn.Edge at hedge ⊢
  rw [List.mem_insertionSort, List.mem_filter, decide_eq_true_eq, ← hedge]
  constructor
  · exact fun h => ⟨h.1, h.2.1⟩
  · exact fun h => ⟨h.1, h.2, g.counted_nodes.closed u h.1 v h.2⟩

/-- What the topological order of all tasks leaves out. -/
theorem mem_topoSort_nodes_iff :
    issue ∈ g.topoSort g.nodes (g.buildInDegree g.nodes) ↔ g.hasTask issue = true ∧ g.CycleFree issue := by
  have hedges : Kahn.Edge (g.nodes.insertionSort (· ≤ ·))
      (fun nid => (g.rdeps nid).filter (· ∈ g.nodes)) = g.Before := by
    funext u v
    exact propext g.edge_nodes_iff
  unfold topoSort
  rw [Kahn.mem_sort_iff (g.counted_filter g.nodup_nodes), List.mem_insertionSort, hedges, grounded_iff,
    mem_nodes]

theorem mem_cycleMembers_iff :
    issue ∈ g.validate.cycleMembers ↔ g.hasTask issue = true ∧ ¬g.CycleFree issue := by
  show issue ∈ (g.nodes.filter (· ∉ g.topoSort g.nodes (g.buildInDegree g.nodes))).insertionSort (· ≤ ·) ↔ _
  rw [List.mem_insertionSort, List.mem_filter, decide_eq_true_eq, mem_topoSort_nodes_iff, mem_nodes]
  constructor
  · exact fun h => ⟨h.1, fun hfree => h.2 ⟨h.1, hfree⟩⟩
  · exact fun h => ⟨h.1, fun hfree => h.2 hfree.2⟩

theorem not_cycleFree_of_onCycle (h : g.OnCycle issue) : ¬g.CycleFree issue :=
  fun hfree => hfree issue ReflTransGen.refl h

/-- The reported members are the tasks on cycles exactly when only these depend on a task on a cycle. -/
theorem cycleMembers_exact_iff (g : BuiltGraph) :
    (∀ issue, issue ∈ g.validate.cycleMembers ↔ g.OnCycle issue) ↔
      ∀ issue dep, g.DependsOn issue dep → g.OnCycle dep → g.OnCycle issue := by
  constructor
  · intro hexact issue dep hdep hcycle
    refine (hexact issue).mp (g.mem_cycleMembers_iff.mpr ⟨?_, ?_⟩)
    · exact g.hasTask_of_mem_getDependencies hdep.1
    · exact fun hfree => hfree dep (ReflTransGen.single hdep) hcycle
  · intro hback issue
    rw [mem_cycleMembers_iff]
    constructor
    · rintro ⟨-, hnot⟩
      unfold CycleFree at hnot
      push Not at hnot
      obtain ⟨dep, hreach, hcycle⟩ := hnot
      -- From the cycle that is reached back to the issue, every node lies on a cycle.
      induction hreach using ReflTransGen.head_induction_on with
      | refl => exact hcycle
      | head hdep _ ih => exact hback _ _ hdep ih
    · exact fun h => ⟨h.hasTask, g.not_cycleFree_of_onCycle h⟩

/-! The first two issues depend on each other, and the third one on the first. -/

def waitingTasks : List GraphTask :=
  [⟨1, { number := some 1 }, [2]⟩, ⟨2, { number := some 2 }, [1]⟩, ⟨3, { number := some 3 }, [1]⟩]

def waiting : BuiltGraph := ofTasks waitingTasks (by decide) (by decide)

theorem waiting_cycleMembers :
    ¬∀ issue, issue ∈ waiting.validate.cycleMembers ↔ waiting.OnCycle issue := by
  intro hexact
  have hmember : (3 : Int) ∈ waiting.validate.cycleMembers := by decide
  have hcycle := (hexact 3).mp hmember
  -- No issue depends on the third one.
  obtain ⟨u, -, hdep⟩ := TransGen.tail'_iff.mp hcycle
  have hu : u ∈ ([1, 2, 3] : List Int) :=
    waiting.hasTask_iff.mp (waiting.hasTask_of_mem_getDependencies hdep.1)
  have hnone : ∀ u ∈ ([1, 2, 3] : List Int), 3 ∉ waiting.getDependencies u := by decide
  exact hnone u hu hdep.1

/-! ## Readiness -/

theorem perm_sortedTasks : g.sortedTasks.Perm g.tasks := List.perm_insertionSort ..

theorem mem_sortedTasks : (issue, task) ∈ g.sortedTasks ↔ g.getTask issue = some task := by
  rw [g.perm_sortedTasks.mem_iff]
  exact Assoc.mem_iff_get g.nodup_tasks

/-- A precomputed classification is the one that would be made. -/
def Correct (suitabilities : Assoc Int Suitability) : Prop :=
  ∀ issue task suitability, Assoc.get suitabilities issue = some suitability →
    g.getTask issue = some task → suitability = g.suitability task

/-- The turn of a task whose precomputed classification, if there is one, is correct. -/
theorem isReadyTask_eq (h : g.Correct (suitabilities.getD [])) (htask : g.getTask issue = some task) :
    g.isReadyTask suitabilities (issue, task) = eligible (g.suitability task) task := by
  have hsuitability : (Assoc.get (suitabilities.getD []) issue).getD (g.suitability task) =
      g.suitability task := by
    cases hget : Assoc.get (suitabilities.getD []) issue with
    | none => rfl
    | some suitability => exact h issue task suitability hget htask
  unfold isReadyTask eligible
  dsimp only
  rw [hsuitability]
  cases excludedFromReady task.state with
  | true => simp
  | false => simp

theorem correct_nil : g.Correct [] := fun _ _ _ hget => nomatch hget

/-- A partial map of correct classifications changes nothing. -/
theorem getReadyTasks_eq (h : g.Correct (suitabilities.getD [])) :
    g.getReadyTasks suitabilities =
      (g.sortedTasks.filter fun entry => eligible (g.suitability entry.2) entry.2).map Prod.fst := by
  unfold getReadyTasks
  refine congrArg (List.map Prod.fst) (List.filter_congr fun entry hentry => ?_)
  exact g.isReadyTask_eq h (g.mem_sortedTasks.mp hentry)

theorem mem_getReadyTasks_iff (h : g.Correct (suitabilities.getD [])) :
    issue ∈ g.getReadyTasks suitabilities ↔
      ∃ task, g.getTask issue = some task ∧ eligible (g.suitability task) task = true := by
  rw [g.getReadyTasks_eq h, List.mem_map]
  constructor
  · rintro ⟨⟨issue, task⟩, hentry, rfl⟩
    obtain ⟨hentry, heligible⟩ := List.mem_filter.mp hentry
    exact ⟨task, g.mem_sortedTasks.mp hentry, heligible⟩
  · rintro ⟨task, htask, heligible⟩
    exact ⟨(issue, task), List.mem_filter.mpr ⟨g.mem_sortedTasks.mpr htask, heligible⟩, rfl⟩

theorem mem_getReadyTasks_none_iff :
    issue ∈ g.getReadyTasks none ↔
      ∃ task, g.getTask issue = some task ∧ eligible (g.suitability task) task = true :=
  g.mem_getReadyTasks_iff g.correct_nil

/-- The classifications that `to_dict` passes on are correct. -/
theorem correct_nodes : g.Correct (g.sortedTasks.map fun entry => (entry.1, g.suitability entry.2)) := by
  intro issue task suitability hget htask
  obtain ⟨⟨issue', task'⟩, hentry, heq⟩ := List.mem_map.mp (Assoc.mem_of_get hget)
  obtain ⟨rfl, rfl⟩ := Prod.mk.inj heq
  have htask' := g.mem_sortedTasks.mp hentry
  rw [htask] at htask'
  exact (Option.some.inj htask') ▸ rfl

theorem filter_eligible_nodes :
    (g.toDict.nodes.filter Node.eligible).map Node.id =
      (g.sortedTasks.filter fun entry => eligible (g.suitability entry.2) entry.2).map Prod.fst := by
  have hnodes : g.toDict.nodes = g.sortedTasks.map g.node := rfl
  rw [hnodes, List.filter_map, List.map_map]
  rfl

theorem not_agentEligible_of_isEpic (h : isEpic task.labels = true) :
    (g.suitability task).mode.agentEligible = false := by
  unfold suitability assessSuitability
  rw [if_pos h]
  rfl

end BuiltGraph

namespace IssueGraph

variable {g : IssueGraph} {issue dep : Int} {task : Task}

theorem number_eq (h : g.getTask issue = some task) : task.number = some issue :=
  g.number (issue, task) ((Assoc.mem_iff_get g.nodup_tasks).mpr h)

/-- An issue that is eligible waits for nothing: the graph knows its dependencies, and none is open. -/
theorem satisfied_of_agentEligible (htask : g.getTask issue = some task)
    (h : (g.suitability task).mode.agentEligible = true) (hdep : dep ∈ g.getDependencies issue) :
    ∃ depTask, g.getTask dep = some depTask ∧ (depTask.state = .done ∨ isEpic depTask.labels = true) := by
  have hblock := dependencyBlock_eq_none_of_agentEligible h
  have hnode : g.hasTask issue = true := by
    unfold DependencyGraph.hasTask
    rw [htask]
    rfl
  have hunsatisfied : unsatisfiedDependencies issue (some g.toDependencyGraph) = some [] := by
    unfold dependencyBlock taskDependencies at hblock
    rw [number_eq htask, Option.bind_some] at hblock
    split at hblock
    · cases hblock
    · next hnil => exact hnil
    · cases hblock
  unfold unsatisfiedDependencies at hunsatisfied
  simp only [hnode, if_true, Option.some.injEq] at hunsatisfied
  have hnot : g.blocks dep = false := by
    have hnone := List.filter_eq_nil_iff.mp hunsatisfied dep (by simpa using hdep)
    simpa using hnone
  unfold DependencyGraph.blocks at hnot
  cases hget : g.getTask dep with
  | none =>
    rw [hget] at hnot
    cases hnot
  | some depTask =>
    rw [hget] at hnot
    refine ⟨depTask, rfl, ?_⟩
    cases hepic : isEpic depTask.labels with
    | true => exact .inr rfl
    | false =>
      refine .inl ?_
      simpa [hepic] using hnot

/-- What is ready: no issue that waits for another one, the same in every view of the graph, and whatever
of the classifications is passed on. -/
theorem getReadyTasks_spec (g : IssueGraph) :
    (∀ issue ∈ g.getReadyTasks none, ∀ dep ∈ g.getDependencies issue, ∃ depTask,
      g.getTask dep = some depTask ∧ (depTask.state = .done ∨ isEpic depTask.labels = true)) ∧
    (∀ issue ∈ g.getReadyTasks none, ∀ dep ∈ g.getReadyTasks none, dep ∉ g.getDependencies issue) ∧
    (g.toDict.nodes.filter BuiltGraph.Node.eligible).map BuiltGraph.Node.id = g.getReadyTasks none ∧
    g.toDict.ready = g.getReadyTasks none ∧
    ∀ suitabilities, g.Correct suitabilities →
      g.getReadyTasks (some suitabilities) = g.getReadyTasks none := by
  have hready : g.getReadyTasks none =
      (g.sortedTasks.filter fun entry => BuiltGraph.eligible (g.suitability entry.2) entry.2).map Prod.fst :=
    g.getReadyTasks_eq g.correct_nil
  have hsatisfied : ∀ issue ∈ g.getReadyTasks none, ∀ dep ∈ g.getDependencies issue, ∃ depTask,
      g.getTask dep = some depTask ∧ (depTask.state = .done ∨ isEpic depTask.labels = true) := by
    intro issue hissue dep hdep
    obtain ⟨task, htask, heligible⟩ := g.mem_getReadyTasks_none_iff.mp hissue
    exact satisfied_of_agentEligible htask (Bool.and_eq_true_iff.mp heligible).1 hdep
  refine ⟨hsatisfied, ?_, ?_, ?_, ?_⟩
  · -- A dependency that is done or an epic is not ready itself.
    intro issue hissue dep hdepReady hdep
    obtain ⟨depTask, hdepTask, hdone⟩ := hsatisfied issue hissue dep hdep
    obtain ⟨depTask', hdepTask', heligible⟩ := g.mem_getReadyTasks_none_iff.mp hdepReady
    rw [hdepTask] at hdepTask'
    cases hdepTask'
    obtain ⟨hmode, hstate⟩ := Bool.and_eq_true_iff.mp heligible
    rcases hdone with hdone | hepic
    · rw [hdone] at hstate
      cases hstate
    · rw [g.not_agentEligible_of_isEpic hepic] at hmode
      cases hmode
  · rw [BuiltGraph.filter_eligible_nodes, hready]
  · have hdict : g.toDict.ready = g.getReadyTasks
        (some (g.sortedTasks.map fun entry => (entry.1, g.suitability entry.2))) := rfl
    rw [hdict, hready]
    exact g.getReadyTasks_eq g.correct_nodes
  · intro suitabilities hcorrect
    rw [hready]
    exact g.getReadyTasks_eq hcorrect

end IssueGraph

end Supervisor

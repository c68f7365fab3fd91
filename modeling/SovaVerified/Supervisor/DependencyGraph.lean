import SovaVerified.Exceptions.Exceptions
import SovaVerified.Precedence.Components
import SovaVerified.Precedence.Layers
import SovaVerified.Supervisor.Suitability
import SovaVerified.Utils.Markdown

/-!
# The dependency graph

`sova/supervisor/dependency_graph.py`: the graph of the issues with the dependencies that their bodies
name, the chain of dependencies of an issue, the tiers of issues that can be worked on in parallel, and the
issues that are ready to be worked on.

The constructor reads the tasks once and keeps the dependencies in both directions. `build_dependency_graph`
gives it the values of a dictionary with the ids as keys, so no two tasks have one id. The sets that the
constructor builds are lists without repetition, in the order in which they are gone through; that order is
none that the program chooses.
-/

namespace Supervisor

open Adapters

/-- `_EXCLUDED_FROM_READY`. -/
def excludedFromReady : TaskState → Bool
  | .done | .inProgress | .inReview | .humanOnly => true
  | _ => false

/-- A task as the constructor reads it: with `int(task.id)`, and with what `parse_dependencies` finds in
its body. -/
structure GraphTask where
  id : Int
  task : Task
  dependencies : List Int

/-- A `DependencyGraph` with its reverse edges, as the constructor leaves it. -/
structure BuiltGraph extends DependencyGraph where
  /-- `_rdeps`. -/
  rdeps : Int → List Int
  nodup_tasks : (tasks.map Prod.fst).Nodup
  /-- Only tasks have dependencies. -/
  keys : ∀ issue ∈ deps.map Prod.fst, issue ∈ tasks.map Prod.fst
  nodup_deps : ∀ issue, (toDependencyGraph.getDependencies issue).Nodup
  nodup_rdeps : ∀ dep, (rdeps dep).Nodup
  mem_rdeps : ∀ dep issue, issue ∈ rdeps dep ↔ dep ∈ toDependencyGraph.getDependencies issue

namespace BuiltGraph

/-- `DependencyGraph.__init__`, for tasks with different ids. -/
def ofTasks (tasks : List GraphTask) (hids : (tasks.map GraphTask.id).Nodup)
    (hsets : ∀ t ∈ tasks, t.dependencies.Nodup) : BuiltGraph where
  tasks := tasks.map fun t => (t.id, t.task)
  deps := tasks.map fun t => (t.id, t.dependencies)
  rdeps dep := (tasks.filter fun t => dep ∈ t.dependencies).map GraphTask.id
  nodup_tasks := by
    rw [List.map_map]
    exact hids
  keys issue h := by
    rw [List.map_map] at h ⊢
    exact h
  nodup_deps issue := by
    unfold DependencyGraph.getDependencies
    cases hget : Assoc.get (tasks.map fun t => (t.id, t.dependencies)) issue with
    | none => exact List.nodup_nil
    | some deps =>
      obtain ⟨t, ht, heq⟩ := List.mem_map.mp (Assoc.mem_of_get hget)
      cases heq
      exact hsets t ht
  nodup_rdeps dep := hids.sublist (List.filter_sublist.map GraphTask.id)
  mem_rdeps dep issue := by
    have hkeys : ((tasks.map fun t => (t.id, t.dependencies)).map Prod.fst).Nodup := by
      rw [List.map_map]
      exact hids
    unfold DependencyGraph.getDependencies
    rw [List.mem_map]
    constructor
    · rintro ⟨t, ht, rfl⟩
      obtain ⟨ht, hdep⟩ := List.mem_filter.mp ht
      have hget : Assoc.get (tasks.map fun t => (t.id, t.dependencies)) t.id = some t.dependencies :=
        (Assoc.mem_iff_get hkeys).mp (List.mem_map.mpr ⟨t, ht, rfl⟩)
      rw [hget]
      exact of_decide_eq_true hdep
    · intro hdep
      cases hget : Assoc.get (tasks.map fun t => (t.id, t.dependencies)) issue with
      | none =>
        rw [hget] at hdep
        cases hdep
      | some deps =>
        rw [hget] at hdep
        obtain ⟨t, ht, heq⟩ := List.mem_map.mp (Assoc.mem_of_get hget)
        cases heq
        exact ⟨t, List.mem_filter.mpr ⟨ht, decide_eq_true hdep⟩, rfl⟩

/-- `nodes`. -/
def nodes (g : BuiltGraph) : List Int := (g.tasks.map Prod.fst).insertionSort (· ≤ ·)

/-- `_build_in_degree`. -/
def buildInDegree (g : BuiltGraph) (nodeIds : List Int) (tid : Int) : Int :=
  ((g.getDependencies tid).filter (· ∈ nodeIds)).length

/-- `_topo_sort`. -/
def topoSort (g : BuiltGraph) (nodeIds : List Int) (inDegree : Int → Int) : List Int :=
  Kahn.sort (fun nid => (g.rdeps nid).filter (· ∈ nodeIds)) inDegree (nodeIds.insertionSort (· ≤ ·))

/-- The dependencies that a search goes on to. -/
def knownDependencies (g : BuiltGraph) (issue : Int) : List Int :=
  (g.getDependencies issue).filter g.hasTask

/-- `_collect_transitive_deps`. Every node but the issue is a task. -/
def collectTransitiveDeps (g : BuiltGraph) (issue : Int) : List Int :=
  Components.closure g.knownDependencies (g.tasks.length + 1) issue

def getChain (g : BuiltGraph) (issue : Int) : List Int :=
  let visited := g.collectTransitiveDeps issue
  g.topoSort visited (g.buildInDegree visited)

structure ParallelGroup where
  tier : Nat
  taskIds : List Int
  deriving DecidableEq

/-- The tiers are sorted, since each is taken from the sorted nodes. -/
def getParallelGroups (g : BuiltGraph) : List ParallelGroup :=
  (Layers.peel g.rdeps g.nodes.length g.nodes (g.buildInDegree g.nodes)).mapIdx
    fun tier taskIds => { tier, taskIds }

structure ValidationResult where
  valid : Bool
  cycleMembers : List Int := []
  missingRefs : List Int := []
  deriving DecidableEq

/-- `validate`. The members of cycles are what Kahn's algorithm leaves over. -/
def validate (g : BuiltGraph) : ValidationResult :=
  let missing := ((g.deps.flatMap Prod.snd).filter (· ∉ g.nodes)).eraseDups
  let sorted := g.topoSort g.nodes (g.buildInDegree g.nodes)
  let cycleMembers := (g.nodes.filter (· ∉ sorted)).insertionSort (· ≤ ·)
  { valid := cycleMembers.length == 0 && missing.length == 0
    cycleMembers
    missingRefs := missing.insertionSort (· ≤ ·) }

/-! ## What is ready -/

/-- `sorted(self._tasks.items())`: no two tasks have one id. -/
def sortedTasks (g : BuiltGraph) : List (Int × Task) := g.tasks.insertionSort fun a b => a.1 ≤ b.1

/-- `assess_suitability(task, self)`. -/
def suitability (g : BuiltGraph) (task : Task) : Suitability :=
  assessSuitability task (some g.toDependencyGraph) none true

/-- `mode in AGENT_ELIGIBLE_MODES and task.state not in _EXCLUDED_FROM_READY`. -/
def eligible (suitability : Suitability) (task : Task) : Bool :=
  suitability.mode.agentEligible && !excludedFromReady task.state

/-- The turn of `get_ready_tasks` for a task: whether it is ready. A `Suitability` is always true. -/
def isReadyTask (g : BuiltGraph) (suitabilities : Option (Assoc Int Suitability)) (entry : Int × Task) :
    Bool :=
  if excludedFromReady entry.2.state then false
  else
    let suitability := (Assoc.get (suitabilities.getD []) entry.1).getD (g.suitability entry.2)
    suitability.mode.agentEligible

def getReadyTasks (g : BuiltGraph) (suitabilities : Option (Assoc Int Suitability)) : List Int :=
  (g.sortedTasks.filter (g.isReadyTask suitabilities)).map Prod.fst

/-! ## The graph as a dictionary -/

/-- `edges`: the dependents with their dependencies. -/
def edges (g : BuiltGraph) : List (Int × Int) :=
  (g.deps.insertionSort fun a b => a.1 ≤ b.1).flatMap fun entry =>
    (entry.2.insertionSort (· ≤ ·)).map fun dep => (entry.1, dep)

/-- A node of `to_dict`, without what it shows of pull requests, agents and specs. -/
structure Node where
  id : Int
  state : TaskState
  dependencies : List Int
  priority : Priority
  isEpic : Bool
  isHumanOnly : Bool
  isInteractiveRecommended : Bool
  suitability : Suitability
  eligible : Bool
  deriving DecidableEq

def node (g : BuiltGraph) (entry : Int × Task) : Node :=
  let suitability := g.suitability entry.2
  { id := entry.1
    state := entry.2.state
    dependencies := (g.getDependencies entry.1).insertionSort (· ≤ ·)
    priority := entry.2.priority
    isEpic := isEpic entry.2.labels
    isHumanOnly := isHumanOnly entry.2.labels
    isInteractiveRecommended := isInteractiveRecommended entry.2.labels && !isHumanOnly entry.2.labels
    suitability
    eligible := eligible suitability entry.2 }

structure Dictionary where
  nodes : List Node
  edges : List (Int × Int)
  ready : List Int
  parallelGroups : List ParallelGroup
  validation : ValidationResult
  deriving DecidableEq

/-- `to_dict`. It passes on the classifications that it has made for the nodes. -/
def toDict (g : BuiltGraph) : Dictionary :=
  let suitabilities := g.sortedTasks.map fun entry => (entry.1, g.suitability entry.2)
  { nodes := g.sortedTasks.map g.node
    edges := g.edges.filter fun edge => g.hasTask edge.2
    ready := g.getReadyTasks (some suitabilities)
    parallelGroups := g.getParallelGroups
    validation := g.validate }

end BuiltGraph

/-- A graph with its tasks under their own numbers, as the constructor puts them there. -/
structure IssueGraph extends BuiltGraph where
  number : ∀ entry ∈ tasks, entry.2.number = some entry.1

/-- `DependencyGraph.__init__`, with the numbers of the tasks. -/
def IssueGraph.ofTasks (tasks : List GraphTask) (hids : (tasks.map GraphTask.id).Nodup)
    (hsets : ∀ t ∈ tasks, t.dependencies.Nodup) (hnumber : ∀ t ∈ tasks, t.task.number = some t.id) :
    IssueGraph where
  toBuiltGraph := BuiltGraph.ofTasks tasks hids hsets
  number entry hentry := by
    obtain ⟨t, ht, rfl⟩ := List.mem_map.mp hentry
    exact hnumber t ht

end Supervisor

/-!
# The dependencies that an issue names

`parse_dependencies` of `sova/supervisor/dependency_graph.py`: the references in the first section of an
issue body that is headed as its dependencies. The warning about several such sections is left out.
-/

namespace Supervisor

open Utils

/-- The pattern that the heading is looked for with, between `^` and `$`. -/
def dependenciesHeadingRe : Regex :=
  .seq (Regex.exact "## ") (.seq (.cap 1 (Regex.lit "dependencies")) Regex.spaces)

/-- The heading as the body has it. The fences of the body are not looked at. -/
def headingText (body : Text) : Option Text :=
  (Regex.searchLines dependenciesHeadingRe body).bind fun m => m.1.get 1

/-- The section that is read. -/
def dependenciesSection (body : Text) : Text :=
  match headingText body with
  | some heading => Markdown.extractSection body heading false
  | none => []

/-- `_DEP_PATTERN.findall`: the digits of each reference. No digit is a number sign, so the search may go
on behind the sign. -/
def references : Text → List Text
  | [] => []
  | c :: t =>
    let digits := t.takeWhile Text.isDecimal
    if c = '#' ∧ digits ≠ [] then digits :: references t else references t

/-- `int(ref)`, which takes no more than `sys.get_int_max_str_digits()` digits. -/
def readReference (ref : Text) : Except PyException Int :=
  if 4300 < ref.length then .error .valueError else .ok (Text.toNat ref)

def parseDependencies (body : Text) (excludeSelf : Option Int) : Except PyException (List Int) :=
  if body = [] then .ok []
  else
    let deps := (references (dependenciesSection body)).mapM readReference
    deps.map fun deps => (deps.filter fun dep => some dep ≠ excludeSelf).eraseDups

end Supervisor

import SovaVerified.Supervisor.Suitability

/-!
# Queue maintenance

`sova/supervisor/queue_maintenance.py`: the pass that prunes and refills the task queue of a config
snapshot, and the changes a planner asks for. The queue a pass would store is computed here; where it
is stored, and what else can happen meanwhile, is the subject of `SovaVerified.Supervisor.TaskQueue`.
-/

namespace Supervisor

open Adapters

/-- The part of `SupervisorConfig` that a poll reads for the queue. -/
structure SupervisorConfig where
  enabled : Bool := true
  autoQueue : Bool := true
  llmPlanning : Bool := false
  respectDependencies : Bool := true
  /-- Unlimited when it is not positive. -/
  maxQueueSize : Int := 10
  taskQueue : List Int := []
  deriving DecidableEq

/-- What one maintenance pass gets to see of the world. -/
structure MaintenanceInputs where
  connectivityBlock : Bool := false
  rateLimitBlock : Bool := false
  /-- What `adapter.list_tasks()` returns; `none` when it raises. -/
  listTasks : Option (List Task)
  /-- What `build_dependency_graph` returns; `none` when it raises. -/
  dependencyGraph : Option DependencyGraph := none
  /-- The latest local assessments; `none` without a store, or when reading it raises. -/
  assessments : Option (Assoc Int Text) := none
  deriving DecidableEq

def doneStates : List TaskState := [.done, .humanOnly]

def readyStates : List TaskState := [.researched]

def agentInFlightStates : List TaskState := [.inProgress, .inReview, .onQa]

structure QueueMaintenanceResult where
  previous : List Int
  current : List Int
  removed : List Int := []
  added : List Int := []
  changed : Bool := false
  deriving DecidableEq

/-- `task_objects`: the last task listed under a number; a task without a number is left out. The
`task_map` of the source is the state of these. -/
def taskObjects (tasks : List Task) : Assoc Int Task :=
  tasks.foldl (fun m task => match task.number with
    | some n => Assoc.put m n task
    | none => m) []

def taskState (objects : Assoc Int Task) (issue : Int) : Option TaskState :=
  (Assoc.get objects issue).map Task.state

/-- The issue is missing from the tracker, or done. -/
def isPrunedDone (objects : Assoc Int Task) (issue : Int) : Bool :=
  match taskState objects issue with
  | none => true
  | some state => doneStates.contains state

def pruneDone (queue : List Int) (objects : Assoc Int Task) : List Int :=
  queue.filter fun issue => !isPrunedDone objects issue

/-- `none` when the size is unlimited. -/
def remainingCapacity (maxQueueSize : Int) (currentQueueLen : Nat) : Option Nat :=
  if maxQueueSize > 0 then some (maxQueueSize - currentQueueLen).toNat else none

/-- An issue that a pass may append: in a ready state and not queued. -/
def isReadyCandidate (queue : List Int) (issue : Int) (task : Task) : Bool :=
  readyStates.contains task.state && !queue.contains issue

def readyCandidateIds (queue : List Int) (objects : Assoc Int Task) : List Int :=
  (objects.filter fun entry => isReadyCandidate queue entry.1 entry.2).map Prod.fst

def isInFlight (objects : Assoc Int Task) (issue : Int) : Bool :=
  match taskState objects issue with
  | none => false
  | some state => agentInFlightStates.contains state

/-- The local records of the given issues. -/
def resolveLocalAssessments (store : Option (Assoc Int Text)) (ids : List Int) : Assoc Int Text :=
  match store with
  | none => []
  | some records => records.filter fun entry => ids.contains entry.1

/-- The local record of an issue, dropped when a label already decides. -/
def applicableAssessment (localAssessments : Assoc Int Text) (issue : Int) (task : Task) :
    Option Text :=
  if localAssessmentApplies task.labels then Assoc.get localAssessments issue else none

/-- A queued issue that `_prune_unsuitable` drops: no agent is at work on it and its mode, with
dependencies left aside, withholds it. -/
def isUnsuitable (objects : Assoc Int Task) (localAssessments : Assoc Int Text) (issue : Int) : Bool :=
  if isInFlight objects issue then false
  else match Assoc.get objects issue with
    | none => false
    | some task =>
      let localAssessment := applicableAssessment localAssessments issue task
      !(assessSuitability task none localAssessment false).mode.agentEligible

def pruneUnsuitable (queue : List Int) (objects : Assoc Int Task)
    (localAssessments : Assoc Int Text) : List Int :=
  queue.filter fun issue => !isUnsuitable objects localAssessments issue

/-- A discovered candidate passes the classifier, dependencies included where the graph knows it. -/
def isDiscoverable (graph : Option DependencyGraph) (localAssessments : Assoc Int Text)
    (issue : Int) (task : Task) : Bool :=
  let localAssessment := applicableAssessment localAssessments issue task
  let hasGraphData := graph.any fun g => g.hasTask issue
  (assessSuitability task graph localAssessment hasGraphData).mode.agentEligible

/-- By priority, then by number. -/
def sortsBefore (a b : Int × Task) : Bool :=
  a.2.priority.rank < b.2.priority.rank ||
    (a.2.priority.rank == b.2.priority.rank && a.1 ≤ b.1)

def discoverReady (currentQueue : List Int) (objects : Assoc Int Task) (maxQueueSize : Int)
    (graph : Option DependencyGraph) (localAssessments : Assoc Int Text) : List Int :=
  let capacity := remainingCapacity maxQueueSize currentQueue.length
  if capacity = some 0 then []
  else
    let candidates := objects.filter fun entry =>
      isReadyCandidate currentQueue entry.1 entry.2 &&
        isDiscoverable graph localAssessments entry.1 entry.2
    let sorted := (candidates.insertionSort (sortsBefore · ·)).map Prod.fst
    match capacity with
    | some n => sorted.take n
    | none => sorted

/-- The tasks a pass works from: none when a gate or a failed listing stops it, or when the tracker
lists nothing although something is queued. -/
def maintenanceTasks (previous : List Int) (inputs : MaintenanceInputs) : Option (List Task) :=
  if inputs.connectivityBlock then none
  else if inputs.rateLimitBlock then none
  else match inputs.listTasks with
    | none => none
    | some tasks => if tasks.isEmpty && !previous.isEmpty then none else some tasks

/-- The local assessments that a pass looks up. -/
def passAssessments (pruned : List Int) (objects : Assoc Int Task) (maxQueueSize : Int)
    (store : Option (Assoc Int Text)) : Assoc Int Text :=
  let recheckIds := pruned.filter fun issue => !isInFlight objects issue
  let discoveryIds :=
    if remainingCapacity maxQueueSize pruned.length ≠ some 0 ∨ recheckIds ≠ [] then
      readyCandidateIds pruned objects
    else []
  let ids := (discoveryIds ++ recheckIds).filter fun issue =>
    (Assoc.get objects issue).any fun task => localAssessmentApplies task.labels
  resolveLocalAssessments store ids

/-- The dependency graph is built only when a candidate could be appended. -/
def passGraph (config : SupervisorConfig) (pruned : List Int) (objects : Assoc Int Task)
    (built : Option DependencyGraph) : Option DependencyGraph :=
  if config.respectDependencies ∧ remainingCapacity config.maxQueueSize pruned.length ≠ some 0 ∧
      readyCandidateIds pruned objects ≠ [] then built
  else none

/-- `maintain_queue` up to the point where it stores the queue; `changed` says whether it will. -/
def maintainQueue (config : SupervisorConfig) (inputs : MaintenanceInputs) : QueueMaintenanceResult :=
  let previous := config.taskQueue
  match maintenanceTasks previous inputs with
  | none => { previous, current := previous }
  | some tasks =>
    let objects := taskObjects tasks
    let pruned := pruneDone previous objects
    let graph := passGraph config pruned objects inputs.dependencyGraph
    let localAssessments := passAssessments pruned objects config.maxQueueSize inputs.assessments
    let suitableQueue := pruneUnsuitable pruned objects localAssessments
    let added := discoverReady suitableQueue objects config.maxQueueSize graph localAssessments
    let current := suitableQueue ++ added
    { previous, current,
      removed := (previous.filter fun issue => !pruned.contains issue) ++
        (pruned.filter fun issue => !suitableQueue.contains issue)
      added
      changed := decide (current ≠ previous) }

/-! ## The planner -/

/-- The queue part of a planner's answer. -/
structure QueuePlan where
  removals : List Int := []
  reorder : List Int := []
  deriving DecidableEq

/-- The suggested order without the removals, each issue once. -/
def QueuePlan.normalized (plan : QueuePlan) : List Int :=
  (plan.reorder.filter fun issue => !plan.removals.contains issue).eraseDups

def sameElements (a b : List Int) : Bool :=
  a.all b.contains && b.all a.contains

/-- `apply_planner_queue_changes` up to the point where it stores the queue: the new queue and whether
it counts as changed. -/
def applyPlannerQueueChanges (queue : List Int) (plan : QueuePlan) : List Int × Bool :=
  let kept := queue.filter fun issue => !plan.removals.contains issue
  let removedSome := kept.length != queue.length
  let normalized := plan.normalized
  if plan.reorder.isEmpty then (kept, removedSome)
  else if sameElements normalized kept then (normalized, true)
  else if normalized.all kept.contains then
    (normalized ++ kept.filter (fun issue => !normalized.contains issue), true)
  else (kept, removedSome)

/-! ## Storing the queue

Whether `save_task_queue` goes through is the argument `saved`. -/

/-- `maintain_queue` to its end: the config it leaves, and its result. -/
def maintainQueueSaved (config : SupervisorConfig) (inputs : MaintenanceInputs) (saved : Bool) :
    SupervisorConfig × QueueMaintenanceResult :=
  let result := maintainQueue config inputs
  if result.changed then
    if saved then ({ config with taskQueue := result.current }, result)
    else (config, { result with current := result.previous, changed := false })
  else (config, result)

/-- `apply_planner_queue_changes` to its end: the config it leaves, and the queue it returns. -/
def applyPlannerQueueChangesSaved (config : SupervisorConfig) (plan : QueuePlan) (saved : Bool) :
    SupervisorConfig × List Int :=
  let changes := applyPlannerQueueChanges config.taskQueue plan
  if changes.2 then
    if saved then ({ config with taskQueue := changes.1 }, changes.1)
    else (config, config.taskQueue)
  else (config, changes.1)

end Supervisor

import SovaVerified.Runs.Runs
import SovaVerified.Supervisor.QueueMaintenance

/-!
# The stored task queue and its two writers

The dashboard's queue endpoints (`sova/dashboard/routers/supervisor.py`) and the polls of the daemon
(`sova/supervisor/daemon.py`) write the same setting, `supervisor.task_queue`. An endpoint holds
`_queue_lock` from its read of the setting to its answer; a poll works on the config it loaded when it
began, and takes no lock. Reading, storing and answering are steps of their own, so that a poll may
store its queue between any two steps of an edit, and an edit between any two steps of a poll.
-/

namespace Supervisor

/-- A request to a queue endpoint. -/
inductive QueueEdit where
  | setQueue (issueNumbers : List Int)
  | addToQueue (issueNumber : Int)
  | removeFromQueue (issueNumber : Int)
  | clearQueue
  /-- The migration that `get_queue` runs first, with the queue of the config it loads. -/
  | migrateFromToml (tomlQueue : List Int)
  deriving DecidableEq

/-- The request that holds `_queue_lock`. -/
inductive EditPhase where
  /-- About to store the given queue. -/
  | storing (edit : QueueEdit) (queue : List Int)
  /-- Stored; about to notify the daemon and to answer. -/
  | stored (edit : QueueEdit)
  deriving DecidableEq

inductive PollPhase where
  | queueMaintenance
  | progression
  deriving DecidableEq

structure Poll where
  cfg : SupervisorConfig
  phase : PollPhase
  /-- The daemon's `_config` is still this very object. -/
  shared : Bool
  deriving DecidableEq

structure QueueState where
  /-- The setting `supervisor.task_queue`. -/
  stored : List Int
  edit : Option EditPhase := none
  /-- The daemon's `_config`. -/
  config : SupervisorConfig := {}
  /-- The poll that holds `_poll_lock`. -/
  poll : Option Poll := none
  deriving DecidableEq

/-- What `load_config` comes back with. -/
inductive LoadOutcome where
  /-- Settings read from the database; their queue is the stored one. -/
  | fresh (settings : SupervisorConfig)
  /-- The last good config or the other layers alone, served while the database is unreadable. -/
  | degraded (config : SupervisorConfig)
  | raised
  deriving DecidableEq

/-- The config of a load, when it returns one. A stored queue that does not validate raises. -/
def loadConfig (stored : List Int) : LoadOutcome → Option SupervisorConfig
  | .fresh settings =>
    if stored.all (0 < ·) then some { settings with taskQueue := stored } else none
  | .degraded config => some config
  | .raised => none

/-- `load_task_queue`: a malformed queue reads as empty. -/
def loadTaskQueue (stored : List Int) : List Int :=
  if stored.all (0 < ·) then stored else []

/-- The queue that an edit is about to store, or `none` when it answers 409 or 404, or has nothing to
migrate. -/
def editedQueue (stored : List Int) : QueueEdit → Option (List Int)
  | .setQueue issueNumbers => some issueNumbers.eraseDups
  | .addToQueue issueNumber =>
    let queue := loadTaskQueue stored
    if queue.contains issueNumber then none else some (queue ++ [issueNumber])
  | .removeFromQueue issueNumber =>
    let queue := loadTaskQueue stored
    if queue.contains issueNumber then some (queue.erase issueNumber) else none
  | .clearQueue => some []
  | .migrateFromToml tomlQueue =>
    if (loadTaskQueue stored).isEmpty && !tomlQueue.isEmpty then some tomlQueue else none

inductive QueueAction where
  /-- A request takes the lock, reads the stored queue and either answers at once or goes on. -/
  | beginEdit (edit : QueueEdit)
  /-- The request stores its queue; a write that fails is answered with 503. -/
  | storeEdit (persisted : Bool)
  /-- The daemon is notified, if one is registered, and the request answers with success. -/
  | answerEdit (notify : Option LoadOutcome)
  /-- A poll begins with a reload of the config. -/
  | beginPoll (load : LoadOutcome)
  | maintain (inputs : MaintenanceInputs) (persisted : Bool)
  /-- The progression phase, with the plan if there is one; it ends the poll. -/
  | progress (plan : Option QueuePlan) (persisted : Bool)
  /-- The poll ends early: no adapter, or a cancelled daemon. -/
  | abortPoll
  deriving DecidableEq

/-- A poll stores a queue: on success the setting and the config it works on change. -/
def savePolled (s : QueueState) (poll : Poll) (queue : List Int) (persisted : Bool) :
    QueueState × SupervisorConfig :=
  if persisted then
    let cfg := { poll.cfg with taskQueue := queue }
    ({ s with
        stored := queue
        config := if poll.shared then cfg else s.config }, cfg)
  else (s, poll.cfg)

/-- The maintenance phase of a poll. -/
def maintainStep (s : QueueState) (poll : Poll) (inputs : MaintenanceInputs) (persisted : Bool) :
    QueueState :=
  let result := maintainQueue poll.cfg inputs
  if poll.cfg.autoQueue && result.changed then
    let saved := savePolled s poll result.current persisted
    { saved.1 with poll := some { poll with cfg := saved.2, phase := .progression } }
  else { s with poll := some { poll with phase := .progression } }

/-- The plan that a poll's progression phase applies to the queue. -/
def appliedPlan (cfg : SupervisorConfig) (plan : Option QueuePlan) : Option QueuePlan :=
  if cfg.llmPlanning && cfg.autoQueue then
    plan.filter fun p => !p.removals.isEmpty || !p.reorder.isEmpty
  else none

/-- The progression phase of a poll, as far as it touches the queue. -/
def progressStep (s : QueueState) (poll : Poll) (plan : Option QueuePlan) (persisted : Bool) :
    QueueState :=
  match appliedPlan poll.cfg plan with
  | none => { s with poll := none }
  | some p =>
    let changes := applyPlannerQueueChanges poll.cfg.taskQueue p
    if changes.2 then { (savePolled s poll changes.1 persisted).1 with poll := none }
    else { s with poll := none }

def queueStep (s : QueueState) : QueueAction → Option QueueState
  | .beginEdit edit =>
    match s.edit with
    | some _ => none
    | none => some { s with edit := (editedQueue s.stored edit).map (.storing edit) }
  | .storeEdit persisted =>
    match s.edit with
    | some (.storing edit queue) =>
      if persisted then some { s with stored := queue, edit := some (.stored edit) }
      else some { s with edit := none }
    | _ => none
  | .answerEdit notify =>
    match s.edit with
    | some (.stored _) =>
      match notify.bind (loadConfig s.stored) with
      | some config =>
        some { s with
          edit := none
          config := config
          poll := s.poll.map fun poll => { poll with shared := false } }
      | none => some { s with edit := none }
    | _ => none
  | .beginPoll load =>
    match s.poll with
    | some _ => none
    | none =>
      let cfg := (loadConfig s.stored load).getD s.config
      some { s with
        config := cfg
        poll := if cfg.enabled then some { cfg, phase := .queueMaintenance, shared := true } else none }
  | .maintain inputs persisted =>
    match s.poll with
    | some poll =>
      if poll.phase = .queueMaintenance then some (maintainStep s poll inputs persisted) else none
    | none => none
  | .progress plan persisted =>
    match s.poll with
    | some poll =>
      if poll.phase = .progression then some (progressStep s poll plan persisted) else none
    | none => none
  | .abortPoll => s.poll.map fun _ => { s with poll := none }

/-! ## What removes an issue -/

/-- The removal rules of a maintenance pass name the issue: the pass gets to apply them, and the issue
is missing from the tracker, done, or unsuitable. -/
def maintenanceNames (config : SupervisorConfig) (inputs : MaintenanceInputs) (issue : Int) : Bool :=
  match maintenanceTasks config.taskQueue inputs with
  | none => false
  | some tasks =>
    let objects := taskObjects tasks
    isPrunedDone objects issue || isUnsuitable objects (inputs.assessments.getD []) issue

/-- The edit takes the issue out of the queue. -/
def editRemoves (issue : Int) : QueueEdit → Bool
  | .setQueue issueNumbers => !issueNumbers.contains issue
  | .removeFromQueue issueNumber => issueNumber == issue
  | .clearQueue => true
  | .addToQueue _ | .migrateFromToml _ => false

/-- The step removes the issue by right: it stores an edit that takes the issue out of the queue, or
the rules of a maintenance pass or the removals of a plan name it. -/
def removes (issue : Int) (s : QueueState) : QueueAction → Bool
  | .storeEdit persisted =>
    persisted && match s.edit with
      | some (.storing edit _) => editRemoves issue edit
      | _ => false
  | .maintain inputs persisted =>
    persisted && s.poll.any fun poll => maintenanceNames poll.cfg inputs issue
  | .progress plan persisted => persisted && plan.any fun p => p.removals.contains issue
  | _ => false

/-- The write of a request to add the issue goes through, which the request answers with success. -/
def AddSucceeds (issue : Int) (s : QueueState) (a : QueueAction) : Prop :=
  a = .storeEdit true ∧ ∃ queue, s.edit = some (.storing (.addToQueue issue) queue)

/-- Every stored issue is in the config that the poll works on. -/
def snapshotCovers (s : QueueState) : Bool :=
  s.poll.all fun poll => s.stored.all poll.cfg.taskQueue.contains

/-- The writer of this step has seen what is stored: a poll that stores a queue works on a snapshot
with every stored issue, and an edit that reads the stored queue finds it well formed. -/
def upToDate (s : QueueState) : QueueAction → Bool
  | .beginEdit _ => s.stored.all (0 < ·)
  | .maintain _ persisted => !persisted || snapshotCovers s
  | .progress _ persisted => !persisted || snapshotCovers s
  | _ => true

end Supervisor

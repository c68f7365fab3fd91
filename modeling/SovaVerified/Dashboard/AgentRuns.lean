import SovaVerified.Dashboard.Lifecycle

/-!
# The runs of agents

`sova/dashboard/services/agent_db.py`, `agent_pool.py` and `agent_validation.py`: the rows of
`task_runs`, the pool of the agents that the dashboard has started, and the operations on them that
starting, approving and recovering share. Each operation is one transaction.

A time is a number. Of a row the columns are kept that these services read or write and that decide
something; of an agent in the pool, its run and its issue.
-/

namespace Dashboard

/-- The status column: a `TaskStatus`, or one of the two words that only the dashboard writes. -/
inductive RunStatus where
  | running
  | pending
  | assessing
  | researched
  | inProgress
  | developing
  | simplifying
  | reviewing
  | committing
  | pushing
  | prCreated
  | ciMonitoring
  | automatedReview
  | addressingReview
  | awaitingApproval
  | done
  | paused
  | failed
  | rejected
  | interrupted
  | stopped
  deriving DecidableEq, Repr

namespace RunStatus

/-- The word that the column holds. -/
def value : RunStatus → Text
  | running => "running".toList
  | pending => "pending".toList
  | assessing => "assessing".toList
  | researched => "researched".toList
  | inProgress => "in_progress".toList
  | developing => "developing".toList
  | simplifying => "simplifying".toList
  | reviewing => "reviewing".toList
  | committing => "committing".toList
  | pushing => "pushing".toList
  | prCreated => "pr_created".toList
  | ciMonitoring => "ci_monitoring".toList
  | automatedReview => "automated_review".toList
  | addressingReview => "addressing_review".toList
  | awaitingApproval => "awaiting_approval".toList
  | done => "done".toList
  | paused => "paused".toList
  | failed => "failed".toList
  | rejected => "rejected".toList
  | interrupted => "interrupted".toList
  | stopped => "stopped".toList

end RunStatus

/-- `TASK_RUN_TERMINAL`. -/
def taskRunTerminal : List RunStatus :=
  [.done, .failed, .rejected, .interrupted, .paused, .awaitingApproval, .stopped]

structure TaskRun where
  id : Nat
  issueNumber : Option Text
  role : Text := "developer".toList
  status : RunStatus := .pending
  prNumber : Option Nat := none
  pid : Option Int := none
  totalCostUsd : ℚ := 0
  errorMessage : Option Text := none
  -- the entry `suitability_check` of `assessment_json`
  suitabilityCheck : Option Text := none
  startedAt : Nat
  endedAt : Option Nat := none
  deriving DecidableEq

def TaskRun.isTerminal (run : TaskRun) : Bool := taskRunTerminal.contains run.status

/-- An agent in the pool. -/
structure AgentState where
  runId : Nat
  issue : Text
  deriving DecidableEq

structure ProjectAgents where
  agents : List AgentState := []
  maxConcurrent : Nat := 2
  deriving DecidableEq

/-- What the services of one project share: the table of runs and the pool. -/
structure Control where
  runs : List TaskRun := []
  pool : ProjectAgents := {}
  deriving DecidableEq

namespace Control

/-- `session.get`. -/
def run (c : Control) (id : Nat) : Option TaskRun := Tables.get TaskRun.id id c.runs

def setRun (c : Control) (id : Nat) (f : TaskRun → TaskRun) : Control :=
  { c with runs := Tables.updateWhere (fun r => r.id == id) f c.runs }

def managedIds (c : Control) : List Nat := c.pool.agents.map AgentState.runId

/-- The id that the table gives to a new row. -/
def nextRunId (c : Control) : Nat := (c.runs.map TaskRun.id).foldl max 0 + 1

/-- `pa.agents[run_id] = agent`. -/
def register (c : Control) (agent : AgentState) : Control :=
  { c with pool := { c.pool with agents := c.pool.agents ++ [agent] } }

end Control

/-! ## Processes -/

/-- What `os.kill(pid, 0)` does. -/
inductive Signalled where
  | sent
  | notPermitted
  | failed
  deriving DecidableEq, Repr

/-- `is_process_alive`: the process of another user counts as alive. -/
def isProcessAlive (kill : Int → Signalled) (pid : Int) : Bool :=
  if pid ≤ 0 then false
  else
    match kill pid with
    | .sent => true
    | .notPermitted => true
    | .failed => false

/-! ## The check for a conflict -/

/-- The dictionary that a request answers with when it fails. The keys that nothing here reads are
left out. -/
structure AgentError where
  error : Text
  detail : Option Text := none
  code : Option Text := none
  existingRunId : Option Nat := none
  running : Option Nat := none
  deriving DecidableEq

/-- The agent of the pool that already works on the issue. -/
def poolConflict (c : Control) (issue : Text) : Option AgentError :=
  (c.pool.agents.find? fun a => a.issue == issue).map fun a =>
    { error := "Issue #".toList ++ issue ++ " already has an active agent (run ".toList ++
        Text.ofInt a.runId ++ ")".toList
      existingRunId := some a.runId }

/-- The runs of the issue that are not finished and have a process. -/
def openRuns (c : Control) (issue : Text) : List TaskRun :=
  c.runs.filter fun r => r.issueNumber == some issue && !r.isTerminal && r.pid.isSome

/-- The loop over the open runs: those whose process is gone, up to the first run with a live process,
which is the conflict unless it is forced. -/
def scanOpenRuns (kill : Int → Signalled) (managed : List Nat) (force : Bool) :
    List TaskRun → List TaskRun × Option TaskRun
  | [] => ([], none)
  | run :: runs =>
    if managed.contains run.id then scanOpenRuns kill managed force runs
    else if run.pid.any (isProcessAlive kill) then
      if force then scanOpenRuns kill managed force runs else ([], some run)
    else
      let found := scanOpenRuns kill managed force runs
      (run :: found.1, found.2)

def externalConflict (issue : Text) (run : TaskRun) : AgentError :=
  { error := "Issue #".toList ++ issue ++ " already has an active agent (external run ".toList ++
      Text.ofInt run.id ++ ", PID ".toList ++ Text.ofInt (run.pid.getD 0) ++ ")".toList
    existingRunId := some run.id }

/-- A run whose process is no longer there. -/
def markStale (now : Nat) (run : TaskRun) : TaskRun :=
  { run with
    status := .interrupted
    errorMessage := some "Stale run: process no longer alive".toList
    endedAt := some now }

/-- `_check_issue_conflict`. A database error is logged and counts as no conflict. -/
def checkIssueConflict (kill : Int → Signalled) (dbFails : Bool) (now : Nat) (issue : Text)
    (force : Bool) (c : Control) : Option AgentError × Control :=
  match if force then none else poolConflict c issue with
  | some e => (some e, c)
  | none =>
    if dbFails then (none, c)
    else
      let found := scanOpenRuns kill c.managedIds force (openRuns c issue)
      (found.2.map (externalConflict issue),
        { c with runs := Tables.updateWhere found.1.contains (markStale now) c.runs })

/-! ## The row of a run -/

/-- `_create_task_run`. The row normalises the number of its issue once more. -/
def createTaskRun (c : Control) (issue : Option Text) (role : Text) (prNumber : Option Nat)
    (suitabilityCheck : Option Text) (now : Nat) : Nat × Control :=
  let row : TaskRun :=
    { id := c.nextRunId
      issueNumber := issue.map normalizeIssueNumber
      role := role
      status := .running
      prNumber := prNumber
      suitabilityCheck := suitabilityCheck
      startedAt := now }
  (row.id, { c with runs := c.runs ++ [row] })

/-- `_update_task_run_pid`. -/
def updateTaskRunPid (c : Control) (runId : Nat) (pid : Int) : Control :=
  c.setRun runId fun r => { r with pid := some pid }

/-- `_finalize_orphaned_run`. -/
def finalizeOrphanedRun (c : Control) (runId now : Nat) : Control :=
  c.setRun runId fun r =>
    { r with
      status := .failed
      errorMessage := some "Process spawn failed".toList
      endedAt := some now }

end Dashboard

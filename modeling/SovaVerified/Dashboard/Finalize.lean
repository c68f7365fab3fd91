import SovaVerified.Dashboard.Recovery
import SovaVerified.Exceptions.Exceptions

/-!
# The end of an agent

`_wait_and_finalize` of `sova/dashboard/services/agent_finalize.py` with the calls it makes up to the removal
of the agent from the pool: it waits for the process, looks whether a failed merge went through after all,
writes the row of the run, and checks what the run has done.

Each call is a part of the outside that returns or raises. A handler catches the classes that its `except`
names, so the class of an exception decides how far it goes. What comes after the removal from the pool
(the broadcasts, the notification and the handoff) is left out: it writes neither the pool nor the row.
-/

namespace Dashboard

open Exceptions

/-! ## The wait for the process -/

/-- The attempt to stop a process whose run is already finished: `stop`, and when that raises, `kill` and
the wait after it. `none` is a call that returns. -/
structure Stopping where
  stop : Option PyException := none
  kill : Option PyException := none
  wait : Option PyException := none
  returncode : Option Int := none
  deriving DecidableEq

/-- How the wait for a process goes on. Meanwhile others write the status of the run, most of all the process
itself. -/
inductive Waiting where
  | exits (written : Option RunStatus) (code : Int)
  | raises (written : Option RunStatus) (e : PyException) (notTimeout : e ≠ .timeoutError)
  | timesOut (written : Option RunStatus) (readFails : Bool) (stopping : Stopping) (rest : Waiting)

/-- The status that others have written. -/
def Control.written (c : Control) (runId : Nat) (status : Option RunStatus) : Control :=
  match status with
  | none => c
  | some status => c.setRun runId fun r => { r with status := status }

/-- `_is_run_terminal_in_db`. A run without a row counts as terminal. -/
def isRunTerminalInDb (readFails : Bool) (runId : Nat) (c : Control) : Bool :=
  if readFails then false else (c.run runId).all TaskRun.isTerminal

/-- The process is stopped or killed, and its exit code is read. -/
def stopHanging (s : Stopping) : Except PyException Int :=
  let code := s.returncode.getD (-1)
  match s.stop with
  | none => .ok code
  | some _ =>
    match s.kill with
    | some e => if e.isOsError then .ok code else .error e
    | none =>
      match s.wait with
      | some e => if e = .timeoutError then .ok code else .error e
      | none => .ok code

/-- `_wait_with_terminal_check`. -/
def waitWithTerminalCheck (runId : Nat) : Waiting → Control → Except PyException Int × Control
  | .exits written code, c => (.ok code, c.written runId written)
  | .raises written e _, c => (.error e, c.written runId written)
  | .timesOut written readFails stopping rest, c =>
    let c := c.written runId written
    if isRunTerminalInDb readFails runId c then (stopHanging stopping, c)
    else waitWithTerminalCheck runId rest c

/-! ## What the calls answer -/

/-- `OutcomeValidation`. -/
structure OutcomeValidation where
  failureReason : Option Text := none
  networkBlocked : Bool := false
  deriving DecidableEq

/-- The agent whose process is waited for. -/
structure ExitingAgent extends AgentState where
  role : Text
  prNumber : Option Nat := none
  lastResultCost : Option ℚ := none
  outputWriter : Bool := false
  deriving DecidableEq

/-- What the calls of one finalization answer. -/
structure FinalizeOutside where
  now : Nat
  -- what the stream parser has reported, after the reader is drained
  streamFailure : Option Text := none
  -- `_check_pr_merged_on_failure`: `cfg.github_repo` and `get_pr_status`
  mergedRepo : Except PyException Text := .ok []
  prState : Except PyException Text := .ok []
  -- `_check_merge_queue_on_failure`: `cfg.github_repo`, `in_queue`, the branch and the entry
  queueRepo : Except PyException Text := .ok []
  inQueue : Except PyException Bool := .ok false
  branchLookup : Except PyException Text := .ok []
  createEntry : Except PyException Unit := .ok ()
  -- `_check_merge_queue_marker_file`: the marker files, and what the handling of each one does
  markers : Except PyException (List (Except PyException Unit)) := .ok []
  -- `output_writer.close`
  writerClose : Except PyException Unit := .ok ()
  -- `_finalize_task_run`: the handoff, the session with the read of the row, the rest up to the commit,
  -- and what follows the commit
  readHandoff : Except PyException Unit := .ok ()
  session : Except PyException Unit := .ok ()
  commit : Except PyException Unit := .ok ()
  afterCommit : Except PyException Unit := .ok ()
  terminationRecord : Option Text := none
  currentStep : Option Text := none
  -- the redacted tail of the output in one line
  outputTail : Text := []
  memorySnapshot : Option Text := none
  -- the validator of the command, `_check_pipeline_steps` and the transaction of `_downgrade_to_failed`
  validator : Except PyException OutcomeValidation := .ok {}
  pipelineSteps : Except PyException (Option Text) := .ok none
  downgrade : Except PyException Unit := .ok ()

/-! ## A merge that failed -/

/-- `_check_pr_merged_on_failure`. -/
def checkPrMergedOnFailure (o : FinalizeOutside) : Except PyException Bool :=
  handling PyException.isOsOrRuntime false do
    let repo ← o.mergedRepo
    if repo.isEmpty then return false
    let state ← o.prState
    return state == "MERGED".toList

/-- `_check_merge_queue_on_failure`: whether the pull request is now tracked. Every exception is caught. -/
def checkMergeQueueOnFailure (o : FinalizeOutside) : Bool :=
  let tracked : Except PyException Bool := do
    let repo ← o.queueRepo
    if repo.isEmpty then return false
    if !(← o.inQueue) then return false
    let _ ← handling PyException.isOsOrRuntime [] o.branchLookup
    o.createEntry
    return true
  match tracked with
  | .ok b => b
  | .error _ => false

/-- `role.removeprefix("command:").removeprefix("/").split()[0]`. -/
def commandName (role : Text) : Except PyException Text :=
  match roleParts role with
  | [] => .error .indexError
  | name :: _ => .ok name

/-- The status and the exit code after a look at the pull request of a failed merge. -/
def settleFailedMerge (o : FinalizeOutside) (agent : ExitingAgent) (exitCode : Int) :
    Except PyException (RunStatus × Int) :=
  if exitCode != 0 && agent.prNumber.isSome then do
    let name ← commandName agent.role
    if mergeRoles.contains name then
      if ← checkPrMergedOnFailure o then return (.done, 0)
      else if checkMergeQueueOnFailure o then return (.done, 0)
      else return (.failed, exitCode)
    else return (.failed, exitCode)
  else .ok (if exitCode = 0 then .done else .failed, exitCode)

/-- `_check_merge_queue_marker_file`. What the handling of one marker raises is caught. -/
def checkMergeQueueMarkerFile (o : FinalizeOutside) : Except PyException Unit :=
  o.markers.map fun _ => ()

/-! ## The row of the run -/

/-- `normalize_signal_exit`. -/
def normalizeSignalExit (returncode : Int) : Option Int :=
  if returncode < 0 then some (-returncode)
  else if returncode ≥ 128 && 1 ≤ returncode - 128 && returncode - 128 ≤ 64 then some (returncode - 128)
  else none

/-- `_classify_exit_status`: the status and the reason of the termination. -/
def classifyExitStatus (o : FinalizeOutside) (exitCode : Int) : RunStatus × Option Text :=
  match o.terminationRecord with
  | some cause => (.stopped, some cause)
  | none =>
    if (normalizeSignalExit exitCode).isSome then (.interrupted, some "external_signal".toList)
    else (.failed, none)

/-- `_build_exit_failure_message`. -/
def buildExitFailureMessage (o : FinalizeOutside) (exitCode : Int) : Text :=
  let step := o.currentStep.getD []
  let message := "Process exited with code ".toList ++ Text.ofInt exitCode ++
    (if step.isEmpty || step == "agent".toList then [] else " (step=".toList ++ step ++ ")".toList) ++
    (if o.outputTail.isEmpty then [] else "; last output: ".toList ++ o.outputTail)
  message.take 2000

/-- The message with the snapshot of the memory, for a process that another one has killed. -/
def exitErrorMessage (o : FinalizeOutside) (exitCode : Int) : Text :=
  let message := buildExitFailureMessage o exitCode
  let snapshot := o.memorySnapshot.getD []
  if (classifyExitStatus o exitCode).2 == some "external_signal".toList && !snapshot.isEmpty then
    (message ++ "; ".toList ++ snapshot).take 2000
  else message

def recordedCost (cost : Option ℚ) (run : TaskRun) : TaskRun :=
  if cost.getD 0 > 0 then { run with totalCostUsd := cost.getD 0 } else run

/-- The row of a run that `_finalize_task_run` finds unfinished. -/
def finalizedRun (o : FinalizeOutside) (agent : ExitingAgent) (exitCode : Int) (run : TaskRun) : TaskRun :=
  let run := recordedCost agent.lastResultCost run
  if exitCode = 0 then { run with status := .done, endedAt := some o.now }
  else
    { run with
      status := (classifyExitStatus o exitCode).1
      endedAt := some o.now
      errorMessage := some (exitErrorMessage o exitCode) }

/-- `_read_file_handoff` and the session, before the row is looked at. -/
def openRow (o : FinalizeOutside) : Except PyException Unit := do
  handling PyException.isFileError () o.readHandoff
  o.session

/-- `_finalize_task_run`: whether the status was changed. Every exception is caught, and one before the commit
leaves the row as it was. -/
def finalizeTaskRun (o : FinalizeOutside) (agent : ExitingAgent) (exitCode : Int) (c : Control) :
    Bool × Control :=
  match openRow o, c.run agent.runId, o.commit with
  | .ok (), some run, .ok () =>
    if run.isTerminal then (false, c.setRun agent.runId (recordedCost agent.lastResultCost))
    else (o.afterCommit.isOk, c.setRun agent.runId (finalizedRun o agent exitCode))
  | _, _, _ => (false, c)

/-! ## What the run has done -/

/-- The commands of `_COMMAND_VALIDATORS`. -/
def commandValidators : List Text :=
  ["address-pr".toList, "review-pr".toList, "integrate-pr".toList, "rearrange-commits".toList, "pr".toList]

/-- `_validate_command_outcome`. The name of the command is read outside of the handler. -/
def validateCommandOutcome (o : FinalizeOutside) (agent : ExitingAgent) :
    Except PyException OutcomeValidation :=
  if "command:".toList.isPrefixOf agent.role then do
    let name ← commandName agent.role
    if commandValidators.contains name then handling (fun _ => true) {} o.validator
    else return {}
  else .ok {}

/-- `_PIPELINE_ROLES`. -/
def pipelineRoles : List Text := ["developer".toList, "researcher".toList, "planner".toList]

/-- `_validate_pipeline_outcome`. -/
def validatePipelineOutcome (o : FinalizeOutside) (agent : ExitingAgent) : Except PyException (Option Text) :=
  if pipelineRoles.contains agent.role then handling PyException.isServiceError none o.pipelineSteps
  else .ok none

/-- `if failure_reason`. -/
def truthyReason (reason : Option Text) : Option Text := reason.filter fun r => !r.isEmpty

/-- What the run has failed at and the status for it, if anything. -/
def outcomeFailure (o : FinalizeOutside) (agent : ExitingAgent) :
    Except PyException (Option (Text × RunStatus)) := do
  let validation ← validateCommandOutcome o agent
  match truthyReason validation.failureReason with
  | some reason => return some (reason, if validation.networkBlocked then .interrupted else .failed)
  | none =>
    let reason ← validatePipelineOutcome o agent
    return (truthyReason reason).map fun r => (r, .failed)

/-- The row after a downgrade: only a run that is done is downgraded. -/
def downgradedRun (reason : Text) (status : RunStatus) (run : TaskRun) : TaskRun :=
  if run.status = .done then { run with status := status, errorMessage := some reason } else run

/-- `_downgrade_to_failed`. -/
def downgradeToFailed (o : FinalizeOutside) (runId : Nat) (reason : Text) (status : RunStatus)
    (c : Control) : Except PyException Unit × Control :=
  match o.downgrade with
  | .ok () => (.ok (), c.setRun runId (downgradedRun reason status))
  | .error e => (if e.isServiceError then .ok () else .error e, c)

/-- The validation of a run that ended with success: the status that it now has. -/
def validateOutcome (o : FinalizeOutside) (agent : ExitingAgent) (status : RunStatus) (exitCode : Int)
    (c : Control) : Except PyException RunStatus × Control :=
  if exitCode = 0 ∧ agent.runId ≠ 0 then
    match outcomeFailure o agent with
    | .error e => (.error e, c)
    | .ok none => (.ok status, c)
    | .ok (some (reason, status)) =>
      match downgradeToFailed o agent.runId reason status c with
      | (.ok (), c) => (.ok status, c)
      | (.error e, c) => (.error e, c)
  else (.ok status, c)

/-! ## The finalization -/

/-- `CompletedAgent`. -/
structure CompletedAgent where
  runId : Nat
  issue : Text
  role : Text
  status : RunStatus
  cost : ℚ
  deriving DecidableEq

/-- `pa.agents.pop`. -/
def Control.unregister (c : Control) (runId : Nat) : Control :=
  { c with pool := { c.pool with agents := c.pool.agents.filter fun a => a.runId != runId } }

/-- The exit code, once the stream has had its say. -/
def streamExitCode (o : FinalizeOutside) (exitCode : Int) : Int :=
  if (truthyReason o.streamFailure).isSome ∧ exitCode = 0 then 1 else exitCode

/-- The calls between the exit of the process and the write of the row: the status and the exit code. -/
def beforeFinalize (o : FinalizeOutside) (agent : ExitingAgent) (exitCode : Int) :
    Except PyException (RunStatus × Int) := do
  let settled ← settleFailedMerge o agent (streamExitCode o exitCode)
  if settled.2 = 0 ∧ agent.prNumber.isSome then checkMergeQueueMarkerFile o
  if agent.outputWriter then handling PyException.isServiceError () o.writerClose
  return settled

/-- `_wait_and_finalize` after the wait. -/
def finalizeExit (o : FinalizeOutside) (agent : ExitingAgent) (exitCode : Int) (c : Control) :
    Except PyException CompletedAgent × Control :=
  match beforeFinalize o agent exitCode with
  | .error e => (.error e, c)
  | .ok (status, exitCode) =>
    match validateOutcome o agent status exitCode (finalizeTaskRun o agent exitCode c).2 with
    | (.error e, c) => (.error e, c)
    | (.ok status, c) =>
      (.ok
        { runId := agent.runId
          issue := agent.issue
          role := agent.role
          status := status
          cost := agent.lastResultCost.getD 0 },
        c.unregister agent.runId)

/-- `_wait_and_finalize`, up to the removal from the pool. -/
def waitAndFinalize (o : FinalizeOutside) (process : Option Waiting) (agent : ExitingAgent) (c : Control) :
    Except PyException (Option CompletedAgent) × Control :=
  match process with
  | none => (.ok none, c)
  | some waiting =>
    match waitWithTerminalCheck agent.runId waiting c with
    | (.error e, c) => (.error e, c)
    | (.ok exitCode, c) =>
      let finalized := finalizeExit o agent exitCode c
      (finalized.1.map some, finalized.2)

end Dashboard

import Mathlib.Algebra.Order.Ring.Rat
import SovaVerified.Dashboard.AgentRuns
import SovaVerified.Text.Text

/-!
# The workflow engine

`sova/core/workflow.py`: the engine that drives the steps of one task run through their checks, retries,
fallback models and gates, and writes the run's status as it goes.

What a step does is not modelled but ranged over: a `Step` carries what the engine is going to observe
before it, whether it can be skipped, and the outcome of each attempt at it. An exception that the
engine does not catch (a cancelled task, a `can_skip` that raises) leaves `run`. Output files, desktop
notifications and the rows of `StepExecution` are left out.
-/

namespace Core

inductive TaskStatus where
  | running
  | pending
  | assessing
  | inProgress
  | developing
  | simplifying
  | reviewing
  | committing
  | pushing
  | prCreated
  | ciMonitoring
  | addressingReview
  | awaitingApproval
  | done
  | paused
  | failed
  deriving DecidableEq, Repr

/-- `_STEP_STATUS_MAP`. -/
def stepStatusMap : List (Text × TaskStatus) :=
  [("sync".toList, .pending), ("assess".toList, .assessing), ("create_worktree".toList, .inProgress),
   ("develop".toList, .developing), ("simplify".toList, .simplifying),
   ("self_review".toList, .reviewing), ("commit".toList, .committing),
   ("validate".toList, .committing), ("rebase".toList, .addressingReview),
   ("push".toList, .pushing), ("create_pr".toList, .prCreated),
   ("monitor_ci".toList, .ciMonitoring), ("address_review".toList, .addressingReview),
   ("handoff_to_reviewer".toList, .done), ("handoff_to_user".toList, .done)]

structure StepResult where
  success : Bool
  summary : Text
  error : Option Text := none
  costUsd : ℚ := 0
  awaitingApproval : Bool := false
  partialWork : Bool := false
  runawayTriggered : Bool := false
  deriving DecidableEq

structure GateCheckResult where
  passed : Bool
  reason : Option Text := none
  deriving DecidableEq

/-! ## What the engine observes -/

/-- How a call of `step.execute` ends. -/
inductive Execution where
  | returned (result : StepResult)
  | raised (error : Text)
  | timedOut (seconds : Nat) (runawayDeadline : Bool) (partialWork : Bool)
  deriving DecidableEq

/-- How a call of `validate_output` or `verify_output` ends. -/
inductive GateOutcome where
  | returned (gate : GateCheckResult)
  | raised (type message : Text)
  | timedOut (seconds : Nat)
  deriving DecidableEq

/-- One attempt at a step. -/
inductive Attempt where
  /-- The `StepExecution` row could not be created; the step does not run. -/
  | createFailed (error : Text)
  /-- The step runs, and its gates where the engine gets to them; `spent` and `gateSpent` is what
  the two add to the context's cost. -/
  | ran (execution : Execution) (spent : ℚ) (validate verify : GateOutcome) (gateSpent : ℚ)
  /-- The task is cancelled during the attempt. -/
  | cancelled
  deriving DecidableEq

/-- What the engine reads before a step. -/
structure Observation where
  /-- The configured worktree, when it does not exist any more. -/
  missingWorktree : Option Text := none
  /-- Seconds since the start of the run. -/
  elapsed : ℚ := 0
  /-- `complexity_multiplier` of the task. -/
  multiplier : ℚ := 1
  callCount : Nat := 0
  deriving DecidableEq

structure Step where
  name : Text
  maxRetries : Nat := 0
  before : Observation := {}
  /-- What `can_skip` returns; `none` when it raises. -/
  canSkip : Option Bool := some false
  /-- The attempts at the step, counted over all models. -/
  attempt : Nat → Attempt
  /-- The model that an attempt resolves, as `AssessStep` does. -/
  resolves : Nat → Option Text := fun _ => none

/-- `classify_error`, as far as the engine tells its categories apart. -/
inductive ErrorCategory where
  | configuration
  | billing
  | other
  deriving DecidableEq, Repr

structure EngineConfig where
  maxBudget : ℚ
  maxIssueBudget : ℚ
  /-- 0 disables each of the four runaway limits. -/
  maxRunWallClockSeconds : Nat := 14400
  maxRunSteps : Nat := 100
  maxLlmCalls : Nat := 250
  maxStepAttempts : Nat := 80
  engineOwnedFallback : Bool := false
  model : Text
  fallbackModels : List Text := []
  classifyError : Text → ErrorCategory
  /-- `str` of a decimal, and its formats with two digits and with none. -/
  showCost : ℚ → Text
  showCents : ℚ → Text
  showSeconds : ℚ → Text

/-! ## The attempts at a step -/

inductive RecordStatus where
  | pending
  | done
  | failed
  | skipped
  | runaway
  deriving DecidableEq, Repr

structure StepRecord where
  stepName : Text
  status : RecordStatus
  result : Option StepResult := none
  gate : Option GateCheckResult := none
  retries : Nat := 0
  totalAttempts : Nat := 0
  deriving DecidableEq

/-- The part of the execution context that the engine changes. -/
structure Context where
  costUsd : ℚ := 0
  /-- Empty until a model is resolved. -/
  resolvedModel : Text := []
  fallbackModelIndex : Nat := 0
  deriving DecidableEq

inductive AttemptVerdict where
  | done
  | failed
  | billingExhausted
  | nonRetryable
  | runaway
  | retry
  | cancelled
  deriving DecidableEq, Repr

def quoted (name : Text) : Text := "'".toList ++ name ++ "'".toList

/-- `_run_step_with_timeout`: the result of an attempt. A result that reports less than the context has
recorded gets the context's figure. -/
def runStepWithTimeout (name : Text) (execution : Execution) (spent : ℚ) : StepResult :=
  let result : StepResult :=
    match execution with
    | .returned result => result
    | .raised error => { success := false, summary := "Exception in ".toList ++ name, error := error }
    | .timedOut seconds runawayDeadline partialWork =>
      if runawayDeadline then
        let message := "Runaway guard: wall clock exceeded during step ".toList ++ quoted name ++
          " (step aborted after ".toList ++ Text.ofInt seconds ++ "s of remaining budget)".toList
        { success := false, summary := message, error := message, partialWork,
          runawayTriggered := true }
      else
        { success := false
          summary := "Step ".toList ++ quoted name ++ " exceeded hard timeout (".toList ++
            Text.ofInt seconds ++ "s)".toList
          error := "step_hard_timeout".toList
          partialWork }
  { result with costUsd := max result.costUsd spent }

def hasFallbackModels (cfg : EngineConfig) (ctx : Context) : Bool :=
  cfg.engineOwnedFallback && decide (ctx.fallbackModelIndex < cfg.fallbackModels.length)

def isRunawayFailure (error : Option Text) : Bool :=
  error.any fun e => "Runaway guard:".toList.isPrefixOf e

/-- `_handle_step_failure_result`: only the paragraph before the check output is classified. -/
def handleStepFailureResult (cfg : EngineConfig) (ctx : Context) (result : StepResult) :
    AttemptVerdict :=
  if isRunawayFailure result.error then .runaway
  else
    let detail := Text.before "\n\nLast check output".toList (result.error.getD [])
    match cfg.classifyError detail with
    | .configuration => .nonRetryable
    | .billing => if hasFallbackModels cfg ctx then .billingExhausted else .failed
    | .other => .failed

/-- The result of a gate, where a timeout and an exception fail it. -/
def gateResult (what : Text) : GateOutcome → GateCheckResult
  | .returned gate => gate
  | .timedOut seconds =>
    { passed := false, reason := what ++ " timed out after ".toList ++ Text.ofInt seconds ++ "s".toList }
  | .raised type message =>
    { passed := false
      reason := what ++ " failed with exception: ".toList ++ type ++ ": ".toList ++ message }

/-- The gate that an attempt leaves in the record: the verification's, where the structural gate lets it
run. -/
def finalGate (validate verify : GateOutcome) : GateCheckResult :=
  let gate := gateResult "Gate check".toList validate
  if gate.passed then gateResult "Verification".toList verify else gate

def createFailedResult (name error : Text) : StepResult :=
  { success := false
    summary := "DB error creating step execution for ".toList ++ name
    error := error }

def executeSingleAttempt (cfg : EngineConfig) (name : Text) (attempt : Attempt) (ctx : Context)
    (record : StepRecord) : AttemptVerdict × Context × StepRecord :=
  match attempt with
  | .cancelled => (.cancelled, ctx, record)
  | .createFailed error => (.retry, ctx, { record with result := some (createFailedResult name error) })
  | .ran execution spent validate verify gateSpent =>
    let result := runStepWithTimeout name execution spent
    let ctx := { ctx with costUsd := ctx.costUsd + spent }
    let record := { record with result := some result }
    if !result.success then
      (if result.runawayTriggered then .runaway else handleStepFailureResult cfg ctx result, ctx, record)
    else
      let gate := finalGate validate verify
      (if gate.passed then .done else .failed, { ctx with costUsd := ctx.costUsd + gateSpent },
        { record with gate := some gate })

/-- The context after an attempt that may have resolved a model. -/
def resolveModel (model : Option Text) (ctx : Context) : Context :=
  { ctx with resolvedModel := model.getD ctx.resolvedModel }

inductive TryOutcome where
  | done
  | failed
  | billingExhausted
  | runaway
  | cancelled
  deriving DecidableEq, Repr

def attemptLimitMessage (name : Text) (limit : Nat) : Text :=
  "Runaway guard: step ".toList ++ quoted name ++ " exceeded ".toList ++ Text.ofInt limit ++
    " attempts".toList

/-- `_try_step_with_retries`: the loop over the attempts with one model, `remaining` of them left and
`attempts` behind. The attempt limit counts over all models. -/
def tryStepWithRetries (cfg : EngineConfig) (step : Step) :
    (remaining attempts : Nat) → (lastWasBilling : Bool) → Context → StepRecord →
      TryOutcome × Context × StepRecord
  | 0, _, lastWasBilling, ctx, record =>
    (if lastWasBilling && hasFallbackModels cfg ctx then .billingExhausted else .failed, ctx,
      { record with status := .failed })
  | remaining + 1, attempts, lastWasBilling, ctx, record =>
    if cfg.maxStepAttempts ≠ 0 ∧ cfg.maxStepAttempts ≤ record.totalAttempts then
      let message := attemptLimitMessage step.name cfg.maxStepAttempts
      (.runaway, ctx, { record with
        result := some { success := false, summary := message, error := message }
        status := .runaway })
    else
      let attempt := step.attempt record.totalAttempts
      let counted := { record with totalAttempts := record.totalAttempts + 1 }
      let model := step.resolves record.totalAttempts
      let (verdict, ctx, record) := executeSingleAttempt cfg step.name attempt ctx counted
      let ctx := resolveModel model ctx
      let record := { record with retries := attempts }
      match verdict with
      | .retry => tryStepWithRetries cfg step remaining (attempts + 1) lastWasBilling ctx record
      | .runaway => (.runaway, ctx, { record with status := .runaway })
      | .done => (.done, ctx, { record with status := .done })
      | .nonRetryable => (.failed, ctx, { record with status := .failed })
      | .billingExhausted => (.billingExhausted, ctx, { record with status := .failed })
      | .failed =>
        if remaining ≠ 0 then tryStepWithRetries cfg step remaining (attempts + 1) false ctx record
        else (.failed, ctx, { record with status := .failed })
      | .cancelled => (.cancelled, ctx, record)

def currentModel (cfg : EngineConfig) (ctx : Context) : Text :=
  if ctx.resolvedModel.isEmpty then cfg.model else ctx.resolvedModel

/-- The loop of `_execute_with_retries` after the first model: `_advance_fallback` skips the models of
the rest of the chain that are the current one, and the next one is tried in turn. -/
def tryFallbacks (cfg : EngineConfig) (step : Step) :
    List Text → Context → StepRecord → TryOutcome × Context × StepRecord
  | [], ctx, record => (.failed, ctx, { record with status := .failed })
  | candidate :: rest, ctx, record =>
    let ctx := { ctx with fallbackModelIndex := ctx.fallbackModelIndex + 1 }
    if candidate = currentModel cfg ctx then tryFallbacks cfg step rest ctx record
    else
      let ctx := { ctx with resolvedModel := candidate }
      match tryStepWithRetries cfg step (step.maxRetries + 1) 0 false ctx record with
      | (.billingExhausted, ctx, record) => tryFallbacks cfg step rest ctx record
      | outcome => outcome

def executeWithRetries (cfg : EngineConfig) (step : Step) (ctx : Context) :
    TryOutcome × Context × StepRecord :=
  let record : StepRecord := { stepName := step.name, status := .pending }
  match tryStepWithRetries cfg step (step.maxRetries + 1) 0 false ctx record with
  | (.billingExhausted, ctx, record) =>
    tryFallbacks cfg step (cfg.fallbackModels.drop ctx.fallbackModelIndex) ctx record
  | outcome => outcome

/-! ## The loop over the models -/

/-- The search of `_advance_fallback` through the rest of the chain: the first model that is not the
current one, and the index behind it. -/
def advanceFrom (current : Text) : List Text → Nat → Option Text × Nat
  | [], index => (none, index)
  | candidate :: rest, index =>
    if candidate ≠ current then (some candidate, index + 1) else advanceFrom current rest (index + 1)

/-- `_advance_fallback`. -/
def advanceFallback (cfg : EngineConfig) (ctx : Context) : Option Text × Context :=
  let found := advanceFrom (currentModel cfg ctx) (cfg.fallbackModels.drop ctx.fallbackModelIndex)
    ctx.fallbackModelIndex
  (found.1, { ctx with fallbackModelIndex := found.2 })

/-- A switch to another model. -/
structure ModelSwitch where
  /-- The model in force when the step ran out of billing. -/
  failed : Text
  installed : Text
  /-- `fallback_model_index` after the switch. -/
  index : Nat
  deriving DecidableEq, Repr

/-- How the loop over the models ends. -/
structure RetryEnd where
  outcome : TryOutcome
  ctx : Context
  record : StepRecord
  switches : List ModelSwitch
  deriving DecidableEq

/-- The `while True` loop of `_execute_with_retries`, for as many rounds as there is fuel, with the
switches so far. -/
def retryLoop (cfg : EngineConfig) (step : Step) :
    (fuel : Nat) → Context → StepRecord → List ModelSwitch → Option RetryEnd
  | 0, _, _, _ => none
  | fuel + 1, ctx, record, switches =>
    match tryStepWithRetries cfg step (step.maxRetries + 1) 0 false ctx record with
    | (.billingExhausted, ctx, record) =>
      match advanceFallback cfg ctx with
      | (none, advanced) => some ⟨.failed, advanced, { record with status := .failed }, switches⟩
      | (some model, advanced) =>
        retryLoop cfg step fuel { advanced with resolvedModel := model } record
          (switches ++ [⟨currentModel cfg ctx, model, advanced.fallbackModelIndex⟩])
    | (outcome, ctx, record) => some ⟨outcome, ctx, record, switches⟩

/-! ## What an attempt leaves behind -/

/-- The step returned a success, so that its gates are run. -/
def Execution.succeeds : Execution → Bool
  | .returned result => result.success
  | _ => false

/-- The result that an attempt leaves in the record. -/
def Attempt.result (name : Text) : Attempt → Option StepResult
  | .createFailed error => some (createFailedResult name error)
  | .ran execution spent _ _ _ => some (runStepWithTimeout name execution spent)
  | .cancelled => none

/-- The gate that an attempt leaves in the record, if it comes that far. -/
def Attempt.gate : Attempt → Option GateCheckResult
  | .ran execution _ validate verify _ =>
    if execution.succeeds then some (finalGate validate verify) else none
  | _ => none

def Attempt.failedAtGate (a : Attempt) : Bool := a.gate.any fun gate => !gate.passed

def Attempt.passes (a : Attempt) : Bool := a.gate.any GateCheckResult.passed

/-- What an attempt adds to the context's cost before its gates, and in them. -/
def Attempt.executionCost : Attempt → ℚ
  | .ran _ spent _ _ _ => spent
  | _ => 0

def Attempt.gateCost : Attempt → ℚ
  | .ran execution _ _ _ gateSpent => if execution.succeeds then gateSpent else 0
  | _ => 0

/-- What the first attempts at a step add to the context's cost. -/
def spentBy (step : Step) : Nat → ℚ
  | 0 => 0
  | n + 1 => spentBy step n + (step.attempt n).executionCost + (step.attempt n).gateCost

/-- What the result of an attempt reports. -/
def Attempt.reported (name : Text) (a : Attempt) : ℚ := ((a.result name).map StepResult.costUsd).getD 0

/-! ## The run -/

structure WorkflowResult where
  success : Bool := false
  finalStatus : TaskStatus := .pending
  stepsCompleted : Nat := 0
  stepsFailed : Nat := 0
  stepsSkipped : Nat := 0
  totalCostUsd : ℚ := 0
  error : Option Text := none
  stepRecords : List StepRecord := []
  deriving DecidableEq

inductive FailureType where
  | worktreeDeleted
  | budgetExceeded
  | perIssueBudgetExceeded
  | runawayGuard
  | gateCheck
  | exception
  deriving DecidableEq, Repr

structure FailureRecord where
  stepName : Text
  failureType : FailureType
  message : Text
  deriving DecidableEq

/-- The row of the run in the database. -/
structure TaskRun where
  status : TaskStatus
  errorMessage : Option Text := none
  currentStep : Option Text := none
  totalCostUsd : ℚ := 0
  deriving DecidableEq

structure EngineState where
  ctx : Context
  taskRun : TaskRun
  failures : List FailureRecord := []
  result : WorkflowResult := {}
  /-- The steps that were skipped or begun so far. -/
  handled : List Text := []
  deriving DecidableEq

/-- A text that is present and not empty. -/
def truthy (t : Option Text) : Option Text := t.filter fun x => !x.isEmpty

def recordFailure (s : EngineState) (stepName : Text) (failureType : FailureType) (message : Text) :
    EngineState :=
  { s with failures := s.failures ++ [{ stepName, failureType, message }] }

def updateTaskRunStatus (s : EngineState) (status : TaskStatus) (error : Option Text) : EngineState :=
  { s with
    taskRun := { s.taskRun with
      status := status
      totalCostUsd := s.ctx.costUsd
      errorMessage := (truthy error).or s.taskRun.errorMessage } }

/-- The run ends at a step: its result, a failure record and its row say why. -/
def stopRun (s : EngineState) (stepName : Text) (status : TaskStatus) (failureType : FailureType)
    (message : Text) : EngineState :=
  let s := { s with result := { s.result with finalStatus := status, error := message } }
  updateTaskRunStatus (recordFailure s stepName failureType message) status message

/-- The message of the runaway guard between steps, when a limit is exceeded. -/
def checkRunawayGuard (cfg : EngineConfig) (seen : Observation) (stepsCompleted : Nat) : Option Text :=
  let scaledWallClock := cfg.maxRunWallClockSeconds * seen.multiplier
  if cfg.maxRunWallClockSeconds ≠ 0 ∧ scaledWallClock < seen.elapsed then
    some ("Runaway guard: wall clock exceeded ".toList ++ cfg.showSeconds scaledWallClock ++
      "s (base ".toList ++ Text.ofInt cfg.maxRunWallClockSeconds ++ "s, elapsed ".toList ++
      cfg.showSeconds seen.elapsed ++ "s)".toList)
  else if cfg.maxRunSteps ≠ 0 ∧ cfg.maxRunSteps ≤ stepsCompleted then
    some ("Runaway guard: step count exceeded ".toList ++ Text.ofInt cfg.maxRunSteps ++
      " steps".toList)
  else if cfg.maxLlmCalls ≠ 0 ∧ cfg.maxLlmCalls ≤ seen.callCount then
    some ("Runaway guard: LLM call count exceeded ".toList ++ Text.ofInt cfg.maxLlmCalls ++
      " calls".toList)
  else none

/-- The error of a result, where there is one. -/
def resultError : Option StepResult → Option Text
  | some result => result.error
  | none => some "Unknown error".toList

/-- `_handle_step_failure`. -/
def handleStepFailure (s : EngineState) (record : StepRecord) : EngineState :=
  let error := resultError record.result
  let report : TaskStatus × FailureType × Option Text :=
    match record.gate with
    | some gate =>
      if !gate.passed then (.paused, .gateCheck, gate.reason) else (.failed, .exception, error)
    | none => (.failed, .exception, error)
  let s := { s with
    result := { s.result with
      stepsFailed := s.result.stepsFailed + 1
      finalStatus := report.1
      error := report.2.2 } }
  let s := recordFailure s record.stepName report.2.1
    ((truthy report.2.2).getD "Unknown error".toList)
  updateTaskRunStatus s report.1 report.2.2

/-- `_pause_for_runaway`. -/
def pauseForRunaway (s : EngineState) (record : StepRecord) : EngineState :=
  let message := (truthy (record.result.bind StepResult.error)).getD
    ("Runaway guard tripped in step ".toList ++ quoted record.stepName)
  stopRun s record.stepName .paused .runawayGuard message

/-- `_handle_step_approval`. -/
def handleStepApproval (s : EngineState) : EngineState :=
  let s := { s with result := { s.result with finalStatus := .awaitingApproval } }
  updateTaskRunStatus s .awaitingApproval none

inductive StepOutcome where
  /-- On to the next step. -/
  | goOn (s : EngineState)
  /-- The pipeline is aborted, and `run` returns. -/
  | abort (s : EngineState)
  /-- An exception leaves the engine. -/
  | raised (s : EngineState)
  deriving DecidableEq

/-- The end of a step that was executed: what its record says about going on. -/
def afterStep (s : EngineState) (outcome : TryOutcome) (record : StepRecord) : StepOutcome :=
  if outcome = .cancelled then .raised s
  else
    let s := { s with result := { s.result with stepRecords := s.result.stepRecords ++ [record] } }
    if record.status = .runaway then .abort (pauseForRunaway s record)
    else if record.status = .failed then .abort (handleStepFailure s record)
    else
      let cost := match record.result with
        | some result => result.costUsd
        | none => 0
      let s := { s with
        result := { s.result with
          stepsCompleted := s.result.stepsCompleted + 1
          totalCostUsd := s.result.totalCostUsd + cost }
        taskRun := { s.taskRun with totalCostUsd := s.ctx.costUsd } }
      if record.result.any StepResult.awaitingApproval then .abort (handleStepApproval s)
      else .goOn { s with
        result := { s.result with
          finalStatus := (stepStatusMap.lookup record.stepName).getD s.result.finalStatus } }

def skipStep (s : EngineState) (name : Text) : EngineState :=
  { s with
    handled := s.handled ++ [name]
    result := { s.result with
      stepsSkipped := s.result.stepsSkipped + 1
      stepRecords := s.result.stepRecords ++ [{ stepName := name, status := .skipped }] } }

/-- The step has been executed and left this context. -/
def leaveStep (s : EngineState) (name : Text) (ctx : Context) : EngineState :=
  { s with
    ctx := ctx
    handled := s.handled ++ [name]
    taskRun := { s.taskRun with currentStep := name } }

/-- `_execute_step`. -/
def executeStep (cfg : EngineConfig) (s : EngineState) (step : Step) : StepOutcome :=
  match step.before.missingWorktree with
  | some path =>
    .abort (stopRun s step.name .failed .worktreeDeleted ("Worktree does not exist: ".toList ++ path))
  | none =>
    if cfg.maxBudget < s.ctx.costUsd then
      .abort (stopRun s step.name .paused .budgetExceeded
        ("Budget exceeded: $".toList ++ cfg.showCost s.ctx.costUsd))
    else
      match checkRunawayGuard cfg step.before s.result.stepsCompleted with
      | some message => .abort (stopRun s step.name .paused .runawayGuard message)
      | none =>
        match step.canSkip with
        | none => .raised s
        | some true => .goOn (skipStep s step.name)
        | some false =>
          let tried := executeWithRetries cfg step s.ctx
          afterStep (leaveStep s step.name tried.2.1) tried.1 tried.2.2

inductive RunOutcome where
  | returned (s : EngineState)
  | raised (s : EngineState)
  deriving DecidableEq

def RunOutcome.state : RunOutcome → EngineState
  | .returned s => s
  | .raised s => s

/-- `_finalize`. -/
def finalize (s : EngineState) : EngineState :=
  let s := { s with result := { s.result with success := true, finalStatus := .done } }
  updateTaskRunStatus s .done none

def runSteps (cfg : EngineConfig) : EngineState → List Step → RunOutcome
  | s, [] => .returned (finalize s)
  | s, step :: steps =>
    match executeStep cfg s step with
    | .goOn s => runSteps cfg s steps
    | .abort s => .returned s
    | .raised s => .raised s

/-- What a run starts from. -/
structure RunInputs where
  ctx : Context := {}
  /-- The run was created by the dashboard. -/
  adopted : Bool := false
  issueNumber : Text := []
  budgetOverride : Bool := false
  /-- What earlier runs of the issue have cost. -/
  priorCost : ℚ := 0
  deriving DecidableEq

/-- The per-issue budget stops the run before its first step. -/
def perIssueBudgetExceeded (cfg : EngineConfig) (inputs : RunInputs) : Bool :=
  !inputs.budgetOverride && !inputs.issueNumber.isEmpty && decide (cfg.maxIssueBudget ≤ inputs.priorCost)

def initialState (inputs : RunInputs) : EngineState :=
  { ctx := inputs.ctx
    taskRun := { status := if inputs.adopted then .running else .pending } }

/-- `run`. -/
def run (cfg : EngineConfig) (inputs : RunInputs) (steps : List Step) : RunOutcome :=
  let s := initialState inputs
  if perIssueBudgetExceeded cfg inputs then
    .returned (stopRun s "budget_check".toList .paused .perIssueBudgetExceeded
      ("Per-issue budget exceeded: $".toList ++ cfg.showCents inputs.priorCost ++
        " spent on issue #".toList ++ inputs.issueNumber ++ " (limit: $".toList ++
        cfg.showCost cfg.maxIssueBudget ++ ")".toList))
  else runSteps cfg s steps

end Core

/-!
# The budget of an issue

`_check_per_issue_budget` of `sova/core/workflow.py`: before its first step a run sums up what the other runs
of its issue have cost. It reads the table that the dashboard writes.
-/

namespace Core

open Dashboard (RunStatus)

/-- `_TERMINAL`, the statuses that the check counts. -/
def budgetTerminal : List RunStatus := [.done, .failed, .rejected, .interrupted, .paused, .stopped]

/-- What the other runs of an issue with some statuses have cost. -/
def costOfOthers (statuses : List RunStatus) (rows : List Dashboard.TaskRun) (issue : Text) (runId : Nat) :
    ℚ :=
  Tables.sumWhere (fun r => r.issueNumber == some issue && r.id != runId && statuses.contains r.status)
    Dashboard.TaskRun.totalCostUsd rows

/-- The sum that the check compares with the budget. -/
def priorCost (rows : List Dashboard.TaskRun) (issue : Text) (runId : Nat) : ℚ :=
  costOfOthers budgetTerminal rows issue runId

/-- `run`, for a run of the table. -/
def runOnTable (cfg : EngineConfig) (rows : List Dashboard.TaskRun) (runId : Nat) (inputs : RunInputs)
    (steps : List Step) : RunOutcome :=
  run cfg { inputs with priorCost := priorCost rows inputs.issueNumber runId } steps

end Core

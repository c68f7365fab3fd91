import SovaVerified.Core.CommitFold
import SovaVerified.Core.Usage
import SovaVerified.Core.Workflow

/-!
# The step that validates

`ValidateStep.execute` of `sova/core/steps/validate.py`, with `find_pre_push_hook`, `build_pre_push_stdin` and
`_worktree_is_dirty`: the pre-push hook of the project is run, and while it fails a model is asked to fix what
it reports, and the fix is folded into the branch.

The hook, git, the files, the model and the clocks are outside. What is run and asked is written down in order,
the newest first, and so is what the step made of it. Environments are left out, and so is the wording of the
prompt: it quotes the output of the hook.
-/

namespace Core.Validate

open Exceptions Outside
open CommitFold (Worktree isAgentArtifact isMarkerSubject)
open Utils.Shell (ShellResult)

/-- The commands that the step runs itself. -/
inductive Command where
  /-- `git config --get core.hooksPath` -/
  | getHooksPath
  /-- `git config core.hooksPath .githooks` -/
  | setHooksPath
  /-- `git rev-parse --show-toplevel` -/
  | showToplevel
  /-- `git rev-parse --git-dir` -/
  | gitDir
  /-- `test -x <path>` -/
  | testExecutable (path : Text)
  /-- `git rev-parse --abbrev-ref HEAD` -/
  | currentBranch
  /-- `git rev-parse HEAD` -/
  | revParseHead
  /-- `git rev-parse --verify --quiet origin/<branch>` -/
  | upstream (branch : Text)
  /-- `git merge-base --is-ancestor <sha> HEAD` -/
  | isAncestor (sha : Text)
  /-- `git log --format=%s <sha>..HEAD` -/
  | logSubjects (sha : Text)
  /-- `git reset --soft <sha>` -/
  | resetSoft (sha : Text)
  /-- `git status --porcelain --untracked-files=all` -/
  | statusPorcelain

/-- The helpers of the fold that the step calls. -/
inductive Part where
  | unwinding
  | folding
  | checking
  deriving DecidableEq

/-- What a run writes down. -/
inductive Event where
  | ran (command : Command) (outcome : Except PyException ShellResult)
  /-- `Path.exists` was asked. -/
  | looked (outcome : Except PyException Bool)
  /-- The hook that was found. -/
  | found (hook : Option Text)
  /-- The hook was run. -/
  | hook (outcome : Except PyException ShellResult)
  /-- A fix is refused, as this is the fraction of the resources that is left. -/
  | refused (fraction : ℚ)
  /-- The model was called for a fix. -/
  | called (outcome : Except PyException LLMResult)
  /-- A helper of the fold did something. -/
  | part (part : Part) (event : CommitFold.Event)
  /-- What the fold returned. -/
  | folded (folded : Bool)
  /-- Whether the worktree was seen dirty. -/
  | dirty (dirty : Bool)

/-- A call for a fix. -/
structure FixCall where
  hookOutput : Text
  model : Option Text
  taskType : Option Text
  maxBudgetUsd : ℚ
  timeout : Nat

/-- What the step reads of the configuration and of the context, but for what is spent. -/
structure Config where
  worktree : Worktree
  branchName : Text
  maxBudget : ℚ
  maxFixAttempts : Nat := 2
  hookTimeout : Nat := 120
  fixTimeout : Nat := 600
  /-- `ctx.resolved_model or ctx.config.agent.model`. -/
  devModel : Option Text := none
  /-- `ctx.routing_task_type(TASK_TYPE)`. -/
  routingTaskType : Option Text := none

/-- What is called. -/
structure Services (ω : Type) where
  fold : CommitFold.Services ω
  run : Command → ω → Except PyException ShellResult × ω
  /-- `(Path(toplevel) / ".githooks" / "pre-push").exists()`. -/
  githooksHookExists : Text → ω → Except PyException Bool × ω
  /-- The hook, with its standard input and the timeout. -/
  runHook : Text → Text → Nat → ω → Except PyException ShellResult × ω
  dispatchPrompt : FixCall → ω → Except PyException LLMResult × ω
  /-- `_wall_clock_remaining_fraction`. -/
  wallClockRemainingFraction : ω → ℚ × ω
  /-- `_call_count_remaining_fraction`. -/
  callCountRemainingFraction : ω → ℚ × ω
  /-- `str(exc)`. -/
  errorText : PyException → Text
  /-- `except RuntimeError`. -/
  isRuntimeError : PyException → Bool
  /-- `isinstance(exc, LLMTimeoutError)`. -/
  isLlmTimeout : PyException → Bool
  /-- `f"{fraction:.0%}"`. -/
  percent : ℚ → Text

abbrev Run (ω α : Type) := Prog ω Event PyException α

variable {ω : Type}

def run (svc : Services ω) (command : Command) : Run ω ShellResult :=
  perform (svc.run command) (.ran command)

/-! ## The hook -/

def findPrePushHookIn (svc : Services ω) (hooksDir : Text) : Run ω (Option Text) := do
  let hookPath := hooksDir ++ "/pre-push".toList
  let result ← run svc (.testExecutable hookPath)
  return if result.success then some hookPath else none

/-- `find_pre_push_hook`. -/
def findPrePushHook (svc : Services ω) : Run ω (Option Text) := do
  let configured ← run svc .getHooksPath
  if configured.success && Text.strip configured.stdout ≠ [] then
    findPrePushHookIn svc (Text.strip configured.stdout)
  else
    let toplevel ← run svc .showToplevel
    if toplevel.success then
      if ← perform (svc.githooksHookExists (Text.strip toplevel.stdout)) .looked then
        let _ ← run svc .setHooksPath
        findPrePushHookIn svc ".githooks".toList
      else
        let gitDir ← run svc .gitDir
        if gitDir.success then findPrePushHookIn svc (Text.strip gitDir.stdout ++ "/hooks".toList)
        else return none
    else return none

def zeroSha : Text := List.replicate 40 '0'

/-- `get_current_branch`, where no branch is given. -/
def branchOr (svc : Services ω) (branch : Text) : Run ω Text :=
  if branch ≠ [] then return branch
  else do
    let result ← run svc .currentBranch
    if result.success then return Text.strip result.stdout else raise .runtimeError

/-- `build_pre_push_stdin`. -/
def buildPrePushStdin (svc : Services ω) (branch : Text) : Run ω Text := do
  let branch ← branchOr svc branch
  let ref := "refs/heads/".toList ++ branch
  let head ← run svc .revParseHead
  if head.success then
    let upstream ← run svc (.upstream branch)
    let remoteSha := if upstream.success then Text.strip upstream.stdout else zeroSha
    return ref ++ ' ' :: Text.strip head.stdout ++ ' ' :: ref ++ ' ' :: remoteSha ++ ['\n']
  else raise .runtimeError

/-- The hook as `execute` runs it. -/
def runHook (svc : Services ω) (cfg : Config) (hook : Text) : Run ω ShellResult := do
  let stdin ← buildPrePushStdin svc cfg.branchName
  perform (svc.runHook hook stdin cfg.hookTimeout) .hook

def hookOutput (result : ShellResult) : Text := Text.strip (result.stdout ++ '\n' :: result.stderr)

/-! ## The resources -/

/-- `is_budget_exceeded`. -/
def isBudgetExceeded (cfg : Config) (spending : Spending) : Bool := cfg.maxBudget < spending.costUsd

/-- `budget_remaining_fraction`. -/
def budgetRemainingFraction (cfg : Config) (spending : Spending) : ℚ :=
  if cfg.maxBudget = 0 then 1 else max 0 (min 1 (1 - spending.costUsd / cfg.maxBudget))

/-- `resource_remaining_fraction`. -/
def resourceRemainingFraction (svc : Services ω) (cfg : Config) (spending : Spending) : Run ω ℚ := fun s =>
  let wallClock := svc.wallClockRemainingFraction s.world
  let callCount := svc.callCountRemainingFraction wallClock.2
  (.ok (min (min (budgetRemainingFraction cfg spending) wallClock.1) callCount.1),
    { s with world := callCount.2 })

/-- `BUDGET_STOP_RETRY_THRESHOLD`. -/
def budgetStopRetryThreshold : ℚ := 1 / 5

/-! ## A fix -/

/-- `TASK_TYPE`. -/
def taskType : Text := "validate".toList

/-- `resolve_fix_attempt_route`: the model, and the task type of the first attempt only. -/
def resolveFixAttemptRoute (cfg : Config) (attempt : Nat) : Option Text × Option Text :=
  (cfg.devModel, if attempt ≤ 1 then cfg.routingTaskType else none)

def fixAttemptRoutedReason (result : LLMResult) (attemptTaskType : Option Text) : Option Text :=
  match attemptTaskType, result.routedTaskTypeModel with
  | some _, some model =>
    some ("task_type:".toList ++ taskType ++ " fix attempt 1 routed to ".toList ++ model)
  | _, _ => none

def formatFixLlmFailure (svc : Services ω) (exc : PyException) (cycle : Nat) : Text :=
  (if svc.isLlmTimeout exc then "fix_llm_timeout".toList else "fix_llm_failed".toList) ++
    " on cycle ".toList ++ Text.ofInt cycle ++ ": ".toList ++ svc.errorText exc

/-- `_unwind_ordinary_commits`. -/
def unwindOrdinaryCommits (svc : Services ω) (cfg : Config) (preDispatchHead : ShellResult) : Run ω Unit :=
  if !preDispatchHead.success then return ()
  else do
    let preSha := Text.strip preDispatchHead.stdout
    let postDispatchHead ← run svc .revParseHead
    if !postDispatchHead.success || Text.strip postDispatchHead.stdout == preSha then return ()
    else
      let ancestry ← run svc (.isAncestor preSha)
      if ancestry.success then
        let subjects ← run svc (.logSubjects preSha)
        if !subjects.success || (Text.lines subjects.stdout).any isMarkerSubject then return ()
        else
          let _ ← run svc (.resetSoft preSha)
          return ()
      else
        match ← labelled (.part .unwinding) (CommitFold.resolveBaseRef svc.fold cfg.worktree.baseBranch) with
        | none => return ()
        | some baseRef =>
          let _ ← labelled (.part .unwinding)
            (CommitFold.isOnBase svc.fold (Text.strip postDispatchHead.stdout) baseRef)
          return ()

/-- A line of the status counts, but for an untracked artifact. -/
def isDirtyLine (line : Text) : Bool :=
  line ≠ [] && !("??".toList.isPrefixOf line && isAgentArtifact (line.drop 3))

/-- `_worktree_is_dirty`, without the note of what it has found. -/
def statusIsDirty (svc : Services ω) : Run ω Bool :=
  trying (run svc .statusPorcelain) (fun status => status.success && (Text.lines status.stdout).any isDirtyLine)
    fun e => if e.isOsError then some false else none

def worktreeIsDirty (svc : Services ω) : Run ω Bool := do
  let isDirty ← statusIsDirty svc
  note (.dirty isDirty)
  return isDirty

/-- The fold of a fix, with a note of what it returns. -/
def foldFix (svc : Services ω) (cfg : Config) : Run ω Bool := do
  let folded ← labelled (.part .folding) (CommitFold.foldFixIntoBranch svc.fold cfg.worktree)
  note (.folded folded)
  return folded

/-- `not folded and await has_unresolved_marker_commits(...)`. -/
def isStranded (svc : Services ω) (cfg : Config) (folded : Bool) : Run ω Bool :=
  if folded then return false
  else labelled (.part .checking) (CommitFold.hasUnresolvedMarkerCommits svc.fold cfg.worktree.baseBranch)

/-- `not folded and await self._worktree_is_dirty(cwd)`. -/
def isLeftBehind (svc : Services ω) (folded : Bool) : Run ω Bool :=
  if folded then return false else worktreeIsDirty svc

/-- The call for a fix: its result, or the error that is handled. -/
def askForFix (svc : Services ω) (call : FixCall) : Run ω (Except PyException LLMResult) :=
  trying (perform (svc.dispatchPrompt call) .called) .ok
    fun e => if svc.isRuntimeError e then some (.error e) else none

/-! ## The results -/

/-- `f"{attempt} fix attempt(s)"` behind some words. -/
def afterAttempts (words : String) (attempt : Nat) : Text :=
  words.toList ++ Text.ofInt attempt ++ " fix attempt(s)".toList

def timedOut (cfg : Config) (cost : ℚ) : StepResult where
  success := false
  summary := "Pre-push hook exceeded ".toList ++ Text.ofInt cfg.hookTimeout ++ "s and was killed".toList
  error := some "hook_timeout".toList
  costUsd := cost

def budgetExceeded (attempt : Nat) (cost : ℚ) : StepResult where
  success := false
  summary := afterAttempts "Pre-push hook failed; budget exceeded after " (attempt - 1)
  error := some "budget_exceeded".toList
  costUsd := cost

def retriesStopped (svc : Services ω) (fraction : ℚ) (attempt : Nat) (cost : ℚ) : StepResult where
  success := true
  summary := "Pre-push hook failed; stopping fix retries at ".toList ++ svc.percent fraction ++
    " budget remaining (".toList ++ Text.ofInt (attempt - 1 : Nat) ++ " attempt(s) made)".toList
  costUsd := cost

def llmFailed (svc : Services ω) (exc : PyException) (attempt : Nat) (cost : ℚ) : StepResult where
  success := false
  summary := "Pre-push hook failed and auto-fix failed: ".toList ++ svc.errorText exc
  error := some (formatFixLlmFailure svc exc attempt)
  costUsd := cost

def markerStranded (attempt : Nat) (cost : ℚ) : StepResult where
  success := false
  summary := afterAttempts "Pre-push hook fix could not be folded after " attempt ++
    ": a fixup/squash/amend marker commit remains on the branch".toList
  error := some "marker_commit_stranded".toList
  costUsd := cost

def foldFailed (attempt : Nat) (cost : ℚ) : StepResult where
  success := false
  summary := afterAttempts "Pre-push hook passed after " attempt ++
    ", but the fix could not be folded into the branch".toList
  error := some "fold_failed".toList
  costUsd := cost

def passed (attempt : Nat) (cost : ℚ) : StepResult where
  success := true
  summary := afterAttempts "Pre-push hook passed after " attempt
  costUsd := cost

def stillFailing (cfg : Config) (output : Text) (cost : ℚ) : StepResult where
  success := false
  summary := "Pre-push hook still failing after ".toList ++ Text.ofInt cfg.maxFixAttempts ++
    " fix attempts".toList
  error := some (output.take 1000)
  costUsd := cost

/-! ## The loop -/

/-- What the loop carries: the output of the hook that failed last, the cost of the fixes, and the accounting of
the context. -/
structure Progress where
  output : Text
  totalFixCost : ℚ := 0
  spending : Spending

/-- What a round of the loop comes to. -/
inductive Round where
  | done (result : StepResult)
  | next (progress : Progress)

/-- The hook after a fix. -/
def retryHook (svc : Services ω) (cfg : Config) (hook : Text) (attempt : Nat) (folded : Bool) (p : Progress) :
    Run ω Round := do
  let retry ← runHook svc cfg hook
  if retry.success then
    if ← isLeftBehind svc folded then return .done (foldFailed attempt p.totalFixCost)
    else return .done (passed attempt p.totalFixCost)
  else if retry.timedOut then return .done (timedOut cfg p.totalFixCost)
  else return .next { p with output := hookOutput retry }

/-- The fix that a model returned is folded into the branch, and the hook is run again. -/
def tryFix (svc : Services ω) (cfg : Config) (hook : Text) (attempt : Nat) (preDispatchHead : ShellResult)
    (p : Progress) : Run ω Round := do
  unwindOrdinaryCommits svc cfg preDispatchHead
  let folded ← foldFix svc cfg
  if ← isStranded svc cfg folded then return .done (markerStranded attempt p.totalFixCost)
  else retryHook svc cfg hook attempt folded p

/-- A round of the loop. -/
def fixRound (svc : Services ω) (cfg : Config) (hook : Text) (attempt : Nat) (p : Progress) : Run ω Round := do
  if isBudgetExceeded cfg p.spending then return .done (budgetExceeded attempt p.totalFixCost)
  else
    let fraction ← resourceRemainingFraction svc cfg p.spending
    if fraction < budgetStopRetryThreshold then
      note (.refused fraction)
      let shown ← resourceRemainingFraction svc cfg p.spending
      return .done (retriesStopped svc shown attempt p.totalFixCost)
    else
      let route := resolveFixAttemptRoute cfg attempt
      let preDispatchHead ← run svc .revParseHead
      let called ← askForFix svc
        { hookOutput := p.output, model := route.1, taskType := route.2
          maxBudgetUsd := cfg.maxBudget - p.spending.costUsd, timeout := cfg.fixTimeout }
      match called with
      | .error exc => return .done (llmFailed svc exc attempt p.totalFixCost)
      | .ok result =>
        let spending := addUsage p.spending { result, routedReason := fixAttemptRoutedReason result route.2 }
        tryFix svc cfg hook attempt preDispatchHead
          { p with totalFixCost := p.totalFixCost + result.costUsd, spending }

/-- The loop, with the number of attempts that are left and the number of the next one. -/
def fixLoop (svc : Services ω) (cfg : Config) (hook : Text) : Nat → Nat → Progress → Run ω StepResult
  | 0, _, p => return stillFailing cfg p.output p.totalFixCost
  | n + 1, attempt, p => do
    match ← fixRound svc cfg hook attempt p with
    | .done result => return result
    | .next p => fixLoop svc cfg hook n (attempt + 1) p

/-- `find_pre_push_hook`, with a note of what it finds. -/
def findHook (svc : Services ω) : Run ω (Option Text) := do
  let hook ← findPrePushHook svc
  note (.found hook)
  return hook

def execute (svc : Services ω) (cfg : Config) (spending : Spending) : Run ω StepResult := do
  match ← findHook svc with
  | none => return { success := true, summary := "No pre-push hook found, skipping validation".toList }
  | some hook =>
    let result ← runHook svc cfg hook
    if result.success then return { success := true, summary := "Pre-push hook passed".toList }
    else if result.timedOut then return timedOut cfg 0
    else fixLoop svc cfg hook cfg.maxFixAttempts 1 { output := hookOutput result, spending }

end Core.Validate

import SovaVerified.Git.Rebase

/-!
# Automatic rebases

`sova/supervisor/rebase.py`: `attempt_auto_rebase`, which looks for a worktree to rebase a pull request in,
rebases and pushes it, and records the run. What it calls is outside: it has a state of any type, and any
call may raise, also to cancel the task.

A call that looks for the worktree is written down with what it raised, the call of the rebase before it is
made, and a record of the run with whether it was written to the database. The lock that keeps two rebases of
one pull request apart and the log are left out.
-/

namespace Supervisor.AutoRebase

open Outside Git

/-- `load_config`, as far as it is read. -/
structure RebaseConfig where
  githubRepo : Text := []
  githubUser : Text := []
  baseBranch : Text := "main".toList
  copyFiles : List Text := []

/-- `_get_pr_info`; `none`: the key of the base branch is missing. -/
structure PrInfo where
  number : Int
  branch : Text
  headSha : Text
  baseBranch : Option Text

/-- The `handoff_json` of a run, as far as it is read. -/
structure HandoffJson where
  headSha : Option Text := none
  attempted : Option Bool := none
  deriving DecidableEq

/-- The arguments of `_finalize_run`. -/
structure Finalization where
  runId : Int
  status : Text
  error : Option Text
  headSha : Text
  attempted : Bool := true

/-- What came of `_finalize_run`: whether the run was written, and what it raised. -/
structure Finalized where
  written : Bool
  raised : Option PyException := none

/-- `_run_pre_push_hook`. -/
structure HookResult where
  passed : Bool
  output : Text := []

/-- What `_write_manual_handoff` is called with about a pull request. -/
structure ManualHandoff where
  prNumber : Int
  summary : Text
  validationError : Text := []

/-- The commands that are run directly. -/
inductive RebaseCommand where
  /-- `git worktree prune` -/
  | prune
  /-- `git status --porcelain` -/
  | status (worktree : Text)
  /-- `git push origin <branch> --force-with-lease` -/
  | push (worktree branch : Text)

/-- `RebaseOperations`, with what of them is in this module cut down to its reads and writes of the
database. -/
structure Services (ω : Type) where
  loadConfig : ω → Except PyException RebaseConfig × ω
  getPrInfo : Int → Text → Text → ω → Except PyException (Option PrInfo) × ω
  /-- The `handoff_json` of the runs of rebases of a pull request. -/
  rebaseRuns : Int → ω → Except PyException (List (Option HandoffJson)) × ω
  /-- The number of the new run. -/
  createRebaseRun : Int → Int → Text → ω → Except PyException Int × ω
  run : RebaseCommand → ω → Except PyException ShellResult × ω
  findWorktreeByBranch : Text → ω → Except PyException (Option Text) × ω
  /-- `existing_wt.resolve() == project_dir.resolve()`. -/
  isMainCheckout : Text → ω → Except PyException Bool × ω
  createWorktree : Text → Text → Text → List Text → ω → Except PyException Text × ω
  checkWorktreeActiveAgent : Text → ω → Except PyException (Option Int) × ω
  cleanupWorktree : Text → ω → Except PyException Unit × ω
  rebaseWithConflictResolution : Text → Text → Nat → ω → Except PyException (Rebase.RebaseResult × ℚ) × ω
  updateRunCost : Int → ℚ → ω → Except PyException Unit × ω
  finalizeRun : Finalization → ω → Finalized × ω
  runPrePushHook : Text → ω → Except PyException HookResult × ω
  writeManualHandoff : ManualHandoff → ω → Except PyException Unit × ω
  /-- `str(exc)`. -/
  errorText : PyException → Text

/-- The calls by which the worktree is looked for, checked or made. -/
inductive SetupCall where
  | prune
  | findWorktree
  | isMainCheckout
  | createWorktree
  | checkActiveAgent
  | status
  deriving DecidableEq

/-- What a run writes down. -/
inductive Event where
  | setup (call : SetupCall) (raised : Option PyException)
  /-- `rebase_with_conflict_resolution` is called. -/
  | rebase
  | finalized (attempted : Bool) (outcome : Finalized)

inductive Result where
  | skipped (prNumber : Option Int) (reason : Text)
  | failed (prNumber : Option Int) (error : Text)
  | success (prNumber : Int) (conflictsResolved : Nat)

/-- The arguments that the functions below pass on. -/
structure Job where
  issueNumber : Int
  prNumber : Int
  branch : Text
  baseBranch : Text
  headSha : Text
  copyFiles : List Text

/-- `_resolve_rebase_worktree`: a worktree and whether it is reused, or an early result. -/
inductive Resolution where
  | worktree (path : Text) (reused : Bool)
  | finished (result : Result)

abbrev Action (ω α : Type) := Prog ω Event PyException α

/-- `asyncio.CancelledError`. -/
def cancelled : PyException := .other "CancelledError".toList

def raisedBy {α : Type} : Except PyException α → Option PyException
  | .ok _ => none
  | .error e => some e

section

variable {ω : Type} (services : Services ω) (job : Job) (runId : Int)

/-- A call that looks for the worktree. -/
def setup {α : Type} (call : SetupCall) (question : ω → Except PyException α × ω) : Action ω α :=
  perform question fun answer => .setup call (raisedBy answer)

def finalizeRun (f : Finalization) : Action ω Unit := fun s =>
  let (outcome, world) := services.finalizeRun f s.world
  ((match outcome.raised with
    | none => .ok ()
    | some e => .error e),
    { world, reads := .finalized f.attempted outcome :: s.reads })

/-- The test of `_already_attempted` for a run. -/
def countsAsAttempt (headSha : Text) : Option HandoffJson → Bool
  | none => false
  | some handoff => handoff.headSha == some headSha && handoff.attempted.getD true

/-- `_already_attempted`. -/
def alreadyAttempted : Action ω Bool := do
  let runs ← act (services.rebaseRuns job.prNumber)
  pure (runs.any (countsAsAttempt job.headSha))

/-- `_worktree_is_clean`. -/
def worktreeIsClean (path : Text) : Action ω Bool := do
  let status ← setup .status (services.run (.status path))
  pure (status.success && Text.strip status.stdout == [])

/-- A safety skip: the run is recorded as not attempted. -/
def skip (reason : Text) : Action ω Resolution := do
  finalizeRun services
    { runId, status := "failed".toList, error := some reason, headSha := job.headSha, attempted := false }
  pure (.finished (.skipped (some job.prNumber) reason))

/-- The checks of a worktree in which the branch is checked out. -/
def checkWorktree (path : Text) : Action ω Resolution := do
  let agent ← trying (setup .checkActiveAgent (services.checkWorktreeActiveAgent path)) Except.ok fun e =>
    if e = .runtimeError then some (Except.error e) else none
  match agent with
  | .error e => do
    let reason := "Cannot verify worktree safety: ".toList ++ services.errorText e
    finalizeRun services
      { runId, status := "failed".toList, error := some reason, headSha := job.headSha, attempted := false }
    pure (.finished (.failed (some job.prNumber) (services.errorText e)))
  | .ok (some pid) =>
    skip services job runId ("Branch ".toList ++ job.branch ++
      " worktree is actively in use by agent PID ".toList ++ Text.ofInt pid)
  | .ok none => do
    if ← worktreeIsClean services path then pure (.worktree path true)
    else
      skip services job runId ("Branch ".toList ++ job.branch ++
        " worktree has uncommitted changes or its status could not be verified".toList)

/-- `_resolve_rebase_worktree`. -/
def resolveRebaseWorktree : Action ω Resolution := do
  let _ ← setup .prune (services.run .prune)
  let existing ← trying (setup .findWorktree (services.findWorktreeByBranch job.branch)) id fun e =>
    if e.isOsOrRuntime then some none else none
  match existing with
  | none => do
    let worktreeId := "rebase-pr-".toList ++ Text.ofInt job.prNumber
    let path ← setup .createWorktree
      (services.createWorktree worktreeId job.branch job.baseBranch job.copyFiles)
    pure (.worktree path false)
  | some path => do
    if ← setup .isMainCheckout (services.isMainCheckout path) then
      skip services job runId ("Branch ".toList ++ job.branch ++
        " is checked out in the main project checkout; auto-rebase does not reuse it".toList)
    else checkWorktree services job runId path

/-- The end of a run whose rebase was tried. -/
def conclude (status : Text) (error : Option Text) : Action ω Unit :=
  finalizeRun services { runId, status, error, headSha := job.headSha }

/-- `_run_rebase_and_push`, behind the rebase. -/
def validateAndPush (path : Text) (conflictsResolved : Nat) : Action ω Result := do
  let hook ← act (services.runPrePushHook path)
  if hook.passed then
    let push ← act (services.run (.push path job.branch))
    if push.success then
      conclude services job runId "done".toList none
      pure (.success job.prNumber conflictsResolved)
    else if Text.isIn "stale info".toList push.stderr || Text.isIn "rejected".toList push.stderr then
      let reason := "Branch HEAD changed during rebase".toList
      conclude services job runId "done".toList (some reason)
      pure (.skipped (some job.prNumber) reason)
    else
      conclude services job runId "failed".toList (some (push.stderr.take 500))
      pure (.failed (some job.prNumber) (push.stderr.take 500))
  else
    conclude services job runId "failed".toList (some "Pre-push hook failed".toList)
    act (services.writeManualHandoff
      { prNumber := job.prNumber
        summary := "Rebase succeeded but pre-push hook failed".toList
        validationError := hook.output })
    pure (.failed (some job.prNumber) "Pre-push hook failed after rebase".toList)

/-- `_run_rebase_and_push`. -/
def runRebaseAndPush (path : Text) : Action ω Result := do
  note .rebase
  let (result, cost) ← act (services.rebaseWithConflictResolution job.baseBranch path 5)
  act (services.updateRunCost runId cost)
  if result.success then validateAndPush services job runId path result.conflictsResolved
  else
    conclude services job runId "failed".toList (some result.error)
    act (services.writeManualHandoff
      { prNumber := job.prNumber, summary := "Auto-rebase failed: ".toList ++ result.error })
    pure (.failed (some job.prNumber) result.error)

/-- The `except` clauses of `_run_locked_rebase`, once there is a run. -/
def handled {α : Type} (ended : Result → α) (p : Action ω α) : Action ω α :=
  rescue p fun e =>
    if e = cancelled then some do
      conclude services job runId "failed".toList (some "Rebase cancelled".toList)
      raise e
    else if Rebase.isException e then some do
      conclude services job runId "failed".toList (some (services.errorText e))
      pure (ended (.failed (some job.prNumber) (services.errorText e)))
    else none

/-- The first part of `_run_locked_rebase`, up to the creation of the run. -/
def beginRun : Action ω (Result ⊕ Int) :=
  rescue
    (do
      if ← alreadyAttempted services job then
        pure (.inl (.skipped none ("Already attempted rebase for PR #".toList ++ Text.ofInt job.prNumber ++
          " at HEAD ".toList ++ job.headSha.take 8)))
      else
        let runId ← act (services.createRebaseRun job.issueNumber job.prNumber job.branch)
        pure (.inr runId))
    fun e =>
      if Rebase.isException e then
        some (pure (.inl (.failed (some job.prNumber) (services.errorText e))))
      else none

/-- The `finally` clause of `_run_locked_rebase`, for a worktree of its own. -/
def removeWorktree (path : Text) : Action ω Unit :=
  trying (act (services.cleanupWorktree path)) id fun e => if e.isOsOrRuntime then some () else none

/-- `_run_locked_rebase`. Its one `try` statement is cut where the run is created and where the worktree is
found: each part has the clauses as they are with the variables that are set by then. -/
def runLockedRebase : Action ω Result := do
  match ← beginRun services job with
  | .inl result => pure result
  | .inr runId => do
    match ← handled services job runId .finished (resolveRebaseWorktree services job runId) with
    | .finished result => pure result
    | .worktree path reused =>
      ensuring (handled services job runId id (runRebaseAndPush services job runId path))
        (if reused then pure () else removeWorktree services path)

/-- The setup of `attempt_auto_rebase`. -/
def findJob (issueNumber : Int) : Action ω (Result ⊕ Job) :=
  rescue
    (do
      let cfg ← act services.loadConfig
      if cfg.githubRepo = [] then pure (.inl (.skipped none "No github_repo configured".toList))
      else
        match ← act (services.getPrInfo issueNumber cfg.githubRepo cfg.githubUser) with
        | none =>
          pure (.inl (.skipped none ("No open PR found for issue #".toList ++ Text.ofInt issueNumber)))
        | some info =>
          pure (.inr
            { issueNumber
              prNumber := info.number
              branch := info.branch
              baseBranch := info.baseBranch.getD cfg.baseBranch
              headSha := info.headSha
              copyFiles := cfg.copyFiles }))
    fun e =>
      if Rebase.isException e then some (pure (.inl (.failed none (services.errorText e)))) else none

def attemptAutoRebase (issueNumber : Int) : Action ω Result := do
  match ← findJob services issueNumber with
  | .inl result => pure result
  | .inr job => runLockedRebase services job

end

end Supervisor.AutoRebase

import SovaVerified.Core.Workflow
import SovaVerified.Outside.Outside

/-!
# The CI monitor

`sova/core/steps/monitor_ci.py`: the step that waits for the CI checks of a pull request. It reads check
lists for the pull request and for single commits, the head of the pull request, the workflow runs of a
commit and the clock, until a list says that CI is through.

The fix loop, which the step enters when checks have failed, is left out: `execute` ends where it begins.
So are the heartbeats and the sleep between two polls, which only lets the clock go on.
-/

namespace Core.MonitorCi

open Outside

inductive CheckStatus where
  | queued
  | inProgress
  | completed
  deriving DecidableEq, Repr

inductive CheckConclusion where
  | success
  | failure
  | neutral
  | cancelled
  | timedOut
  | actionRequired
  | skipped
  deriving DecidableEq, Repr

structure CICheck where
  name : Text
  status : CheckStatus
  conclusion : Option CheckConclusion
  deriving DecidableEq

def CICheck.isCompleted (c : CICheck) : Bool := c.status == .completed

def CICheck.isPassed (c : CICheck) : Bool := c.isCompleted && c.conclusion == some .success

def CICheck.isFailed (c : CICheck) : Bool :=
  c.isCompleted && (c.conclusion == some .failure || c.conclusion == some .timedOut ||
    c.conclusion == some .actionRequired)

def CICheck.isCancelled (c : CICheck) : Bool := c.conclusion == some .cancelled

structure CIConfig where
  maxWait : Nat := 1500
  noChecksGracePeriod : Nat := 120
  maxFixAttempts : Nat := 2
  excludeChecks : List Text := []
  deriving DecidableEq

/-- What the step reads of the execution context. -/
structure StepContext where
  prNumber : Option Nat
  noNewCommits : Bool := false
  resumeRunId : Option Nat := none
  config : CIConfig := {}
  deriving DecidableEq

/-! ## The outside -/

inductive LookupError where
  | unknownCommit (message : Text)
  | runtime (message : Text)
  | os (message : Text)
  | other (message : Text)
  deriving DecidableEq, Repr

/-- An answer that the step has read. `none` is a lookup that failed. -/
inductive Read where
  | prChecks (checks : Option (List CICheck))
  | shaChecks (sha : Text) (checks : Option (List CICheck))
  | headSha (sha : Text)
  | workflowRuns (sha : Text) (found : Option Bool)
  | localHead (success : Bool) (stdout : Text)
  | clock (now : ℚ)
  deriving DecidableEq

/-- GitHub, the working tree and the clock. -/
structure Env (ω : Type) where
  getCiChecks : ω → Except LookupError (Option (List CICheck)) × ω
  getCiChecksForSha : Text → ω → Except LookupError (Option (List CICheck)) × ω
  /-- Empty when the head cannot be read. -/
  getPrHeadSha : ω → Except LookupError Text × ω
  shaHasWorkflowRuns : Text → ω → Except LookupError (Option Bool) × ω
  /-- `git rev-parse HEAD`. -/
  revParseHead : ω → Except LookupError (Bool × Text) × ω
  monotonic : ω → ℚ × ω

abbrev Ci (ω α : Type) := Prog ω Read LookupError α

variable {ω : Type} (env : Env ω)

def getCiChecks : Ci ω (Option (List CICheck)) := ask env.getCiChecks Read.prChecks

def getCiChecksForSha (sha : Text) : Ci ω (Option (List CICheck)) :=
  ask (env.getCiChecksForSha sha) (Read.shaChecks sha)

def getPrHeadSha : Ci ω Text := ask env.getPrHeadSha Read.headSha

def shaHasWorkflowRuns (sha : Text) : Ci ω (Option Bool) :=
  ask (env.shaHasWorkflowRuns sha) (Read.workflowRuns sha)

def monotonic : Ci ω ℚ := ask (fun w => let read := env.monotonic w; (.ok read.1, read.2)) Read.clock

/-- `_get_local_head_sha`. -/
def getLocalHeadSha : Ci ω Text := do
  let result ← trying (ask env.revParseHead fun r => Read.localHead r.1 r.2) id fun e =>
    match e with
    | .os _ => some (false, [])
    | _ => none
  pure (if result.1 then Text.strip result.2 else [])

/-! ## The judgement of a check list -/

/-- The checks that `ci.exclude_checks` leaves. -/
def withoutExcluded (cfg : CIConfig) (checks : List CICheck) : List CICheck :=
  checks.filter fun c => !(cfg.excludeChecks.any fun pat => Text.isIn pat c.name)

def names (checks : List CICheck) : Text := Text.join ", ".toList (checks.map CICheck.name)

/-- The list has a cancelled check and none that passed. -/
def onlyCancelled (checks : List CICheck) : Bool :=
  !(checks.any CICheck.isPassed) && checks.any CICheck.isCancelled

/-- `_find_pr_head_mismatch`. -/
def findPrHeadMismatch (expectedSha : Text) : Ci ω (Option Text) := do
  let headSha ← getPrHeadSha env
  pure (if headSha.isEmpty || headSha == expectedSha then none else some headSha)

/-- The other head that the pull request has got, where the step is bound to a commit. -/
def movedHead (expectedSha : Text) : Ci ω (Option Text) :=
  if expectedSha.isEmpty then pure none else findPrHeadMismatch env expectedSha

/-- The reasons of `_pr_confirms_no_checks`. -/
inductive NotConfirmed where
  | prReportsChecks
  | prLookupFailed
  | runWithoutChecks
  | runLookupUnreadable
  deriving DecidableEq, Repr

/-- The checks of the pull request, unless they have been read already. -/
def prLevelChecks : Option (List CICheck) → Ci ω (Option (List CICheck))
  | some checks => pure (some checks)
  | none => getCiChecks env

/-- `_pr_confirms_no_checks`: `none` when there are none. -/
def prConfirmsNoChecks (cfg : CIConfig) (expectedSha : Text) (prChecks : Option (List CICheck)) :
    Ci ω (Option NotConfirmed) := do
  match ← prLevelChecks env prChecks with
  | none => pure (some .prLookupFailed)
  | some checks =>
    if !(withoutExcluded cfg checks).isEmpty then pure (some .prReportsChecks)
    else
      match ← shaHasWorkflowRuns env expectedSha with
      | none => pure (some .runLookupUnreadable)
      | some true => pure (some .runWithoutChecks)
      | some false => pure none

/-! ## The three paths -/

def succeed (summary : Text) : StepResult := { success := true, summary }

def fail (summary error : Text) : StepResult := { success := false, summary, error }

/-- The verdict of the fast path on checks that are all completed. Cancelled checks do not count against
it. -/
def judgeExisting (checks : List CICheck) : StepResult :=
  let failed := checks.filter CICheck.isFailed
  if !failed.isEmpty then
    fail ("CI already failed: ".toList ++ names failed) ("Failed checks: ".toList ++ names failed)
  else
    succeed ("All ".toList ++ Text.ofInt checks.length ++
      " CI checks already passed (no new push)".toList)

/-- `_check_existing_ci`. -/
def checkExistingCi (cfg : CIConfig) : Ci ω (Option StepResult) := do
  let fetched ← trying (getCiChecks env) id fun e =>
    match e with
    | .other _ => none
    | _ => some none
  match fetched with
  | none => pure none
  | some checks =>
    let checks := withoutExcluded cfg checks
    if checks.isEmpty then pure none
    else if !(checks.all CICheck.isCompleted) then pure none
    else pure (some (judgeExisting checks))

/-- The verdict of the resume check on checks that are all completed. -/
def judgeResumed (checks : List CICheck) : StepResult :=
  let failed := checks.filter CICheck.isFailed
  if !failed.isEmpty then
    fail ("CI failed: ".toList ++ names failed) ("Failed checks: ".toList ++ names failed)
  else if onlyCancelled checks then
    fail ("CI checks completed without any passing: ".toList ++ names checks)
      ("No passing checks: ".toList ++ names checks)
  else
    succeed ("CI already passed (resumed after interruption, ".toList ++ Text.ofInt checks.length ++
      " checks)".toList)

/-- The lookup of the resume check: for the commit, or for the pull request when there is none. -/
def fetchOnResume (expectedSha : Text) : Ci ω (Option (List CICheck)) :=
  if expectedSha.isEmpty then getCiChecks env
  else
    trying (getCiChecksForSha env expectedSha) id fun e =>
      match e with
      | .unknownCommit _ => some none
      | _ => none

/-- `_check_ci_on_resume`. -/
def checkCiOnResume (cfg : CIConfig) : Ci ω (Option StepResult) := do
  let expectedSha ← getLocalHeadSha env
  match ← fetchOnResume env expectedSha with
  | none => pure none
  | some checks =>
    let checks := withoutExcluded cfg checks
    if checks.isEmpty then pure none
    else if !(checks.all CICheck.isCompleted) then pure none
    else
      let mismatch ← movedHead env expectedSha
      if mismatch.isSome then pure none else pure (some (judgeResumed checks))

/-- The variables of the poll loop. -/
structure Polling where
  expectedSha : Text
  startTime : ℚ
  graceStart : ℚ
  elapsed : Int
  deriving DecidableEq

/-- `int` of a duration. -/
def truncate (x : ℚ) : Int := if 0 ≤ x then x.floor else -(-x).floor

inductive Polled where
  | decided (result : StepResult) (failed : List CICheck)
  | again (p : Polling)
  deriving DecidableEq

/-- The end of an iteration that goes on. -/
def pollAgain (p : Polling) : Ci ω Polled := do
  let now ← monotonic env
  pure (.again { p with elapsed := truncate (now - p.startTime) })

/-- The answer to a lookup of checks. -/
inductive Fetched where
  | checks (checks : Option (List CICheck))
  | unknownCommit (message : Text)
  deriving DecidableEq

/-- The lookup of an iteration: for the commit, or for the pull request when there is none. -/
def fetchChecks (expectedSha : Text) : Ci ω Fetched :=
  if expectedSha.isEmpty then do
    let checks ← getCiChecks env
    pure (.checks checks)
  else
    trying (getCiChecksForSha env expectedSha) Fetched.checks fun e =>
      match e with
      | .unknownCommit message => some (.unknownCommit message)
      | _ => none

/-- GitHub does not know the commit. -/
def pollUnknownCommit (p : Polling) (message : Text) : Ci ω Polled := do
  let headSha ← getPrHeadSha env
  if headSha.isEmpty || headSha == p.expectedSha then pollAgain env p
  else
    pure (.decided (fail ("Polled commit ".toList ++ p.expectedSha.take 8 ++
      " is not on the remote; push may have failed".toList) message) [])

/-- The commit to ask about: the one of the step, or else the head of the pull request. -/
def confirmSha (expectedSha : Text) : Ci ω Text :=
  if expectedSha.isEmpty then getPrHeadSha env else pure expectedSha

/-- The grace period is over, and GitHub still lists no check. -/
def pollUnregistered (cfg : CIConfig) (p : Polling) : Ci ω Polled := do
  let sha ← confirmSha env p.expectedSha
  if sha.isEmpty then pollAgain env p
  else
    let prChecks := if p.expectedSha.isEmpty then some [] else none
    match ← prConfirmsNoChecks env cfg sha prChecks with
    | some _ => pollAgain env p
    | none =>
      pure (.decided (succeed ("No CI checks found after ".toList ++ Text.ofInt p.elapsed ++
        "s grace period, proceeding".toList)) [])

/-- No check is left of the list that was read. -/
def pollNoChecks (cfg : CIConfig) (p : Polling) (checks : List CICheck) : Ci ω Polled := do
  let now ← monotonic env
  let graceElapsed := decide ((cfg.noChecksGracePeriod : ℚ) ≤ now - p.graceStart)
  if !checks.isEmpty then
    if graceElapsed then
      pure (.decided (succeed
        "No CI checks found (all excluded via ci.exclude_checks), proceeding".toList) [])
    else pollAgain env p
  else if graceElapsed then pollUnregistered env cfg p
  else pollAgain env p

/-- The verdict of the poll loop on checks that are all completed, with the failed ones. -/
def judgePolled (checks : List CICheck) : StepResult × List CICheck :=
  let failed := checks.filter CICheck.isFailed
  if !failed.isEmpty then
    (fail ("CI failed: ".toList ++ names failed) ("Failed checks: ".toList ++ names failed), failed)
  else if onlyCancelled checks then
    (fail ("CI checks completed without any passing: ".toList ++ names checks)
      ("No passing checks: ".toList ++ names checks), [])
  else (succeed ("All ".toList ++ Text.ofInt checks.length ++ " CI checks passed".toList), [])

/-- The checks that are left are all completed. -/
def pollCompleted (p : Polling) (checks : List CICheck) : Ci ω Polled := do
  match ← movedHead env p.expectedSha with
  | some newHead => do
    -- the new head has its own registration window
    let graceStart ← monotonic env
    pollAgain env { p with expectedSha := newHead, graceStart := graceStart }
  | none => pure (.decided (judgePolled checks).1 (judgePolled checks).2)

/-- One iteration of `_poll_ci`. -/
def pollOnce (cfg : CIConfig) (p : Polling) : Ci ω Polled := do
  match ← fetchChecks env p.expectedSha with
  | .unknownCommit message => pollUnknownCommit env p message
  | .checks none => pollAgain env p
  | .checks (some checks) =>
    let left := withoutExcluded cfg checks
    if left.isEmpty then pollNoChecks env cfg p checks
    else if left.all CICheck.isCompleted then pollCompleted env p left
    else pollAgain env p

/-- The loop of `_poll_ci`, for as many iterations as there is fuel. -/
def pollLoop (cfg : CIConfig) : (fuel : Nat) → Polling → Ci ω (Option (StepResult × List CICheck))
  | 0, _ => pure none
  | fuel + 1, p =>
    if p.elapsed < cfg.maxWait then do
      match ← pollOnce env cfg p with
      | .decided result failed => pure (some (result, failed))
      | .again p => pollLoop cfg fuel p
    else
      pure (some (fail "CI monitoring timed out".toList
        ("Timed out after ".toList ++ Text.ofInt cfg.maxWait ++ "s".toList), []))

/-- `_poll_ci`, for the commit that is checked out. -/
def pollCi (cfg : CIConfig) (fuel : Nat) : Ci ω (Option (StepResult × List CICheck)) := do
  let startTime ← monotonic env
  let expectedSha ← getLocalHeadSha env
  pollLoop env cfg fuel { expectedSha, startTime, graceStart := startTime, elapsed := 0 }

/-! ## The step -/

/-- How the step ends. -/
inductive Outcome where
  | returned (result : StepResult)
  /-- The failed checks go to the fix loop. -/
  | tryFixCi (failed : List CICheck) (maxAttempts : Nat)
  /-- The fuel is used up, and the step is still polling. -/
  | stillPolling
  deriving DecidableEq

/-- `_MAX_CI_FIX_ATTEMPTS`. -/
def maxCiFixAttempts : Nat := 3

/-- The end of `execute`, after the two paths that may come before the poll. -/
def pollAndReport (ctx : StepContext) (fuel : Nat) : Ci ω Outcome := do
  match ← pollCi env ctx.config fuel with
  | none => pure .stillPolling
  | some (result, failed) =>
    let maxAttempts := min ctx.config.maxFixAttempts maxCiFixAttempts
    if result.success || failed.isEmpty || maxAttempts == 0 then pure (.returned result)
    else pure (.tryFixCi failed maxAttempts)

/-- The fast path, for a run without new commits. -/
def fastPath (ctx : StepContext) : Ci ω (Option StepResult) :=
  if ctx.noNewCommits then checkExistingCi env ctx.config else pure none

/-- The resume check, for a run that was interrupted. -/
def resumePath (ctx : StepContext) : Ci ω (Option StepResult) :=
  if ctx.resumeRunId.isSome then checkCiOnResume env ctx.config else pure none

def resumeOrPoll (ctx : StepContext) (fuel : Nat) : Ci ω Outcome := do
  match ← resumePath env ctx with
  | some result => pure (.returned result)
  | none => pollAndReport env ctx fuel

def execute (ctx : StepContext) (fuel : Nat) : Ci ω Outcome :=
  if ctx.prNumber.isNone then
    pure (.returned (fail "No PR to monitor".toList "pr_number is None".toList))
  else do
    match ← fastPath env ctx with
    | some result => pure (.returned result)
    | none => resumeOrPoll env ctx fuel

end Core.MonitorCi

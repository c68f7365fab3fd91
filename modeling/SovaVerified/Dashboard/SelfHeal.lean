import Mathlib.Data.List.Sort
import SovaVerified.Assoc.Assoc
import SovaVerified.Dashboard.StartAgent

/-!
# Resuming runs after an outage of the network

`attempt_network_self_heal` of `sova/dashboard/services/agent_recovery.py`: a tick looks for runs that failed
because of the network and resumes one of them. That a run is a resume is recorded on its row by its own
process, some time after the start.

The table of the runs is the one of the starts; the columns that only the self-heal reads stand beside it,
under the ids of the runs. Times are in seconds.
-/

namespace Dashboard

/-! ## Naming an outage -/

/-- `_UNAMBIGUOUS_PATTERNS`. -/
def unambiguousPatterns : List Text :=
  ["error connecting to api.github.com".toList, "could not resolve host".toList,
   "could not resolve hostname".toList, "temporary failure in name resolution".toList,
   "nodename nor servname provided".toList, "name or service not known".toList,
   "ssh: connect to host".toList, "network is unreachable".toList, "no route to host".toList,
   "can't reach the api server".toList, "cannot reach the api server".toList]

/-- The names of `_ERRNO_RE`. -/
def errnoNames : List Text :=
  ["enotfound".toList, "eai_again".toList, "econnrefused".toList, "econnreset".toList,
   "etimedout".toList, "ehostunreach".toList]

/-- `_AMBIGUOUS_PATTERNS`. -/
def ambiguousPatterns : List Text :=
  ["operation timed out".toList, "connection timed out".toList, "connection refused".toList,
   "connection reset by peer".toList, "failed to connect to".toList,
   "could not read from remote repository".toList, "was unreachable while".toList]

/-- `_REMOTE_CORROBORATORS`. -/
def remoteCorroborators : List Text :=
  ["github".toList, "anthropic".toList, "githubstatus.com".toList, "port 22".toList,
   "port 443".toList, "https://".toList, "git@".toList]

/-- `\w`, for ASCII. -/
def isWordChar (ch : Char) : Bool := ch.isAlphanum || ch == '_'

/-- `\b(?:w)\b` is found in a text; `before` is the character in front of it. -/
def hasWord (w : Text) : Option Char → Text → Bool
  | _, [] => false
  | before, ch :: t =>
    (w.isPrefixOf (ch :: t) && !before.any isWordChar &&
      !((ch :: t).drop w.length).head?.any isWordChar) || hasWord w (some ch) t

/-- `looks_like_network_outage`. -/
def looksLikeNetworkOutage (text : Option Text) : Bool :=
  let lower := (Text.lower (text.getD [])).map fun ch => if ch.toNat = 0x2019 then Char.ofNat 0x27 else ch
  if unambiguousPatterns.any fun p => Text.isIn p lower then true
  else if errnoNames.any fun w => hasWord w none lower then true
  else if ambiguousPatterns.any fun p => Text.isIn p lower then
    remoteCorroborators.any fun p => Text.isIn p lower
  else false

/-! ## The candidates -/

/-- What else the row of a run holds, and how many of its steps are done. -/
structure ResumeColumns where
  resumedFromId : Option Nat := none
  terminationReason : Option Text := none
  stepsDone : Nat := 0
  deriving DecidableEq

/-- The table of the runs with the columns beside it. -/
structure HealTable where
  control : Control := {}
  columns : Assoc Nat ResumeColumns := []

def HealTable.columnsOf (t : HealTable) (id : Nat) : ResumeColumns := (t.columns.get id).getD {}

/-- `NetworkGuardConfig`. -/
structure NetworkGuardConfig where
  enabled : Bool := true
  autoResume : Bool := true
  recoveryGraceSeconds : Nat := 120
  resumeWindowMinutes : Nat := 30
  maxAutoResumesPerHour : Nat := 3
  deriving DecidableEq

/-- What a tick meets. -/
structure HealTick where
  guard : NetworkGuardConfig := {}
  isDown : Bool := false
  healthyForSeconds : Nat := 3600
  now : Nat
  /-- The configuration or the table cannot be read. -/
  fails : Bool := false
  deriving DecidableEq

/-- `coalesce(ended_at, started_at)`. -/
def lastTime (run : TaskRun) : Nat := run.endedAt.getD run.startedAt

/-- `_SELF_HEAL_ROLES`. -/
def selfHealRoles : List Text := ["developer".toList, "researcher".toList, "planner".toList]

/-- `_SELF_HEAL_STATUSES`. -/
def selfHealStatuses : List RunStatus := [.failed, .interrupted]

/-- The runs that the query of `_find_self_heal_candidates` selects. -/
def isSelected (tick : HealTick) (t : HealTable) (run : TaskRun) : Bool :=
  selfHealStatuses.contains run.status && (t.columnsOf run.id).terminationReason.isNone &&
    selfHealRoles.contains run.role && tick.now ≤ lastTime run + tick.guard.resumeWindowMinutes * 60

/-- `_has_newer_live_run`. -/
def hasNewerLiveRun (t : HealTable) (run : TaskRun) : Bool :=
  t.control.runs.any fun r => r.issueNumber == run.issueNumber && r.id > run.id

/-- `_already_resumed`. -/
def alreadyResumed (t : HealTable) (runId : Nat) : Bool :=
  t.control.runs.any fun r => (t.columnsOf r.id).resumedFromId == some runId

/-- The checks of a run that is the newest one selected of its issue. -/
def isHealable (t : HealTable) (run : TaskRun) : Bool :=
  looksLikeNetworkOutage run.errorMessage && (t.columnsOf run.id).resumedFromId.isNone &&
    !hasNewerLiveRun t run && !alreadyResumed t run.id

/-- The loop over the selected runs, newest first: of each issue only the first one is looked at. -/
def scanSelected (t : HealTable) : List Text → List TaskRun → List TaskRun
  | _, [] => []
  | seen, run :: runs =>
    let issue := run.issueNumber.getD []
    if issue.isEmpty || seen.contains issue then scanSelected t seen runs
    else if isHealable t run then run :: scanSelected t (issue :: seen) runs
    else scanSelected t (issue :: seen) runs

/-- `_find_self_heal_candidates`: the runs with the most recovered work come first. -/
def findSelfHealCandidates (tick : HealTick) (t : HealTable) : List TaskRun :=
  let selected := (t.control.runs.filter (isSelected tick t)).insertionSort fun a b => lastTime b ≤ lastTime a
  let steps (run : TaskRun) : Nat := (t.columnsOf run.id).stepsDone
  (scanSelected t [] selected).insertionSort fun a b =>
    steps b < steps a ∨ (steps a = steps b ∧ b.totalCostUsd ≤ a.totalCostUsd)

/-- `_count_recent_resumes`. -/
def countRecentResumes (tick : HealTick) (t : HealTable) : Nat :=
  t.control.runs.countP fun r =>
    (t.columnsOf r.id).resumedFromId.isSome && tick.now ≤ r.startedAt + 3600

/-- The run that a tick decides to resume. -/
def chooseCandidate (tick : HealTick) (t : HealTable) : Option TaskRun :=
  if tick.fails then none
  else if !tick.guard.enabled || !tick.guard.autoResume then none
  else if tick.isDown then none
  else if tick.healthyForSeconds < tick.guard.recoveryGraceSeconds then none
  else if tick.guard.maxAutoResumesPerHour ≠ 0 ∧
      tick.guard.maxAutoResumesPerHour ≤ countRecentResumes tick t then none
  else (findSelfHealCandidates tick t).head?

/-- The request of `_resume_one`. -/
def healRequest (candidate : TaskRun) : StartRequest :=
  { issue := candidate.issueNumber.getD []
    role := some candidate.role
    resumeRunId := some candidate.id
    prNumber := candidate.prNumber }

/-- `_resume_one`. A row that is created has none of the columns beside the table set. -/
def resumeOne (o : StartOutside) (candidate : TaskRun) (t : HealTable) : StartResult × HealTable :=
  let started := startAgent o (healRequest candidate) t.control
  (started.1, { control := started.2, columns := t.columns.put t.control.nextRunId {} })

/-! ## Ticks among the other tasks -/

/-- An automatic resume that was started. -/
structure AutoResume where
  runId : Nat
  issue : Text
  deriving DecidableEq

/-- The table, the candidate of the running tick, and the automatic resumes so far. -/
structure HealSystem where
  table : HealTable := {}
  pending : Option TaskRun := none
  resumes : List AutoResume := []

inductive HealAction where
  /-- A tick reads the table and decides. -/
  | choose (tick : HealTick)
  /-- The running tick resumes its candidate. -/
  | resume (o : StartOutside)
  /-- A process or a service writes the row of a run: its status, its error, that it is a resume, anything but
  its id and its issue. -/
  | update (row : TaskRun) (columns : ResumeColumns)
  /-- `_wait_and_finalize` takes the agent of a run out of the pool. -/
  | finalize (runId : Nat)
  /-- Somebody else starts a run. -/
  | insert (row : TaskRun) (columns : ResumeColumns)

/-- The row of a run after a write that keeps its id and its issue. -/
def HealTable.setRow (t : HealTable) (row : TaskRun) (columns : ResumeColumns) : HealTable :=
  { control := t.control.setRun row.id fun r => { row with id := r.id, issueNumber := r.issueNumber }
    columns := t.columns.put row.id columns }

def HealSystem.step (s : HealSystem) : HealAction → Option HealSystem
  | .choose tick =>
    if s.pending.isSome then none else some { s with pending := chooseCandidate tick s.table }
  | .resume o =>
    match s.pending with
    | none => none
    | some candidate =>
      let resumed := resumeOne o candidate s.table
      match resumed.1 with
      | .started _ runId =>
        some { s with
          table := resumed.2
          pending := none
          resumes := { runId := runId, issue := candidate.issueNumber.getD [] } :: s.resumes }
      | _ => some { s with table := resumed.2, pending := none }
  | .update row columns => some { s with table := s.table.setRow row columns }
  | .finalize runId =>
    let pool := s.table.control.pool
    let agents := pool.agents.filter fun a => a.runId != runId
    some { s with table := { s.table with control :=
      { s.table.control with pool := { pool with agents := agents } } } }
  | .insert row columns =>
    let id := s.table.control.nextRunId
    some { s with table :=
      { control := { s.table.control with runs := s.table.control.runs ++ [{ row with id := id }] }
        columns := s.table.columns.put id columns } }

end Dashboard

import SovaVerified.Assoc.Assoc
import SovaVerified.Git.Worktree
import SovaVerified.Json.Access
import SovaVerified.Runs.Runs
import SovaVerified.Text.Text

/-!
# The reviews of CodeRabbit

`sova/supervisor/coderabbit_quota.py`: `_fetch_reviews_for_pr`, which reads the reviews of a pull request that
count toward the quota. The reading of a date is a parameter.
-/

namespace Supervisor.CodeRabbitQuota

open Git Json

/-- `_DEFAULT_CODERABBIT_AUTHORS`. -/
def defaultCoderabbitAuthors : List Text :=
  ["coderabbitai".toList, "coderabbitai[bot]".toList, "coderabbit[bot]".toList]

/-- A review that counts. Of its id, `str` is taken. -/
structure QuotaReview (δ : Type) where
  prNumber : Int
  reviewId : Json
  submittedAt : δ

/-- `text.replace("Z", "+00:00")`. -/
def withOffset (text : Text) : Text := text.flatMap fun c => if c = 'Z' then "+00:00".toList else [c]

/-- Nothing but an empty text is empty as a text. -/
def isEmptyText : Json → Bool
  | .str [] => true
  | _ => false

section

variable {δ : Type} (fromisoformat : Text → Option δ) (prNumber : Int)

def stateOf (r : Json) : Json := r.item "state".toList (.str [])

def submittedAtOf (r : Json) : Json := r.item "submitted_at".toList (.str [])

def reviewIdOf (r : Json) : Json := r.item "id".toList (.str [])

/-- The entry has a state, a date and an id. -/
def isComplete (r : Json) : Bool :=
  truthy (stateOf r) && truthy (submittedAtOf r) && !isEmptyText (reviewIdOf r)

/-- What the loop makes of a complete entry of CodeRabbit. Pending reviews do not count. -/
def counted (r : Json) : Except PyException (Option (QuotaReview δ)) := do
  let state ← asText (stateOf r)
  if Text.upper state = "PENDING".toList then pure none
  else
    let text ← asText (submittedAtOf r)
    pure ((fromisoformat (withOffset text)).map fun submittedAt =>
      { prNumber, reviewId := reviewIdOf r, submittedAt })

/-- The loop of `_fetch_reviews_for_pr`, on one entry. -/
def quotaReview (r : Json) : Except PyException (Option (QuotaReview δ)) := do
  let user ← getItem r "user".toList (.obj [])
  let login ← getItem user "login".toList .null
  let login ← asText (if truthy login then login else .str [])
  if Text.lower login ∈ defaultCoderabbitAuthors ∧ isComplete r = true then counted fromisoformat prNumber r
  else pure none

/-- `_fetch_reviews_for_pr`, given what `gh` has answered. -/
def fetchReviewsForPr (result : ShellResult) : Except PyException (List (QuotaReview δ)) :=
  if result.success then do
    let data ← loadsList result.stdout
    collect (quotaReview fromisoformat prNumber) data
  else .ok []

end

end Supervisor.CodeRabbitQuota

/-!
# The pull request throttle

`sova/supervisor/pr_throttle.py` and `sova/supervisor/coderabbit_quota.py`: pull requests wait in a
queue and are created one a pass while the CodeRabbit quota allows it.

A pass of `process_queue` is cut where another process can get in between: the sweeps, the quota check,
the choice of an entry, the conditional flip, the call of `create_pr` and the transaction that records
its outcome are steps of their own, and so are enqueueing, dequeueing, the end of a task run and the
sync of review events. A pass may also stop for good after any of its steps.
-/

namespace Supervisor

inductive PRQueueStatus where
  | pending
  | creating
  | created
  | failed
  | cancelled
  deriving DecidableEq, Repr

/-- What `create_pr` and the side effects after it are called with. -/
structure PRRequest where
  issueNumber : Option Text := none
  title : Text := []
  body : Text := []
  baseBranch : Text := []
  headBranch : Text := []
  repo : Text := []
  githubUser : Text := []
  deriving DecidableEq

/-- A row of `PRCreationQueue`; times are in seconds. -/
structure QueueEntry where
  taskRun : Nat
  request : PRRequest
  project : Text
  enqueuedAt : Nat
  status : PRQueueStatus := .pending
  prNumber : Option Nat := none
  prUrl : Option Text := none
  errorMessage : Option Text := none
  processedAt : Option Nat := none
  deriving DecidableEq

inductive EventType where
  | review
  | prCreated
  deriving DecidableEq, Repr

/-- A row of `CodeRabbitEvent`. -/
structure CodeRabbitEvent where
  prNumber : Nat
  eventType : EventType
  reviewId : Text
  recordedAt : Nat
  project : Text
  deriving DecidableEq

/-- `CodeRabbitQuotaConfig`, after its validation. -/
structure QuotaConfig where
  enabled : Bool
  /-- 0 means unlimited. -/
  reviewsPerHour : Nat
  windowMinutes : Nat
  windowPos : 0 < windowMinutes
  deriving DecidableEq

/-- The window in seconds. -/
def QuotaConfig.window (config : QuotaConfig) : Nat := config.windowMinutes * 60

/-- What a call of `create_pr` came back with. -/
inductive CreateOutcome where
  | created (number : Nat) (url : Text)
  | raised (message : Text)
  deriving DecidableEq

/-- How far a pass of `process_queue` has come. -/
inductive PassPhase where
  /-- Stale entries and entries of ended runs are cancelled. -/
  | swept
  /-- The quota allows a pull request. -/
  | admitted
  | selected (entry : Nat)
  /-- The entry is flipped to `creating`. -/
  | flipped (entry : Nat) (request : PRRequest)
  /-- `create_pr` came back. -/
  | called (entry : Nat) (outcome : CreateOutcome)
  deriving DecidableEq

structure Pass where
  project : Text
  phase : PassPhase
  deriving DecidableEq

/-- A call of `create_pr`. -/
structure CreateCall where
  entry : Nat
  request : PRRequest
  project : Text
  time : Nat
  outcome : CreateOutcome
  deriving DecidableEq

structure ThrottleState where
  now : Nat := 0
  entries : Assoc Nat QueueEntry := []
  nextId : Nat := 0
  /-- The task runs whose status is in `TASK_RUN_TERMINAL`. -/
  endedRuns : List Nat := []
  events : List CodeRabbitEvent := []
  passes : Assoc Nat Pass := []
  /-- The calls of `create_pr` so far, newest first. -/
  calls : List CreateCall := []
  deriving DecidableEq

/-! ## The quota -/

/-- `_get_review_events_in_window`. -/
def reviewEventsInWindow (config : QuotaConfig) (project : Text) (s : ThrottleState) :
    List CodeRabbitEvent :=
  s.events.filter fun e =>
    e.eventType = .review && s.now < e.recordedAt + config.window && e.project = project

structure QuotaStatus where
  reviewsInWindow : Nat
  canCreatePr : Bool
  /-- In seconds; `none` when a pull request can be created now. -/
  nextAvailable : Option Nat
  deriving DecidableEq, Repr

/-- `get_quota_status`, without the fields it copies from the configuration. -/
def getQuotaStatus (config : QuotaConfig) (project : Text) (s : ThrottleState) : QuotaStatus :=
  if !config.enabled then ⟨0, true, none⟩
  else
    let events := reviewEventsInWindow config project s
    if config.reviewsPerHour = 0 then ⟨events.length, true, none⟩
    else if events.length < config.reviewsPerHour then ⟨events.length, true, none⟩
    else
      ⟨events.length, false,
        (events.map (·.recordedAt)).min?.map fun oldest => oldest + config.window - s.now⟩

/-- `_upsert_event`: a review that is known already is not recorded again. -/
def upsertEvent (events : List CodeRabbitEvent) (e : CodeRabbitEvent) : List CodeRabbitEvent :=
  if events.any fun x => x.reviewId = e.reviewId && x.project = e.project then events
  else e :: events

/-! ## The queue -/

/-- `_MAX_QUEUE_AGE_HOURS`, in seconds. -/
def maxQueueAge : Nat := 2 * 3600

/-- `_RUN_ENDED_REASON`. -/
def runEndedReason : Text := "Cancelled: the run ended before the PR was created".toList

def QueueEntry.cancel (now : Nat) (reason : Option Text) (e : QueueEntry) : QueueEntry :=
  { e with
    status := .cancelled
    processedAt := some now
    errorMessage := reason.or e.errorMessage }

/-- `dequeue`: one conditional update of all pending entries of a run. -/
def dequeue (s : ThrottleState) (run : Nat) (reason : Option Text) : ThrottleState :=
  { s with entries := s.entries.mapVal fun _ e =>
      if e.taskRun = run ∧ e.status = .pending then e.cancel s.now reason else e }

/-- `enqueue`. -/
def enqueue (s : ThrottleState) (run : Nat) (project : Text) (request : PRRequest) : ThrottleState :=
  { s with
    entries := (s.nextId, ⟨run, request, project, s.now, .pending, none, none, none, none⟩) :: s.entries
    nextId := s.nextId + 1 }

/-- The first of the two sweeps: entries older than the maximum age. -/
def sweepStale (project : Text) (s : ThrottleState) : ThrottleState :=
  { s with entries := s.entries.mapVal fun _ e =>
      if e.status = .pending ∧ e.enqueuedAt + maxQueueAge < s.now ∧ e.project = project then
        e.cancel s.now (some "Cancelled: exceeded max queue age".toList)
      else e }

/-- The second sweep: entries whose run has ended. -/
def sweepEnded (project : Text) (s : ThrottleState) : ThrottleState :=
  { s with entries := s.entries.mapVal fun _ e =>
      if e.status = .pending ∧ e.project = project ∧ e.taskRun ∈ s.endedRuns then
        e.cancel s.now (some runEndedReason)
      else e }

/-- The oldest pending entry of the project. -/
def oldestPending (project : Text) (s : ThrottleState) : Option (Nat × QueueEntry) :=
  s.entries.foldr (fun e best =>
    if e.2.status = .pending ∧ e.2.project = project then
      match best with
      | none => some e
      | some b => if b.2.enqueuedAt < e.2.enqueuedAt then some b else some e
    else best) none

/-- The condition of the flip: the entry is still pending and its run still live. -/
def canFlip (s : ThrottleState) (e : QueueEntry) : Bool :=
  e.status = .pending && e.taskRun ∉ s.endedRuns

/-- The transaction after `create_pr`: the outcome is recorded, and a success as an event. -/
def recordOutcome (s : ThrottleState) (project : Text) (entry : Nat) (outcome : CreateOutcome) :
    ThrottleState :=
  match outcome with
  | .raised message =>
    { s with entries := s.entries.mapVal fun i e =>
        if i = entry then
          { e with status := .failed, errorMessage := some message, processedAt := some s.now }
        else e }
  | .created number url =>
    { s with
      entries := s.entries.mapVal fun i e =>
        if i = entry then
          { e with
            status := .created, prNumber := some number, prUrl := some url, processedAt := some s.now }
        else e
      events := ⟨number, .prCreated,
        "pr-".toList ++ Text.ofInt number ++ "-created".toList, s.now, project⟩ :: s.events }

/-! ## Steps -/

inductive ThrottleAction where
  | tick (elapsed : Nat)
  | enqueue (run : Nat) (project : Text) (request : PRRequest)
  | dequeue (run : Nat) (reason : Option Text)
  /-- The status of a task run changes to a terminal one, or from one when the run is resumed. -/
  | runStatus (run : Nat) (ended : Bool)
  /-- `sync_from_github`: number, id and time of the reviews that it fetched. -/
  | sync (project : Text) (reviews : List (Nat × Text × Nat))
  | beginPass (pass : Nat) (project : Text)
  | checkQuota (pass : Nat)
  | select (pass : Nat)
  | flip (pass : Nat)
  | createPr (pass : Nat) (outcome : CreateOutcome)
  | record (pass : Nat)
  /-- The pass stops: its process is killed, or it raised. -/
  | crash (pass : Nat)
  deriving DecidableEq

def ThrottleState.endPass (s : ThrottleState) (pass : Nat) : ThrottleState :=
  { s with passes := s.passes.del pass }

def ThrottleState.setPass (s : ThrottleState) (pass : Nat) (p : Pass) : ThrottleState :=
  { s with passes := s.passes.put pass p }

/-- One step of the system under the configuration of each project; `none` when the action does not
fit the pass that it names. -/
def throttleStep (config : Text → QuotaConfig) (s : ThrottleState) (a : ThrottleAction) :
    Option ThrottleState :=
  match a with
  | .tick elapsed => some { s with now := s.now + elapsed }
  | .enqueue run project request => some (enqueue s run project request)
  | .dequeue run reason => some (dequeue s run reason)
  | .runStatus run ended =>
    some { s with endedRuns :=
      if ended then run :: s.endedRuns else s.endedRuns.filter (· ≠ run) }
  | .sync project reviews =>
    if (config project).enabled then
      some { s with events := reviews.foldl (fun events r =>
        upsertEvent events ⟨r.1, .review, r.2.1, r.2.2, project⟩) s.events }
    else some s
  | .beginPass pass project =>
    match s.passes.get pass with
    | none => some ((sweepEnded project (sweepStale project s)).setPass pass ⟨project, .swept⟩)
    | some _ => none
  | .checkQuota pass =>
    match s.passes.get pass with
    | some ⟨project, .swept⟩ =>
      if (getQuotaStatus (config project) project s).canCreatePr then
        some (s.setPass pass ⟨project, .admitted⟩)
      else some (s.endPass pass)
    | _ => none
  | .select pass =>
    match s.passes.get pass with
    | some ⟨project, .admitted⟩ =>
      match oldestPending project s with
      | none => some (s.endPass pass)
      | some (entry, _) => some (s.setPass pass ⟨project, .selected entry⟩)
    | _ => none
  | .flip pass =>
    match s.passes.get pass with
    | some ⟨project, .selected entry⟩ =>
      match s.entries.get entry with
      | none => some (s.endPass pass)
      | some e =>
        if canFlip s e then
          some ({ s with entries := s.entries.mapVal fun i e =>
            if i = entry then { e with status := .creating } else e }.setPass pass
              ⟨project, .flipped entry e.request⟩)
        else some (s.endPass pass)
    | _ => none
  | .createPr pass outcome =>
    match s.passes.get pass with
    | some ⟨project, .flipped entry request⟩ =>
      some ({ s with calls := ⟨entry, request, project, s.now, outcome⟩ :: s.calls }.setPass pass
        ⟨project, .called entry outcome⟩)
    | _ => none
  | .record pass =>
    match s.passes.get pass with
    | some ⟨project, .called entry outcome⟩ =>
      some ((recordOutcome s project entry outcome).endPass pass)
    | _ => none
  | .crash pass =>
    match s.passes.get pass with
    | some _ => some (s.endPass pass)
    | none => none

end Supervisor

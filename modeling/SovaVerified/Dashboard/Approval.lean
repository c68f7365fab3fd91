import SovaVerified.Dashboard.StartAgent
import SovaVerified.Runs.Runs

/-!
# Approving a run

`sova/dashboard/services/agent_approval.py`: a run that waits for approval is resumed, rejected, or
completed by the number of its issue. Every request reads the run in one transaction and claims it in a
second one, which changes the row only when it still waits. A resume then starts an agent, and gives its
claim back when the start fails.

`resumeFromApproval` is one request on its own. `Approvals` is the system of any number of requests, each
of which does one transaction or one part of a start at a time.
-/

namespace Dashboard

/-! ## The transactions -/

/-- The first transaction of a claim: the run, when it waits for approval. -/
def readAwaiting (c : Control) (runId : Nat) : Except AgentError TaskRun :=
  match c.run runId with
  | none =>
    .error
      { error := "not_found".toList
        detail := some ("TaskRun #".toList ++ Text.ofInt runId ++ " not found".toList) }
  | some run =>
    if run.status = .awaitingApproval then .ok run
    else
      .error
        { error := "conflict".toList
          detail := some ("Run #".toList ++ Text.ofInt runId ++ " has status '".toList ++
            run.status.value ++ "', expected 'awaiting_approval'".toList) }

/-- `UPDATE … WHERE id = … AND status = …`: whether a row was changed, and the rows after it. -/
def updateIfStatus (c : Control) (runId : Nat) (expected : RunStatus) (f : TaskRun → TaskRun) :
    Bool × Control :=
  match c.run runId with
  | none => (false, c)
  | some run => if run.status = expected then (true, c.setRun runId f) else (false, c)

def alreadyClaimed (runId : Nat) : AgentError :=
  { error := "conflict".toList
    detail := some ("Run #".toList ++ Text.ofInt runId ++
      " was already claimed by another request".toList) }

/-- The second transaction of a claim. -/
def claimRun (c : Control) (runId : Nat) (target : RunStatus) : Bool × Control :=
  updateIfStatus c runId .awaitingApproval fun r => { r with status := target }

/-- `_claim_awaiting_approval`. -/
def claimAwaitingApproval (c : Control) (runId : Nat) (target : RunStatus) :
    Except AgentError TaskRun × Control :=
  match readAwaiting c runId with
  | .error e => (.error e, c)
  | .ok run =>
    match claimRun c runId target with
    | (true, c) => (.ok run, c)
    | (false, c) => (.error (alreadyClaimed runId), c)

/-- The claim is given back, when the run is still as the claim left it. -/
def revertClaim (c : Control) (runId : Nat) : Control :=
  (updateIfStatus c runId .pending fun r => { r with status := .awaitingApproval }).2

/-! ## One request on its own -/

/-- The start that a resume of a run asks for. -/
def resumeRequest (run : TaskRun) : StartRequest :=
  { issue := run.issueNumber.getD []
    role := some (orDeveloper (some run.role))
    resumeRunId := some run.id
    prNumber := run.prNumber
    force := true }

inductive ResumeResult where
  | resumed (runId resumedFrom : Nat) (issue role : Text)
  | error (e : AgentError)
  | raised
  deriving DecidableEq

/-- `resume_from_approval`. The handoff file that it clears at the end is left out. -/
def resumeFromApproval (o : StartOutside) (runId : Nat) (c : Control) : ResumeResult × Control :=
  match claimAwaitingApproval c runId .pending with
  | (.error e, c) => (.error e, c)
  | (.ok run, c) =>
    match startAgent o (resumeRequest run) c with
    | (.started _ newId, c) =>
      (.resumed newId runId (run.issueNumber.getD []) (orDeveloper (some run.role)), c)
    | (.error e, c) => (.error e, revertClaim c runId)
    | (.raised, c) => (.raised, c)

/-! ## Any number of requests -/

/-- The status that a completed run is given. -/
inductive CompletionTarget where
  | done
  | rejected
  deriving DecidableEq, Repr

def CompletionTarget.status : CompletionTarget → RunStatus
  | done => .done
  | rejected => .rejected

/-- `resume_from_approval`, `reject_spec` and `complete_awaiting_approval_by_issue`. -/
inductive ApprovalRequest where
  | resume (runId : Nat)
  | reject (runId : Nat)
  | complete (issueNumber : Text) (target : CompletionTarget)
  deriving DecidableEq

/-- How far a request has come. -/
inductive Progress where
  | idle
  -- it has read a run that waits
  | found (run : TaskRun)
  -- a resume holds the run and is going to start an agent
  | claimed (run : TaskRun)
  -- the start has passed the checks of the pool and of the issue
  | admitted (run : TaskRun) (req : StartRequest)
  -- the start has failed, and the claim is going to be given back
  | failed (run : TaskRun) (e : AgentError)
  | succeeded (runId : Nat)
  | refused (e : Option AgentError)
  | raised
  deriving DecidableEq

/-- The order of `complete_awaiting_approval_by_issue`: by the start, then by the id. -/
def startedBefore (a b : TaskRun) : Bool :=
  a.startedAt < b.startedAt || (a.startedAt == b.startedAt && a.id < b.id)

/-- The run of the issue that a completion takes: the last researcher run that waits. -/
def latestAwaiting (c : Control) (issueNumber : Text) : Option TaskRun :=
  let waiting := c.runs.filter fun r =>
    r.issueNumber == some (normalizeIssueNumber issueNumber) && r.role == "researcher".toList &&
      r.status == .awaitingApproval
  waiting.foldl (fun best r =>
    match best with
    | none => some r
    | some b => if startedBefore b r then some r else some b) none

/-- The transaction of a completion that changes the row. -/
def completeRun (c : Control) (runId : Nat) (target : CompletionTarget) (now : Nat) : Bool × Control :=
  updateIfStatus c runId .awaitingApproval fun r =>
    { r with
      status := target.status
      endedAt := some now }

/-- The first transaction of a request. -/
def readStep (request : ApprovalRequest) (c : Control) : Progress :=
  match request with
  | .resume runId | .reject runId =>
    match readAwaiting c runId with
    | .error e => .refused (some e)
    | .ok run => .found run
  | .complete issueNumber _ =>
    match latestAwaiting c issueNumber with
    | none => .refused none
    | some run => .found run

/-- The second transaction of a request. -/
def claimStep (request : ApprovalRequest) (run : TaskRun) (now : Nat) (c : Control) :
    Progress × Control :=
  match request with
  | .resume _ =>
    match claimRun c run.id .pending with
    | (true, c) => (.claimed run, c)
    | (false, c) => (.refused (some (alreadyClaimed run.id)), c)
  | .reject _ =>
    match claimRun c run.id .rejected with
    | (true, c) => (.succeeded run.id, c)
    | (false, c) => (.refused (some (alreadyClaimed run.id)), c)
  | .complete _ target =>
    match completeRun c run.id target now with
    | (true, c) => (.succeeded run.id, c)
    | (false, c) => (.refused none, c)

/-- The checks of the start that a resume makes. -/
def admitStep (o : StartOutside) (run : TaskRun) (c : Control) : Progress × Control :=
  if o.prepareRaises then (.raised, c)
  else
    match prepareStart o (resumeRequest run) c with
    | .error e => (.failed run e, c)
    | .ok req =>
      match admitStart o req c with
      | (some e, c) => (.failed run e, c)
      | (none, c) => (.admitted run req, c)

/-- The rest of the start. -/
def launchStep (o : StartOutside) (run : TaskRun) (req : StartRequest) (c : Control) :
    Progress × Control :=
  match launchStart o req c with
  | (.started _ _, c) => (.succeeded run.id, c)
  | (.error e, c) => (.failed run e, c)
  | (.raised, c) => (.raised, c)

/-- A transaction that fails: a completion answers that it found no run, the other requests raise. -/
def dbFailure : ApprovalRequest → Progress
  | .complete _ _ => .refused none
  | _ => .raised

/-- The next step of a request, unless it has ended. -/
def ApprovalRequest.advance (request : ApprovalRequest) (progress : Progress) (o : StartOutside)
    (dbFails : Bool) (c : Control) : Option (Progress × Control) :=
  match progress with
  | .idle => some (if dbFails then dbFailure request else readStep request c, c)
  | .found run =>
    some (if dbFails then (dbFailure request, c) else claimStep request run o.now c)
  | .claimed run => some (admitStep o run c)
  | .admitted run req => some (launchStep o run req c)
  | .failed run e =>
    some (if dbFails then (.raised, c) else (.refused (some e), revertClaim c run.id))
  | .succeeded _ | .refused _ | .raised => none

/-- The requests of a project, with what they share. -/
structure Approvals where
  control : Control
  requests : List (ApprovalRequest × Progress)

/-- One step of one request. -/
structure ApprovalAction where
  request : Nat
  outside : StartOutside
  dbFails : Bool := false

namespace Approvals

def start (c : Control) (requests : List ApprovalRequest) : Approvals :=
  { control := c, requests := requests.map fun r => (r, .idle) }

def request (s : Approvals) (i : Nat) : Option (ApprovalRequest × Progress) := s.requests[i]?

/-- The requests and what they share, after a step of one of the requests. -/
def advanced (s : Approvals) (i : Nat) (request : ApprovalRequest) (next : Progress × Control) :
    Approvals :=
  { control := next.2, requests := s.requests.set i (request, next.1) }

def step (s : Approvals) (a : ApprovalAction) : Option Approvals :=
  match s.request a.request with
  | none => none
  | some (request, progress) =>
    (request.advance progress a.outside a.dbFails s.control).map (s.advanced a.request request)

end Approvals

end Dashboard

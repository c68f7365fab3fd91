import SovaVerified.Dashboard.PrTracker
import SovaVerified.Runs.Runs

/-!
# The monitor of pull requests

`_poll_cycle`, `_handle_transition` and `_maybe_notify` of `sova/supervisor/pr_monitor.py`, and the process in
which any number of monitors, the other readers of the tracker and the event recorder take turns.
-/

namespace Supervisor

open Dashboard

/-- The flags of `PRMonitorConfig` that a poll reads. -/
structure PrMonitorConfig where
  notifyOnApproval : Bool := true
  notifyOnChangesRequested : Bool := true
  notifyOnCiFailure : Bool := true
  notifyOnReadyToMerge : Bool := true
  autoRetryCoderabbit : Bool := true
  deriving DecidableEq

/-- `_NOTIFY_STATES`. -/
def notifyStates : ComputedPRState → Option (PrMonitorConfig → Bool)
  | .approved => some PrMonitorConfig.notifyOnApproval
  | .approvedCiGreen => some PrMonitorConfig.notifyOnReadyToMerge
  | .changesRequested => some PrMonitorConfig.notifyOnChangesRequested
  | .ciFailed => some PrMonitorConfig.notifyOnCiFailure
  | _ => none

/-- `PRSnapshot`. -/
structure PrSnapshot where
  number : Nat
  computedState : ComputedPRState
  title : Text
  rateLimited : Bool := false
  deriving DecidableEq

/-- Where a monitor is in its cycle. -/
inductive MonitorPhase where
  | idle
  /-- It awaits the listing. -/
  | fetching (fetch : PrFetch)
  /-- It has the listing, and awaits the checks for a rate limit. -/
  | listed (repo : Text) (prs : List OpenPr)
  deriving DecidableEq

structure PrMonitor where
  /-- `_last_state`. -/
  lastState : Nat → Option PrSnapshot := fun _ => none
  /-- `_initialized`. -/
  initialized : Bool := false
  phase : MonitorPhase := .idle
  /-- The list of the last completed poll. No step of the code depends on this or the next. -/
  lastPoll : List OpenPr := []
  /-- What the completed polls have seen, the newest first. -/
  observed : List PrObservation := []

/-- A call of `notify`. -/
structure PrNotification where
  monitor : Nat
  repo : Text
  number : Nat
  state : ComputedPRState
  message : Text
  /-- The state in which the monitor had last seen this pull request of this repository. -/
  lastObserved : Option ComputedPRState
  deriving DecidableEq

/-- `_maybe_notify`. -/
def maybeNotify (config : PrMonitorConfig) (snapshot : PrSnapshot) : Bool :=
  match notifyStates snapshot.computedState with
  | none => false
  | some flag => flag config

/-- `_handle_transition`: whether it notifies, and whether it asks for another review. -/
def handleTransition (config : PrMonitorConfig) (prev : Option PrSnapshot) (curr : PrSnapshot) : Bool × Bool :=
  let notifies := decide (some curr.computedState ≠ prev.map PrSnapshot.computedState) && maybeNotify config curr
  let wasRateLimited := (prev.map PrSnapshot.rateLimited).getD false
  (notifies, wasRateLimited && !curr.rateLimited && config.autoRetryCoderabbit)

namespace PrMonitor

def snapshot (rateLimits : Nat → Bool) (pr : OpenPr) : PrSnapshot :=
  { number := pr.number, computedState := pr.computedState, title := pr.title, rateLimited := rateLimits pr.number }

/-- `current`, at the end of the loop of a poll. -/
def current (rateLimits : Nat → Bool) (prs : List OpenPr) : Nat → Option PrSnapshot :=
  prs.foldl (fun current pr => Function.update current pr.number (some (snapshot rateLimits pr))) fun _ => none

/-- The loop of a poll. The configuration may be reloaded between two pull requests. -/
def notifications (m : PrMonitor) (id : Nat) (repo : Text) (prs : List OpenPr) (rateLimits : Nat → Bool)
    (config : OpenPr → PrMonitorConfig) : List PrNotification :=
  prs.filterMap fun pr =>
    let curr := snapshot rateLimits pr
    if m.initialized && (handleTransition (config pr) (m.lastState pr.number) curr).1 then
      some ⟨id, repo, pr.number, pr.computedState, pr.title, lastObserved m.observed repo pr.number⟩
    else none

/-- The pull requests for which the loop asks for another review. -/
def retries (m : PrMonitor) (prs : List OpenPr) (rateLimits : Nat → Bool) (config : OpenPr → PrMonitorConfig) :
    List Nat :=
  (prs.filter fun pr =>
    m.initialized &&
      (handleTransition (config pr) (m.lastState pr.number) (snapshot rateLimits pr)).2).map OpenPr.number

/-- The end of a poll. -/
def finishPoll (m : PrMonitor) (repo : Text) (prs : List OpenPr) (rateLimits : Nat → Bool) : PrMonitor :=
  { m with
    lastState := current rateLimits prs
    initialized := true
    phase := .idle
    lastPoll := prs
    observed := (prs.map fun pr => ⟨repo, pr.number, pr.computedState⟩).reverse ++ m.observed }

end PrMonitor

/-- The process. -/
structure PrWatch where
  tracker : PrTracker := {}
  monitors : Nat → PrMonitor := fun _ => {}
  /-- The fetches of the other readers. -/
  fetches : List PrFetch := []
  notified : List PrNotification := []
  retried : List (Nat × Nat) := []

inductive PrWatchAction where
  /-- Another reader lists the open pull requests. -/
  | list (cfg : Option PrRepoConfig) (raiseOnError : Bool) (now : Int)
  | fetched (fetch : PrFetch) (raiseOnError : Bool) (now : Int) (outcome : FetchOutcome)
  /-- A task of the event recorder runs. -/
  | record (r : Recording)
  | invalidate (repo : Text)
  /-- A monitor starts a poll, unless GitHub's quota is used up. -/
  | poll (id : Nat) (shouldSkip : Bool) (cfg : Option PrRepoConfig) (now : Int)
  | pollFetched (id : Nat) (now : Int) (outcome : FetchOutcome)
  /-- The rest of the poll; the checks may have used up the quota. -/
  | pollEnd (id : Nat) (shouldSkip : Bool) (rateLimits : Nat → Bool) (config : OpenPr → PrMonitorConfig)

/-- A monitor goes on to another phase. -/
def PrWatch.setPhase (s : PrWatch) (id : Nat) (phase : MonitorPhase) : PrWatch :=
  { s with monitors := Function.update s.monitors id { s.monitors id with phase := phase } }

/-- The phase after a listing. An error ends the cycle. -/
def ListOutcome.phase (repo : Text) : ListOutcome → MonitorPhase
  | .returned prs => .listed repo prs
  | .raised => .idle

/-- One step of the process; `none` when the named call is not at that point. -/
def prWatchStep (s : PrWatch) : PrWatchAction → Option PrWatch
  | .list cfg raiseOnError now =>
    match s.tracker.startList cfg raiseOnError now with
    | (.done _, tracker) => some { s with tracker := tracker }
    | (.fetching fetch, tracker) => some { s with tracker := tracker, fetches := fetch :: s.fetches }
  | .fetched fetch raiseOnError now outcome =>
    if fetch ∈ s.fetches then
      some { s with
        tracker := (s.tracker.finishList fetch raiseOnError now outcome).2, fetches := s.fetches.erase fetch }
    else none
  | .record r =>
    if r ∈ s.tracker.recordings then
      let tracker := { s.tracker with recordings := s.tracker.recordings.erase r }
      some { s with tracker := tracker.recordStateTransitions r }
    else none
  | .invalidate repo => some { s with tracker := s.tracker.invalidate repo }
  | .poll id shouldSkip cfg now =>
    if (s.monitors id).phase = .idle then
      if shouldSkip then some s
      else
        let repo := (cfg.map PrRepoConfig.githubRepo).getD []
        match s.tracker.startList cfg false now with
        | (.done outcome, tracker) =>
          some ({ s with tracker := tracker }.setPhase id (ListOutcome.phase repo outcome))
        | (.fetching fetch, tracker) => some ({ s with tracker := tracker }.setPhase id (.fetching fetch))
    else none
  | .pollFetched id now outcome =>
    match (s.monitors id).phase with
    | .fetching fetch =>
      let (outcome, tracker) := s.tracker.finishList fetch false now outcome
      some ({ s with tracker := tracker }.setPhase id (ListOutcome.phase fetch.key.1 outcome))
    | _ => none
  | .pollEnd id shouldSkip rateLimits config =>
    match (s.monitors id).phase with
    | .listed repo prs =>
      if shouldSkip then some (s.setPhase id .idle)
      else
        let m := s.monitors id
        some { s with
          monitors := Function.update s.monitors id (m.finishPoll repo prs rateLimits)
          notified := m.notifications id repo prs rateLimits config ++ s.notified
          retried := (m.retries prs rateLimits config).map (id, ·) ++ s.retried }
    | _ => none

/-- Every event and every notification is for a change: the pull request was last seen in another state, or,
for a notification, was not seen before. -/
structure PrWatch.OnlyChanges (s : PrWatch) : Prop where
  events : ∀ e ∈ s.tracker.events, ∃ p, e.lastObserved = some p ∧ p ≠ e.computedState
  notified : ∀ n ∈ s.notified, n.lastObserved ≠ some n.state

/-- The state of a pull request in a list. -/
def stateIn (prs : List OpenPr) (number : Nat) : Option ComputedPRState :=
  (prs.reverse.find? fun pr => decide (pr.number = number)).map OpenPr.computedState

/-- No pull request that is worth a notification is back, in the state in which it was last seen, after a
completed poll whose list did not have it in that state. -/
def PollClean (m : PrMonitor) (repo : Text) (prs : List OpenPr) (config : OpenPr → PrMonitorConfig) : Prop :=
  ∀ pr ∈ prs, (∃ flag, notifyStates pr.computedState = some flag ∧ flag (config pr) = true) →
    lastObserved m.observed repo pr.number = some pr.computedState →
    stateIn m.lastPoll pr.number = some pr.computedState

/-- Numbers do not collide in the recorder, and no pull request comes back to a monitor as it was. -/
def PrWatchAction.Clean (s : PrWatch) : PrWatchAction → Prop
  | .record r => RecordClean r.repo s.tracker.observed r.prs
  | .pollEnd id shouldSkip _ config =>
    shouldSkip = false → ∀ repo prs, (s.monitors id).phase = .listed repo prs →
      PollClean (s.monitors id) repo prs config
  | _ => True

end Supervisor

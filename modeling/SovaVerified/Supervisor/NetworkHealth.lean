import Mathlib.Data.List.DropRight
import SovaVerified.Text.Text

/-!
# The connectivity of the machine

`sova/supervisor/network_health.py`: the tracker that says whether the network is up, told by the reports of
successful and failed calls. Every call reads the clock once here. Log lines are left out.
-/

namespace Supervisor.NetworkHealth

/-- `_FAILURE_THRESHOLD`. -/
def failureThreshold : Int := 2

inductive FeedEventSeverity where
  | error
  | success
  deriving DecidableEq, Repr

/-- What is handed to `emit_safe`. -/
structure FeedEvent where
  title : Text
  severity : FeedEventSeverity
  detail : Text
  category : Text
  deriving DecidableEq

/-- The tracker, and the events that it has emitted. -/
structure ConnectivityTracker (τ : Type) where
  failureThreshold : Int := failureThreshold
  consecutiveFailures : Nat := 0
  isDown : Bool := false
  downSince : Option τ := none
  healthySince : Option τ
  lastSource : Text := []
  events : List FeedEvent := []

variable {τ : Type}

/-- `__init__`, at the time `now`. -/
def init (threshold : Int) (now : τ) : ConnectivityTracker τ where
  failureThreshold := threshold
  healthySince := some now

namespace ConnectivityTracker

/-- `_emit`. -/
def emit (tracker : ConnectivityTracker τ) (title source : Text) (down : Bool) : ConnectivityTracker τ :=
  let detail :=
    if down then
      "Agent spawning is paused. Interrupted runs resume automatically once the connection returns.".toList
    else "GitHub and the LLM provider are reachable again.".toList
  let event : FeedEvent :=
    { title
      severity := if down then .error else .success
      detail := if source = [] then detail else detail ++ " (detected via ".toList ++ source ++ ")".toList
      category := "connectivity".toList }
  { tracker with events := tracker.events ++ [event] }

def recordFailure (tracker : ConnectivityTracker τ) (source : Text) (decisive : Bool) (now : τ) :
    ConnectivityTracker τ :=
  let tracker :=
    { tracker with consecutiveFailures := tracker.consecutiveFailures + 1, lastSource := source }
  if tracker.isDown then tracker
  else if !decisive && tracker.consecutiveFailures < tracker.failureThreshold then tracker
  else
    let tracker := { tracker with isDown := true, downSince := some now, healthySince := none }
    tracker.emit "Network connection lost".toList source true

def recordSuccess (tracker : ConnectivityTracker τ) (source : Text) (now : τ) : ConnectivityTracker τ :=
  let tracker := { tracker with consecutiveFailures := 0, lastSource := source }
  if !tracker.isDown then
    if tracker.healthySince.isNone then { tracker with healthySince := some now } else tracker
  else
    let tracker := { tracker with isDown := false, downSince := none, healthySince := some now }
    tracker.emit "Network connection restored".toList source false

end ConnectivityTracker

/-! ## Reports -/

/-- A report to the tracker, at the time `now`. -/
inductive Report (τ : Type) where
  | success (source : Text) (now : τ)
  | failure (source : Text) (decisive : Bool) (now : τ)

def Report.isFailure : Report τ → Bool
  | .success _ _ => false
  | .failure _ _ _ => true

def Report.isDecisive : Report τ → Bool
  | .success _ _ => false
  | .failure _ decisive _ => decisive

def ConnectivityTracker.record (tracker : ConnectivityTracker τ) : Report τ → ConnectivityTracker τ
  | .success source now => tracker.recordSuccess source now
  | .failure source decisive now => tracker.recordFailure source decisive now

/-- The tracker after a sequence of reports. -/
def run (tracker : ConnectivityTracker τ) (reports : List (Report τ)) : ConnectivityTracker τ :=
  reports.foldl ConnectivityTracker.record tracker

/-- The reports since the last success. -/
def sinceSuccess (reports : List (Report τ)) : List (Report τ) := reports.rtakeWhile Report.isFailure

end Supervisor.NetworkHealth

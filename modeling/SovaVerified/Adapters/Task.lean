import SovaVerified.Text.Text

/-!
# Tasks of a tracker

`sova/adapters/base.py` and `sova/adapters/priority.py`, as far as the supervisor and the dashboard
read them.
-/

namespace Adapters

/-- The tracker states of an issue. -/
inductive TaskState where
  | backlog
  | triaged
  | researched
  | inProgress
  | inReview
  | onQa
  | done
  | needsSpec
  | humanOnly
  deriving DecidableEq, Repr

inductive Priority where
  | blocker
  | critical
  | high
  | medium
  | low
  | undefined
  deriving DecidableEq, Repr

/-- Lower is more urgent. -/
def Priority.rank : Priority → Nat
  | .blocker => 0
  | .critical => 1
  | .high => 2
  | .medium => 3
  | .low => 4
  | .undefined => 5

structure Task where
  /-- The value of `int(task.id)`; `none` for an identifier that is not a number. -/
  number : Option Int
  state : TaskState := .backlog
  labels : List Text := []
  priority : Priority := .undefined
  deriving DecidableEq

end Adapters

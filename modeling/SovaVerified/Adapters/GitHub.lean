import SovaVerified.Adapters.Task
import SovaVerified.Git.Worktree
import SovaVerified.Json.Access

/-!
# The state labels of a GitHub issue

`sova/adapters/github.py`: the state of an open issue is one of its labels. A transition writes the label of
the new state, and a read scans the labels for the states in the order of their priority. The answers of
`gh` are parameters; a request that succeeds has done what it asked for.
-/

namespace Adapters

/-- `_STATE_LABELS`. -/
def stateLabel : TaskState → Option Text
  | .triaged => some "agent:triaged".toList
  | .researched => some "agent:researched".toList
  | .inProgress => some "agent:in-progress".toList
  | .inReview => some "agent:in-review".toList
  | .onQa => some "agent:on-qa".toList
  | .needsSpec => some "agent:needs-spec".toList
  | .humanOnly => some "agent:human-only".toList
  | .backlog => none
  | .done => none

/-- The states with a label. -/
def labelledStates : List TaskState :=
  [.triaged, .researched, .inProgress, .inReview, .onQa, .needsSpec, .humanOnly]

/-- `label in _LABEL_TO_STATE`. -/
def isStateLabel (label : Text) : Bool := labelledStates.any fun st => stateLabel st == some label

/-- An issue of the repository. -/
structure Issue where
  number : Int
  /-- `CLOSED`, or `MERGED` for a pull request. -/
  isClosed : Bool := false
  labels : List Text := []
  deriving DecidableEq

/-! ## What `gh` answers -/

/-- A read of the issue. -/
inductive GhRead where
  | answered
  | failed (stderr : Text)
  | badJson (error : Text)
  deriving DecidableEq

/-- A request that changes something. -/
inductive GhWrite where
  | success
  | failed (stderr : Text)
  deriving DecidableEq

/-- The answers to the calls of one transition; a call that is not made is not answered. -/
structure TransitionAnswers where
  close : GhWrite := .success
  view : GhRead := .answered
  patch : GhWrite := .success
  create : GhWrite := .success
  patchAgain : GhWrite := .success
  deriving DecidableEq

/-! ## Transitions -/

/-- `Failed to ... issue #N: ...`, the message of a failed call. -/
def failedCall (what taskId stderr : Text) : Text :=
  "Failed to ".toList ++ what ++ " issue #".toList ++ taskId ++ ": ".toList ++ stderr.take 200

/-- `_create_label`. -/
def createLabel (label : Text) : GhWrite → Except Text Unit
  | .success => .ok ()
  | .failed stderr =>
    if Text.isIn "already exists".toList (Text.lower stderr) then .ok ()
    else .error ("Failed to create label '".toList ++ label ++ "': ".toList ++ stderr.take 200)

/-- `_patch_labels`. -/
def patchLabels (taskId : Text) (labels : List Text) (retryLabel : Text) (answers : TransitionAnswers)
    (issue : Issue) : Except Text Issue :=
  match answers.patch with
  | .success => .ok { issue with labels := labels }
  | .failed stderr =>
    let stderrLower := Text.lower stderr
    if Text.isIn "not found".toList stderrLower && Text.isIn (Text.lower retryLabel) stderrLower then
      match createLabel retryLabel answers.create, answers.patchAgain with
      | .error error, _ => .error error
      | .ok _, .success => .ok { issue with labels := labels }
      | .ok _, .failed stderr => .error (failedCall "set labels on".toList taskId stderr)
    else .error (failedCall "set labels on".toList taskId stderr)

/-- `_set_state_label`. -/
def setStateLabel (taskId newLabel : Text) (answers : TransitionAnswers) (issue : Issue) :
    Except Text Issue :=
  match answers.view with
  | .failed stderr => .error (failedCall "read labels for".toList taskId stderr)
  | .badJson error =>
    .error ("Failed to parse labels for issue #".toList ++ taskId ++ ": ".toList ++ error)
  | .answered =>
    let finalLabels := (issue.labels.filter fun label => !isStateLabel label) ++ [newLabel]
    patchLabels taskId finalLabels newLabel answers issue

/-- `transition_state`. The move on the board touches no label and raises nothing. -/
def transitionState (taskId : Text) (newState : TaskState) (answers : TransitionAnswers)
    (issue : Issue) : Except Text Issue :=
  if newState = .done then
    match answers.close with
    | .success => .ok { issue with isClosed := true }
    | .failed stderr => .error (failedCall "close".toList taskId stderr)
  else
    match stateLabel newState with
    | some label => setStateLabel taskId label answers issue
    | none => .ok issue

/-! ## Reads -/

/-- The order in which both reads look for a state. -/
def priorityStates : List TaskState :=
  [.humanOnly, .inReview, .inProgress, .needsSpec, .researched, .triaged]

/-- The scan of the labels that `get_state` and `_parse_issue` share. -/
def stateOfLabels (labels : List Text) : TaskState :=
  (priorityStates.find? fun st => (stateLabel st).any labels.contains).getD .backlog

def Issue.state (issue : Issue) : TaskState :=
  if issue.isClosed then .done else stateOfLabels issue.labels

/-- `get_state`. -/
def getState (taskId : Text) (read : GhRead) (issue : Issue) : Except Text TaskState :=
  match read with
  | .failed stderr => .error (failedCall "get state for".toList taskId stderr)
  | .badJson error =>
    .error ("Failed to parse state for issue #".toList ++ taskId ++ ": ".toList ++ error)
  | .answered => .ok issue.state

/-- The value of a `Priority`. -/
def Priority.value : Priority → Text
  | .blocker => "blocker".toList
  | .critical => "critical".toList
  | .high => "high".toList
  | .medium => "medium".toList
  | .low => "low".toList
  | .undefined => "undefined".toList

def priorities : List Priority := [.blocker, .critical, .high, .medium, .low, .undefined]

/-- `Priority.from_labels`: the most urgent priority that a label names. -/
def Priority.fromLabels (labels : List Text) : Priority :=
  let named (label : Text) : Option Priority :=
    let normalized := Text.lower (Text.strip label)
    if "priority:".toList.isPrefixOf normalized then
      priorities.find? fun p => p.value == Text.strip (Text.withoutFront "priority:".toList normalized)
    else none
  -- the priorities are listed by their rank
  (priorities.find? fun p => (labels.filterMap named).contains p).getD .undefined

/-- `_parse_issue`. -/
def parseIssue (issue : Issue) : Task :=
  { number := some issue.number, state := issue.state, labels := issue.labels,
    priority := Priority.fromLabels issue.labels }

/-- `get_task`. -/
def getTask (taskId repo : Text) (read : GhRead) (issue : Issue) : Except Text Task :=
  match read with
  | .failed stderr => .error (failedCall "fetch".toList taskId stderr)
  | .badJson error =>
    .error ("Failed to parse issue #".toList ++ taskId ++ " from ".toList ++ repo ++ ": ".toList ++ error)
  | .answered => .ok (parseIssue issue)

end Adapters

/-!
# The reviews of a pull request

`sova/adapters/github.py`: `get_pr_reviews`. The fields of a review are what the answer has for them, of
whatever type. Of `sanitize_external_input`, which logs what it finds and returns the text as it is, there is
left that it wants a text.
-/

namespace Adapters

open Git Json

/-- `PRReview`. -/
structure PRReview where
  reviewer : Json
  state : Json
  body : Json
  submittedAt : Json
  isBot : Bool

/-- `sanitize_external_input`. -/
def sanitizeExternalInput (text : Json) : Except PyException Json :=
  if truthy text then (asText text).map Json.str else .ok text

def userOf (r : Json) : Json := r.item "user".toList (.obj [])

def stateOf (r : Json) : Json := r.item "state".toList (.str [])

def submittedAtOf (r : Json) : Json := r.item "submitted_at".toList (.str [])

/-- `r.get("body", "") or ""`. -/
def bodyOf (r : Json) : Json :=
  let body := r.item "body".toList (.str [])
  if truthy body then body else .str []

/-- The loop of `get_pr_reviews`, on one entry. -/
def prReview (r : Json) : Except PyException (Option PRReview) :=
  match r with
  | .obj _ => do
    let reviewer ← getItem (userOf r) "login".toList (.str [])
    if truthy reviewer = true ∧ truthy (stateOf r) = true ∧ truthy (submittedAtOf r) = true then
      let body ← sanitizeExternalInput (bodyOf r)
      let kind ← getItem (userOf r) "type".toList (.str [])
      pure (some { reviewer, state := stateOf r, body, submittedAt := submittedAtOf r,
                   isBot := Json.eq kind (.str "Bot".toList) })
    else pure none
  | _ => .ok none

/-- `get_pr_reviews`, given what `gh` has answered. -/
def getPrReviews (result : ShellResult) : Except PyException (List PRReview) :=
  if result.success then do
    let reviews ← loadsList result.stdout
    collect prReview reviews
  else .ok []

end Adapters

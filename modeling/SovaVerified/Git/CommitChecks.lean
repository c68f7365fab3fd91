import SovaVerified.Core.MonitorCi
import SovaVerified.Git.Worktree
import SovaVerified.Json.Access
import SovaVerified.Outside.Outside

/-!
# The checks of a commit

`sova/git/pr.py`: `get_ci_checks_for_sha`, which reads the check runs and the commit statuses of one commit,
page by page. A field of a check is what the answer has for it, of whatever type. The environment of `gh`,
the tracking of its rate limit and the log lines are left out.
-/

namespace Git.CommitChecks

open Json Outside
open Core.MonitorCi (CheckStatus CheckConclusion)

structure CICheck where
  name : Json
  status : CheckStatus
  conclusion : Option CheckConclusion
  detailsUrl : Json

/-- The two sub-resources of a commit. -/
inductive Endpoint where
  | checkRuns
  | status
  deriving DecidableEq, Repr

/-- `items_key`. -/
def Endpoint.itemsKey : Endpoint → Text
  | .checkRuns => "check_runs".toList
  | .status => "statuses".toList

/-- What `gh api` is asked for, a hundred entries a page. The first request names no page. -/
structure Request where
  repo : Text
  sha : Text
  endpoint : Endpoint
  page : Option Nat := none
  deriving DecidableEq

variable {ω : Type}

/-- What `run` comes to for a request. -/
abbrev Run (ω : Type) := Request → ω → Command × ω

abbrev Gh (ω α : Type) := Prog ω Unit PyException α

/-- A call that asks nothing. -/
def lift {α : Type} (call : Except PyException α) : Gh ω α := act fun w => (call, w)

/-- `json.loads`, where a text that is not JSON has a value of its own. -/
def loaded (t : Text) : Except PyException (Option Json) :=
  Exceptions.handling (· == decodeError) none ((loads t).map some)

/-- `list(value)`. -/
def listOf : Json → Except PyException (List Json)
  | .arr items => .ok items
  | .str t => .ok (t.map fun c => .str [c])
  | .obj members => .ok (members.map fun m => .str m.1)
  | _ => .error .typeError

/-- `n < value`. -/
def lessThan (n : Nat) : Json → Except PyException Bool
  | .bool b => .ok (n < b.toNat)
  | .int m => .ok ((n : Int) < m)
  | .float (.finite units) => .ok ((n * PyFloat.one : Nat) < units)
  | .float (.infinite negative) => .ok !negative
  | .float .nan => .ok false
  | _ => .error .typeError

/-! ## The pages -/

/-- `_MAX_CHECK_PAGES`. -/
def maxCheckPages : Nat := 50

/-- `_is_unknown_commit_error`. -/
def isUnknownCommitError (result : ShellResult) : Bool :=
  !result.success && (Text.isIn "HTTP 404".toList result.stderr ||
    Text.isIn "HTTP 422".toList result.stderr || Text.isIn "No commit found".toList result.stderr)

def unknownCommitError : PyException := .other "UnknownCommitError".toList

/-- `_has_more_pages`. -/
def hasMorePages (items : List Json) (totalCount : Json) : Except PyException Bool :=
  if items ≠ [] ∧ items.length % 100 = 0 then
    match totalCount with
    | .null => .ok true
    | _ => lessThan items.length totalCount
  else .ok false

/-- The loop of `_fetch_remaining_pages`. The pages up to the last one that may be read bound the rounds:
they are `maxCheckPages + 1 - page`. -/
def fetchPages (run : Run ω) (repo sha : Text) (endpoint : Endpoint) (totalCount : Json) :
    Nat → Nat → List Json → Gh ω (Option (List Json))
  | rounds, page, items => do
    if ← lift (hasMorePages items totalCount) then
      match rounds with
      | 0 => pure none
      | rounds + 1 => do
        let result ← act (run { repo, sha, endpoint, page := some page })
        if !result.success then pure none
        else
          match ← lift (loaded result.stdout) with
          | none => pure none
          | some pageData => do
            let found ← lift (getItem pageData endpoint.itemsKey (.arr []))
            let pageItems ← lift (listOf found)
            if pageItems.length < 100 then pure (some (items ++ pageItems))
            else fetchPages run repo sha endpoint totalCount rounds (page + 1) (items ++ pageItems)
    else pure (some items)

/-- `_fetch_remaining_pages`. -/
def fetchRemainingPages (run : Run ω) (repo sha : Text) (endpoint : Endpoint) (items : List Json)
    (totalCount : Json) : Gh ω (Option (List Json)) :=
  fetchPages run repo sha endpoint totalCount (maxCheckPages - 1) 2 items

/-- All items of an endpoint, given the answer to the first request. -/
def allItems (run : Run ω) (repo sha : Text) (endpoint : Endpoint) (data : Json) :
    Gh ω (Option (List Json)) := do
  let found ← lift (getItem data endpoint.itemsKey (.arr []))
  let items ← lift (listOf found)
  let totalCount ← lift (getItem data "total_count".toList .null)
  fetchRemainingPages run repo sha endpoint items totalCount

/-! ## The entries -/

/-- `_CHECK_RUN_STATUS_MAP`. -/
def checkRunStatusMap : Assoc Text CheckStatus :=
  [("queued".toList, .queued), ("in_progress".toList, .inProgress), ("completed".toList, .completed)]

/-- `_CHECK_RUN_CONCLUSION_MAP`. -/
def checkRunConclusionMap : Assoc Text CheckConclusion :=
  [("success".toList, .success), ("failure".toList, .failure), ("neutral".toList, .neutral),
   ("cancelled".toList, .cancelled), ("timed_out".toList, .timedOut),
   ("action_required".toList, .actionRequired), ("skipped".toList, .skipped), ("stale".toList, .neutral),
   ("startup_failure".toList, .failure)]

/-- `_COMMIT_STATUS_STATE_MAP`. -/
def commitStatusStateMap : Assoc Text (CheckStatus × Option CheckConclusion) :=
  [("success".toList, .completed, some .success), ("failure".toList, .completed, some .failure),
   ("error".toList, .completed, some .failure), ("pending".toList, .inProgress, none)]

/-- A dict asked for a value: what is not hashable cannot be a key. -/
def keyed {β : Type} (map : Assoc Text β) : Json → Except PyException (Option β)
  | .str t => .ok (Assoc.get map t)
  | .arr _ => .error .typeError
  | .obj _ => .error .typeError
  | _ => .ok none

/-- `value or ""`. -/
def orEmpty (v : Json) : Json := if truthy v then v else .str []

/-- An unknown conclusion of a completed check run counts as a failure. -/
def failClosed (status : CheckStatus) (conclusionRaw : Json) (conclusion : Option CheckConclusion) :
    Option CheckConclusion :=
  if status = .completed ∧ truthy conclusionRaw = true ∧ conclusion = none then some .failure
  else conclusion

/-- The entry for a check run. -/
def checkOfRun (item : Json) : Except PyException CICheck := do
  let statusRaw ← getItem item "status".toList (.str [])
  let status := (← keyed checkRunStatusMap statusRaw).getD .inProgress
  let conclusionRaw := orEmpty (← getItem item "conclusion".toList .null)
  let conclusion ← keyed checkRunConclusionMap conclusionRaw
  let name ← getItem item "name".toList (.str [])
  let detailsUrl ← getItem item "details_url".toList (.str [])
  pure { name, status, conclusion := failClosed status conclusionRaw conclusion, detailsUrl }

/-- The entry for a commit status. -/
def checkOfStatus (item : Json) : Except PyException CICheck := do
  let stateRaw ← getItem item "state".toList (.str [])
  let state := (← keyed commitStatusStateMap stateRaw).getD (.inProgress, none)
  let name ← getItem item "context".toList (.str [])
  let targetUrl ← getItem item "target_url".toList (.str [])
  pure { name, status := state.1, conclusion := state.2, detailsUrl := orEmpty targetUrl }

/-- The two loops at the end of `get_ci_checks_for_sha`. -/
def entries (runs statuses : List Json) : Except PyException (List CICheck) := do
  let checks ← runs.mapM checkOfRun
  let more ← statuses.mapM checkOfStatus
  pure (checks ++ more)

/-- The part of `get_ci_checks_for_sha` behind the first two answers. -/
def checksOf (run : Run ω) (repo sha : Text) (checkRunsData statusData : Json) :
    Gh ω (Option (List CICheck)) := do
  match ← allItems run repo sha .checkRuns checkRunsData with
  | none => pure none
  | some runs =>
    match ← allItems run repo sha .status statusData with
    | none => pure none
    | some statuses => (some ·) <$> lift (entries runs statuses)

/-- `get_ci_checks_for_sha`: `none` when GitHub could not be queried. -/
def getCiChecksForSha (run : Run ω) (repo sha : Text) : Gh ω (Option (List CICheck)) := do
  let checkRunsResult ← act (run { repo, sha, endpoint := .checkRuns })
  let statusResult ← act (run { repo, sha, endpoint := .status })
  if !checkRunsResult.success || !statusResult.success then
    if isUnknownCommitError checkRunsResult && isUnknownCommitError statusResult then
      raise unknownCommitError
    else pure none
  else
    match ← lift (loaded checkRunsResult.stdout) with
    | none => pure none
    | some checkRunsData =>
      match ← lift (loaded statusResult.stdout) with
      | none => pure none
      | some statusData => checksOf run repo sha checkRunsData statusData

end Git.CommitChecks

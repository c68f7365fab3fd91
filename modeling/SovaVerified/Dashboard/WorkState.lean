import Mathlib.Data.Char
import Mathlib.Data.List.Lex
import SovaVerified.Adapters.Task
import SovaVerified.Review.Format

/-!
# The verdict of a review history

`sova/dashboard/services/work_verdict.py`: GitHub review markers are the only source of a pull
request's SOVA verdict. `parseReviewHistory` reads the verdict, its anchor commit, the addressed state
and the number of address cycles from a review history; `resolveFetched` is what
`resolve_sova_verdict` makes of the answer of one fetch.
-/

namespace Dashboard

open Review

/-- The state of a GitHub review. -/
inductive ReviewState where
  | approved
  | changesRequested
  | commented
  | dismissed
  | pending
  deriving DecidableEq, Repr

/-- An entry of a review history, empty where GitHub gave no value. -/
structure ReviewEntry where
  state : ReviewState
  body : Text
  /-- ISO 8601, so that the order of texts is the order of times. -/
  submittedAt : Text
  author : Text
  deriving DecidableEq

/-- A verdict dict, without its constant `finding_count`. -/
structure SovaVerdict where
  hasSovaReview : Bool
  verdict : Option Text
  reviewedAt : Option Text
  reviewHeadSha : Option Text
  addressCycles : Nat
  /-- The `UNRESOLVED_KEY` flag: the history could not be looked up. -/
  historyUnavailable : Bool := false
  deriving DecidableEq, Repr

/-- `_NO_REVIEW`. -/
def noReview : SovaVerdict where
  hasSovaReview := false
  verdict := none
  reviewedAt := none
  reviewHeadSha := none
  addressCycles := 0

/-- `_unresolved()`. -/
def unresolved : SovaVerdict := { noReview with historyUnavailable := true }

/-- The reviews that the scan looks at: not dismissed, and by the trusted login when there is one. -/
def eligible (trustedLogin : Text) (r : ReviewEntry) : Bool :=
  r.state ≠ .dismissed && (trustedLogin.isEmpty || Text.lower r.author == Text.lower trustedLogin)

/-- `sorted(..., key=submitted_at, reverse=True)`: stable, newest first. -/
def newestFirst (reviews : List ReviewEntry) : List ReviewEntry :=
  reviews.insertionSort fun a b => b.submittedAt ≤ a.submittedAt

/-- The scan over the ordered reviews; `addressed` says that an addressed marker was met. -/
def scanMarkers (cycles : Nat) : Bool → List ReviewEntry → SovaVerdict
  | _, [] => { noReview with addressCycles := cycles }
  | addressed, r :: rs =>
    if hasAddressedMarker r.body then scanMarkers cycles true rs
    else
      match parseVerdictMarker r.body with
      | none => scanMarkers cycles addressed rs
      | some (verdict, sha) =>
        { hasSovaReview := true
          verdict := some (if addressed then "addressed".toList else verdict)
          reviewedAt := if r.submittedAt.isEmpty then none else some r.submittedAt
          reviewHeadSha := if addressed then none else sha
          addressCycles := cycles }

/-- `parse_review_history`. -/
def parseReviewHistory (reviews : List ReviewEntry) (trustedLogin : Text) : SovaVerdict :=
  let ordered := newestFirst (reviews.filter (eligible trustedLogin))
  scanMarkers (ordered.countP fun r => hasAddressedMarker r.body) false ordered

/-- What `_fetch_review_history` can come back with. -/
inductive Fetched where
  /-- The call raised. -/
  | raised
  /-- GitHub could not answer for this pull request. -/
  | unavailable
  /-- The history, and whether older reviews are missing from it. -/
  | history (reviews : List ReviewEntry) (truncated : Bool)
  deriving DecidableEq

/-- The verdict of `resolve_sova_verdict` on a fetch, `none` when the history could not be used. -/
def verdictOfFetch (trustedLogin : Text) : Fetched → Option SovaVerdict
  | .raised => none
  | .unavailable => none
  | .history reviews truncated =>
    if truncated then none else some (parseReviewHistory reviews trustedLogin)

/-- `resolve_sova_verdict` behind the cache: without a trusted login nothing is parsed. -/
def resolveFetched (trustedLogin : Text) (fetched : Fetched) : SovaVerdict :=
  if trustedLogin.isEmpty then unresolved
  else (verdictOfFetch trustedLogin fetched).getD unresolved

end Dashboard

/-!
# The state of a work item

`sova/dashboard/services/work_state.py`: the ordered, first-match-wins resolver of a pull request's
next action, and the translation of a pull request record and a SOVA verdict into the facts it reads.
Labels, colors, card actions and the sentences of the reason chain are presentation and left out.
-/

namespace Dashboard

open Adapters (TaskState)

/-- `WorkItemState`. -/
inductive WorkItemState where
  | backlog
  | needsSpec
  | triaged
  | researched
  | inProgress
  | agentRunning
  | prDraft
  | prConflicted
  | prCiRunning
  | prCiFailed
  | prAwaitingReview
  | prSovaChanges
  | prExternalChanges
  | prReviewAddressed
  | prReadyToMerge
  | prSovaPending
  | prReviewExhausted
  | specReview
  | merged
  | done
  | humanOnly
  deriving DecidableEq, Repr

/-- `_LABEL_STATE_MAP`, with the fallback of its only reader. -/
def labelState : TaskState → WorkItemState
  | .backlog => .backlog
  | .triaged => .triaged
  | .researched => .researched
  | .inProgress => .inProgress
  | .inReview => .prAwaitingReview
  | .needsSpec => .needsSpec
  | .humanOnly => .humanOnly
  | .done => .done
  | .onQa => .backlog

/-- The lifecycle of a pull request. -/
inductive PRLifecycle where
  | opened
  | merged
  | closed
  deriving DecidableEq, Repr

/-- GitHub's `mergeable`. -/
inductive Mergeable where
  | mergeable
  | conflicting
  | unknown
  deriving DecidableEq, Repr

def Mergeable.name : Mergeable → Text
  | .mergeable => "MERGEABLE".toList
  | .conflicting => "CONFLICTING".toList
  | .unknown => "UNKNOWN".toList

/-- GitHub's `mergeStateStatus`; `notFetched` is the empty string. -/
inductive MergeState where
  | clean
  | behind
  | blocked
  | dirty
  | unstable
  | hasHooks
  | draft
  | unknown
  | notFetched
  deriving DecidableEq, Repr

def MergeState.name : MergeState → Text
  | .clean => "CLEAN".toList
  | .behind => "BEHIND".toList
  | .blocked => "BLOCKED".toList
  | .dirty => "DIRTY".toList
  | .unstable => "UNSTABLE".toList
  | .hasHooks => "HAS_HOOKS".toList
  | .draft => "DRAFT".toList
  | .unknown => "UNKNOWN".toList
  | .notFetched => []

/-- The summarised CI status; `unknown` is the empty string. -/
inductive CiStatus where
  | unknown
  | pending
  | running
  | passed
  | failed
  | none
  deriving DecidableEq, Repr

def CiStatus.name : CiStatus → Text
  | .unknown => []
  | .pending => "pending".toList
  | .running => "running".toList
  | .passed => "passed".toList
  | .failed => "failed".toList
  | .none => "none".toList

/-- `ComputedPRState`. -/
inductive ComputedPRState where
  | draft
  | conflicted
  | ciRunning
  | ciFailed
  | changesRequested
  | approvedCiGreen
  | approved
  | reviewAddressed
  | awaitingReview
  deriving DecidableEq, Repr

/-- Whether review threads are resolved. -/
inductive ThreadSignal where
  | clear
  | pending
  | unknown
  deriving DecidableEq, Repr

def ThreadSignal.name : ThreadSignal → Text
  | .clear => "clear".toList
  | .pending => "pending".toList
  | .unknown => "unknown".toList

/-- The fields of a pull request record that the resolver reads. A field with a default is the value
that the record's reader puts in place of a missing key. -/
structure PRData where
  state : PRLifecycle := .opened
  isDraft : Bool := false
  mergeable : Mergeable := .unknown
  mergeState : MergeState := .notFetched
  ciStatus : CiStatus := .unknown
  headSha : Text := []
  computedState : Option ComputedPRState := none
  /-- `none` for a missing key, `some none` for an unknown count. -/
  threadTotal : Option (Option Int) := none
  threadResolved : Option (Option Int) := none
  deriving DecidableEq

/-- `PRFacts`. -/
structure PRFacts where
  runningAgent : Bool
  prState : PRLifecycle
  isDraft : Bool
  mergeable : Mergeable
  mergeState : MergeState
  ciStatus : CiStatus
  headSha : Text
  sovaVerdict : Option Text
  sovaVerdictSha : Option Text
  sovaVerdictAddressed : Bool
  externalChangesRequested : Bool
  threadSignal : ThreadSignal
  externalReviewsEnabled : Bool
  addressCycles : Nat
  maxAddressCycles : Int
  reviewHistoryUnresolved : Bool
  deriving DecidableEq

/-- The actions that the resolver names. -/
inductive ActionId where
  | rebase
  | addressPr
  | integrate
  | addressReview
  | reviewPr
  deriving DecidableEq, Repr

/-- The rules of the resolver, in the order in which they are evaluated. -/
inductive Rule where
  | agentRunning
  | merged
  | conflicting
  | draft
  | ciFailed
  | ciRunning
  | reviewBudgetExhausted
  | sovaStandingChanges
  | sovaVerdictStale
  | externalChangesOrUnresolvedThreads
  | sovaVerdictAddressed
  | noSovaReview
  | mergeBlockedByGithub
  | readyToMerge
  | awaitingReview
  deriving DecidableEq, Repr

/-- `Resolution`. -/
structure Resolution where
  state : WorkItemState
  actionId : Option ActionId
  reasonChain : List Rule
  mergeBlockers : List Text
  deriving DecidableEq

/-- `_verdict_is_stale`: an unknown commit on either side leaves the verdict fresh. -/
def verdictIsStale (facts : PRFacts) : Bool :=
  match facts.sovaVerdict, facts.sovaVerdictSha with
  | some _, some sha => sha ≠ [] && facts.headSha ≠ [] && sha ≠ facts.headSha
  | _, _ => false

/-- `_has_standing_sova_changes`. -/
def hasStandingSovaChanges (facts : PRFacts) : Bool :=
  (facts.sovaVerdict = some "revise".toList || facts.sovaVerdict = some "block".toList) &&
    !facts.sovaVerdictAddressed && !verdictIsStale facts

/-- `_MERGE_STATES_MERGEABLE`. -/
def MergeState.isMergeable : MergeState → Bool
  | .clean | .behind | .hasHooks | .unstable => true
  | _ => false

/-- `_MERGE_STATES_UNMERGEABLE`. -/
def MergeState.isUnmergeable : MergeState → Bool
  | .blocked | .dirty | .draft => true
  | _ => false

/-- `_github_will_merge`. -/
def githubWillMerge (facts : PRFacts) : Bool :=
  if facts.mergeState.isMergeable then true
  else if facts.mergeState.isUnmergeable then false
  else facts.mergeable = .mergeable

/-- `text or fallback`. -/
def orElse (text fallback : Text) : Text := if text = [] then fallback else text

/-- `_unmet_merge_conditions`. -/
def unmetMergeConditions (facts : PRFacts) : List Text :=
  (if facts.sovaVerdict ≠ some "approve".toList then
    ["verdict is ".toList ++ orElse (facts.sovaVerdict.getD []) "none".toList ++ ", not approve".toList]
    else []) ++
  (if facts.externalChangesRequested then
    ["an external reviewer has requested changes".toList] else []) ++
  (if facts.threadSignal ≠ .clear then ["threads are ".toList ++ facts.threadSignal.name] else []) ++
  (if facts.ciStatus ≠ .passed ∧ facts.ciStatus ≠ .none then
    ["CI status is ".toList ++ orElse facts.ciStatus.name "unknown".toList] else []) ++
  (if ¬ githubWillMerge facts then
    [if facts.mergeState.isUnmergeable then "GitHub merge state is ".toList ++ facts.mergeState.name
      else "GitHub merge state is ".toList ++ orElse facts.mergeable.name "unknown".toList]
    else [])

/-- The guard of the rule `review_budget_exhausted`. -/
def budgetExhausted (facts : PRFacts) : Bool :=
  facts.maxAddressCycles > 0 &&
    (facts.reviewHistoryUnresolved || (facts.addressCycles : Int) ≥ facts.maxAddressCycles)

/-- The rules up to and with the given one, in the order of evaluation. -/
def chainTo (rule : Rule) : List Rule :=
  let rules : List Rule := [.agentRunning, .merged, .conflicting, .draft, .ciFailed, .ciRunning,
    .reviewBudgetExhausted, .sovaStandingChanges, .sovaVerdictStale,
    .externalChangesOrUnresolvedThreads, .sovaVerdictAddressed, .noSovaReview,
    .mergeBlockedByGithub, .readyToMerge, .awaitingReview]
  rules.takeWhile (· ≠ rule) ++ [rule]

/-- `resolve_next_action`. -/
def resolveNextAction (facts : PRFacts) : Resolution :=
  let mergeBlockers := unmetMergeConditions facts
  let resolved (rule : Rule) (state : WorkItemState) (action : Option ActionId) : Resolution :=
    ⟨state, action, chainTo rule, mergeBlockers⟩
  if facts.runningAgent then resolved .agentRunning .agentRunning none
  else if facts.prState = .merged then resolved .merged .merged none
  else if facts.mergeable = .conflicting ∨ facts.mergeState = .dirty then
    resolved .conflicting .prConflicted (some .rebase)
  else if facts.isDraft then resolved .draft .prDraft none
  else if facts.ciStatus = .failed then resolved .ciFailed .prCiFailed (some .addressPr)
  else if facts.ciStatus = .pending ∨ facts.ciStatus = .running then
    resolved .ciRunning .prCiRunning none
  else if budgetExhausted facts then
    resolved .reviewBudgetExhausted .prReviewExhausted (some .integrate)
  else if hasStandingSovaChanges facts then
    resolved .sovaStandingChanges .prSovaChanges (some .addressReview)
  -- the rule `sova_verdict_stale` never matches: a stale verdict falls through to "no review"
  else if facts.externalChangesRequested ∨ facts.threadSignal = .pending ∨
      facts.threadSignal = .unknown then
    resolved .externalChangesOrUnresolvedThreads .prExternalChanges (some .addressPr)
  else if facts.sovaVerdictAddressed then
    resolved .sovaVerdictAddressed .prReviewAddressed (some .reviewPr)
  else if facts.sovaVerdict = none ∨ verdictIsStale facts then
    resolved .noSovaReview
      (if facts.externalReviewsEnabled then .prSovaPending else .prAwaitingReview) (some .reviewPr)
  else if facts.mergeState = .blocked then
    resolved .mergeBlockedByGithub .prAwaitingReview none
  else if mergeBlockers = [] then resolved .readyToMerge .prReadyToMerge (some .integrate)
  else resolved .awaitingReview .prAwaitingReview (some .reviewPr)

/-- `get_unresolved_thread_count`: no threads when a key is missing, unknown when a count is. -/
def unresolvedThreadCount (pr : PRData) : Option Int :=
  match pr.threadTotal, pr.threadResolved with
  | some (some total), some (some resolved) => some (max 0 (total - resolved))
  | some _, some _ => none
  | _, _ => some 0

/-- `_thread_signal`. -/
def threadSignal (pr : PRData) : ThreadSignal :=
  match unresolvedThreadCount pr with
  | none => .unknown
  | some n => if n > 0 then .pending else .clear

/-- `_build_pr_facts`. -/
def buildPRFacts (pr : PRData) (sovaVerdict : Option SovaVerdict) (externalReviewsEnabled : Bool)
    (maxAddressCycles : Int) : PRFacts :=
  let verdict := sovaVerdict.getD noReview
  let rawVerdict := if verdict.hasSovaReview then verdict.verdict else none
  let addressed : Bool := rawVerdict = some "addressed".toList
  { runningAgent := false
    prState := pr.state
    isDraft := pr.isDraft
    mergeable := pr.mergeable
    mergeState := pr.mergeState
    ciStatus := pr.ciStatus
    headSha := pr.headSha
    sovaVerdict := if addressed then none else rawVerdict
    sovaVerdictSha := if verdict.hasSovaReview then verdict.reviewHeadSha else none
    sovaVerdictAddressed := addressed
    externalChangesRequested := pr.computedState = some .changesRequested
    threadSignal := threadSignal pr
    externalReviewsEnabled := externalReviewsEnabled
    addressCycles := verdict.addressCycles
    maxAddressCycles := maxAddressCycles
    reviewHistoryUnresolved := verdict.historyUnavailable }

/-- `compute_work_item_resolution`. -/
def computeWorkItemResolution (taskState : Option TaskState) (pr : Option PRData)
    (runningAgent : Bool) (sovaVerdict : Option SovaVerdict) (externalReviewsEnabled : Bool)
    (maxAddressCycles : Int) : Resolution × Option PRFacts :=
  if runningAgent ∨ pr.isSome then
    let facts := buildPRFacts (pr.getD {}) sovaVerdict externalReviewsEnabled maxAddressCycles
    let facts := if runningAgent then { facts with runningAgent := true } else facts
    (resolveNextAction facts, some facts)
  else
    match taskState with
    | some s => (⟨labelState s, none, [], []⟩, none)
    | none => (⟨.backlog, none, [], []⟩, none)

end Dashboard

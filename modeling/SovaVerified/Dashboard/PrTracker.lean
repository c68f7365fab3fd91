import Mathlib.Data.List.Sort
import Mathlib.Logic.Function.Basic
import SovaVerified.Dashboard.WorkState

/-!
# The tracker of open pull requests

`list_open_prs_with_state`, `invalidate_pr_cache` and `_record_state_transitions` of
`sova/dashboard/services/pr_service.py`. A listing is looked up, and then fetched if it has to be. What a fetch
brings goes to the event recorder, a task of its own whose loop over the pull requests does not await.
-/

namespace Dashboard

/-- What is read of an enriched pull request. -/
structure OpenPr where
  number : Nat
  computedState : ComputedPRState
  title : Text := []
  author : Text := []
  updatedAt : Text := []
  deriving DecidableEq

/-- The part of the configuration that a listing reads. -/
structure PrRepoConfig where
  githubRepo : Text
  githubUser : Text
  deriving DecidableEq

/-- `cache_key`: the repository and the user. -/
abbrev PrCacheKey := Text × Text

/-- `_PR_CACHE_TTL`, in microseconds. -/
def prCacheTtl : Int := 120000000

/-- `_PR_FETCH_FAILURE_PAUSE`. -/
def prFetchFailurePause : Int := 30000000

/-- `_COMPUTED_TO_EVENT`. -/
def computedToEvent : ComputedPRState → Option Text
  | .approved => some "approved".toList
  | .approvedCiGreen => some "approved".toList
  | .ciFailed => some "ci_failed".toList
  | .changesRequested => some "reviewed".toList
  | .reviewAddressed => some "reviewed".toList
  | _ => none

/-- That a pull request of a repository was seen in a state. -/
structure PrObservation where
  repo : Text
  number : Nat
  state : ComputedPRState
  deriving DecidableEq

/-- The state in which a pull request of a repository was last seen; the newest observation comes first. -/
def lastObserved (observed : List PrObservation) (repo : Text) (number : Nat) : Option ComputedPRState :=
  (observed.find? fun o => decide (o.repo = repo) && decide (o.number = number)).map PrObservation.state

/-- The last observation of a number, in any repository. -/
def lastListed (observed : List PrObservation) (number : Nat) : Option PrObservation :=
  observed.find? fun o => decide (o.number = number)

/-- A row of `PREvent`. The time is that of the pull request, or else the time of writing. -/
structure PrEvent where
  prNumber : Nat
  repo : Text
  eventType : Text
  timestamp : Option Text
  actor : Text
  computedState : ComputedPRState
  prevState : ComputedPRState
  /-- The state in which this pull request of this repository was last seen before; not part of the row. -/
  lastObserved : Option ComputedPRState
  deriving DecidableEq

/-- A fetch on its way, with what it read before its first `await`. -/
structure PrFetch where
  key : PrCacheKey
  now : Int
  generation : Nat
  deriving DecidableEq

/-- The result of a listing. -/
inductive ListOutcome where
  | returned (prs : List OpenPr)
  | raised
  deriving DecidableEq

/-- A listing up to its first `await`. -/
inductive ListStart where
  | done (outcome : ListOutcome)
  | fetching (fetch : PrFetch)
  deriving DecidableEq

/-- What a fetch comes back with: the enriched pull requests, a `PRLookupError`, or another error. -/
inductive FetchOutcome where
  | listed (prs : List OpenPr)
  | lookupError
  | raised
  deriving DecidableEq

/-- What a task of `_record_state_transitions` is given. -/
structure Recording where
  repo : Text
  prs : List OpenPr
  deriving DecidableEq

structure PrTracker where
  /-- `_pr_cache`. -/
  cache : PrCacheKey → Option (Int × List OpenPr) := fun _ => none
  /-- `_pr_cache_generation`. -/
  cacheGeneration : PrCacheKey → Option Nat := fun _ => none
  /-- `_pr_fetch_failed_until`. -/
  fetchFailedUntil : PrCacheKey → Option Int := fun _ => none
  /-- `_last_known_states`. -/
  lastKnownStates : Nat → Option ComputedPRState := fun _ => none
  /-- The tasks that have not run. -/
  recordings : List Recording := []
  /-- The rows to write, the newest first. -/
  events : List PrEvent := []
  /-- What the recorder has looked at; no step of the code depends on it. -/
  observed : List PrObservation := []

/-- How a listing fails. -/
def ListOutcome.failed (raiseOnError : Bool) : ListOutcome := if raiseOnError then .raised else .returned []

namespace PrTracker

/-- `list_open_prs_with_state` up to its first `await`. `cfg` is `none` when the configuration does not load. -/
def startList (s : PrTracker) (cfg : Option PrRepoConfig) (raiseOnError : Bool) (now : Int) :
    ListStart × PrTracker :=
  match cfg with
  | none => (.done (.failed raiseOnError), s)
  | some cfg =>
    if cfg.githubRepo.isEmpty then (.done (.returned []), s)
    else
      let key : PrCacheKey := (cfg.githubRepo, cfg.githubUser)
      match (s.cache key).filter fun cached => now - cached.1 < prCacheTtl with
      | some cached => (.done (.returned cached.2), s)
      | none =>
        if now < (s.fetchFailedUntil key).getD 0 then (.done (.failed raiseOnError), s)
        else
          let generation := (s.cacheGeneration key).getD 0
          (.fetching ⟨key, now, generation⟩,
            { s with cacheGeneration := Function.update s.cacheGeneration key (some generation) })

/-- The rest of it. -/
def finishList (s : PrTracker) (fetch : PrFetch) (raiseOnError : Bool) (now : Int) :
    FetchOutcome → ListOutcome × PrTracker
  | .lookupError =>
    (.failed raiseOnError,
      { s with fetchFailedUntil := Function.update s.fetchFailedUntil fetch.key (some (now + prFetchFailurePause)) })
  | .raised => (.raised, s)
  | .listed prs =>
    let result := prs.insertionSort fun p q => q.number ≤ p.number
    let current : Bool := (s.cacheGeneration fetch.key).getD 0 = fetch.generation
    (.returned result,
      { s with
        fetchFailedUntil := Function.update s.fetchFailedUntil fetch.key none
        cache := if current then Function.update s.cache fetch.key (some (fetch.now, result)) else s.cache
        recordings := s.recordings ++ [⟨fetch.key.1, result⟩] })

/-- `invalidate_pr_cache`. -/
def invalidate (s : PrTracker) (repo : Text) : PrTracker :=
  let visited (key : PrCacheKey) : Bool :=
    decide (key.1 = repo) && ((s.cache key).isSome || (s.cacheGeneration key).isSome)
  { s with
    cache := fun key => if visited key then none else s.cache key
    fetchFailedUntil := fun key => if visited key then none else s.fetchFailedUntil key
    cacheGeneration := fun key =>
      if visited key then some ((s.cacheGeneration key).getD 0 + 1) else s.cacheGeneration key }

/-- The body of the loop of `_record_state_transitions`. -/
def observe (repo : Text) (s : PrTracker) (pr : OpenPr) : PrTracker :=
  let next := { s with
    lastKnownStates := Function.update s.lastKnownStates pr.number (some pr.computedState)
    observed := ⟨repo, pr.number, pr.computedState⟩ :: s.observed }
  match s.lastKnownStates pr.number with
  | none => next
  | some prev =>
    if pr.computedState = prev then next
    else
      match computedToEvent pr.computedState with
      | none => next
      | some eventType =>
        { next with events :=
            { prNumber := pr.number, repo := repo, eventType := eventType,
              timestamp := if pr.updatedAt.isEmpty then none else some pr.updatedAt, actor := pr.author,
              computedState := pr.computedState, prevState := prev,
              lastObserved := lastObserved s.observed repo pr.number } :: s.events }

/-- `_record_state_transitions`, up to the writing of the rows. -/
def recordStateTransitions (s : PrTracker) (r : Recording) : PrTracker := r.prs.foldl (observe r.repo) s

end PrTracker

/-- The number was last listed for the same repository, or in the same state; or the pull request of the
repository itself was last seen in another state. -/
def SameNumberClean (observed : List PrObservation) (repo : Text) (pr : OpenPr) : Prop :=
  ∀ o, lastListed observed pr.number = some o → o.repo = repo ∨ o.state = pr.computedState ∨
    ∃ p, lastObserved observed repo pr.number = some p ∧ p ≠ pr.computedState

/-- No pull request of the list has a state with an event and a number that collides. -/
def RecordClean (repo : Text) : List PrObservation → List OpenPr → Prop
  | _, [] => True
  | observed, pr :: prs =>
    ((computedToEvent pr.computedState).isSome = true → SameNumberClean observed repo pr) ∧
      RecordClean repo (⟨repo, pr.number, pr.computedState⟩ :: observed) prs

end Dashboard

/-!
# The state of a pull request

`compute_pr_state` of `sova/dashboard/services/pr_service.py`: one state for the tracker, from what GitHub
says about the checks, the reviews and the mergeability of a pull request. What GitHub does not say is the
empty text.
-/

namespace Dashboard

/-! ## The checks -/

/-- An entry of `statusCheckRollup`. -/
inductive CiContext where
  | statusContext (state : Text)
  | checkRun (status conclusion : Text)
  deriving DecidableEq

/-- What `_summarize_ci` collects. -/
inductive ContextState where
  | passed
  | failed
  | pending
  | skipped
  deriving DecidableEq, Repr

def failedConclusions : List Text :=
  ["FAILURE".toList, "ERROR".toList, "TIMED_OUT".toList, "STARTUP_FAILURE".toList,
   "ACTION_REQUIRED".toList, "STALE".toList]

def skippedConclusions : List Text := ["SKIPPED".toList, "NEUTRAL".toList, "CANCELLED".toList]

/-- What an entry adds to the states. -/
def CiContext.contextState : CiContext → Option ContextState
  | .statusContext state =>
    let state := Text.upper state
    if state = "SUCCESS".toList then some .passed
    else if state = "FAILURE".toList ∨ state = "ERROR".toList then some .failed
    else if state = "PENDING".toList then some .pending
    else none
  | .checkRun status conclusion =>
    let status := Text.upper status
    let conclusion := Text.upper conclusion
    if conclusion ∈ failedConclusions then some .failed
    else if conclusion = "SUCCESS".toList then some .passed
    else if conclusion ∈ skippedConclusions then some .skipped
    else if status = "COMPLETED".toList then some .passed
    else some .pending

/-- `_summarize_ci`. -/
def summarizeCi (rollup : List CiContext) : CiStatus :=
  let states := rollup.filterMap CiContext.contextState
  if .failed ∈ states then .failed
  else if .pending ∈ states then .pending
  else if .passed ∈ states then .passed
  else if .skipped ∈ states then .passed
  else .none

/-! ## The reviews -/

/-- A review of `latestReviews`; a review without an author has the empty login. -/
structure PrReview where
  login : Text
  state : Text
  deriving DecidableEq

/-- `DEFAULT_CODERABBIT_AUTHORS`. -/
def coderabbitAuthors : List Text :=
  ["coderabbitai".toList, "coderabbitai[bot]".toList, "coderabbit[bot]".toList]

/-- `_is_bot_login`. -/
def isBotLogin (login : Text) : Bool :=
  let login := Text.lower login
  "[bot]".toList.isSuffixOf login || coderabbitAuthors.contains login

/-- `_is_bot_review`. -/
def PrReview.isBot (r : PrReview) : Bool := isBotLogin r.login

def PrReview.requestsChanges (r : PrReview) : Bool := r.state == "CHANGES_REQUESTED".toList

/-- `_extract_cr_reviews`. -/
def extractCrReviews (latestReviews : List PrReview) : List PrReview :=
  latestReviews.filter PrReview.requestsChanges

/-! ## The state -/

/-- What `compute_pr_state` is given besides the summary of the checks. -/
structure PrSignals where
  isDraft : Bool := false
  reviewDecision : Text := []
  mergeable : Text := []
  mergeState : Text := []
  latestReviews : List PrReview := []
  -- `none` when the threads were not counted
  allThreadsResolved : Option Bool := some false
  supersededByNewCommit : Bool := false
  deriving DecidableEq

/-- `_should_unblock_bot_reviews`. -/
def shouldUnblockBotReviews (s : PrSignals) (ci : CiStatus) (crReviews : List PrReview) :
    Option ComputedPRState :=
  if crReviews = [] then none
  else if s.allThreadsResolved ≠ some true then none
  else if !crReviews.all PrReview.isBot then none
  else if !s.supersededByNewCommit then none
  else if ci = .passed ∧ s.mergeable = "MERGEABLE".toList then some .approvedCiGreen
  else some .approved

/-- `_MERGE_STATES_UNMERGEABLE`. -/
def mergeStatesUnmergeable : List Text := ["BLOCKED".toList, "DIRTY".toList]

def PrSignals.githubBlocked (s : PrSignals) : Bool := mergeStatesUnmergeable.contains s.mergeState

/-- The pull request is one that GitHub would merge. -/
def PrSignals.isOpenToMerge (s : PrSignals) : Bool :=
  s.mergeable == "MERGEABLE".toList && !s.githubBlocked

/-- The part of `compute_pr_state` for reviews that are not summed up by a decision. -/
def stateOfReviews (s : PrSignals) (ci : CiStatus) : ComputedPRState :=
  let crReviews := extractCrReviews s.latestReviews
  if crReviews ≠ [] then (shouldUnblockBotReviews s ci crReviews).getD .changesRequested
  else if s.allThreadsResolved = some true ∧ ci = .passed ∧ s.isOpenToMerge then .approvedCiGreen
  else if s.allThreadsResolved = some true then .approved
  else .reviewAddressed

/-- `compute_pr_state`. -/
def computePrState (s : PrSignals) (ci : CiStatus) : ComputedPRState :=
  if s.isDraft then .draft
  else if s.mergeable = "CONFLICTING".toList ∨ s.mergeState = "DIRTY".toList then .conflicted
  else if ci = .pending then .ciRunning
  else if ci = .failed then .ciFailed
  else if s.reviewDecision = "CHANGES_REQUESTED".toList then
    if s.latestReviews ≠ [] then
      (shouldUnblockBotReviews s ci (extractCrReviews s.latestReviews)).getD .changesRequested
    else .changesRequested
  else if s.reviewDecision = "APPROVED".toList then
    if (ci = .passed ∨ ci = .none) ∧ s.isOpenToMerge then .approvedCiGreen else .approved
  else if s.latestReviews ≠ [] then stateOfReviews s ci
  else if ci = .passed ∧ s.isOpenToMerge then .approvedCiGreen
  else .awaitingReview

end Dashboard

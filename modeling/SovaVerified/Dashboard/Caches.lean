import Mathlib.Data.List.Sort
import Mathlib.Logic.Function.Basic
import SovaVerified.Adapters.Task
import SovaVerified.Assoc.Assoc
import SovaVerified.Dashboard.WorkState
import SovaVerified.Generations.Generations
import SovaVerified.Runs.Runs

/-!
# The cached task list of the queue

`_get_actionable_tasks` and `invalidate_queue_cache` of `sova/dashboard/services/queue_service.py` on one
event loop. A call runs without interruption up to its `await adapter.list_tasks(...)` and from there to its
end, so a step of the system is such a stretch of one call, or an invalidation.
-/

namespace Dashboard

open Adapters Generations

/-! ## The order of the queue -/

/-- A task of a listing, with the part of it that the queue is sorted by. -/
structure ListedTask extends Task where
  id : Text
  /-- `extract_phase_order(milestone)`. -/
  phaseOrder : Nat
  /-- `metadata["created_at"]`, `"9999"` when there is none. -/
  createdAt : Text
  deriving DecidableEq

/-- `_STATE_PRIORITY.get(state, 99)`. -/
def statePriority : TaskState → Int
  | .inReview => -1
  | .researched => 0
  | .inProgress => 1
  | .triaged => 2
  | .backlog => 3
  | .needsSpec => 4
  | .humanOnly => 5
  | _ => 99

/-- `_ACTIONABLE_STATES`. -/
def isActionable : TaskState → Bool
  | .backlog | .triaged | .researched | .inProgress | .inReview | .needsSpec | .humanOnly => true
  | .onQa | .done => false

/-- The order of the sort keys. -/
def queueLe (a b : ListedTask) : Bool :=
  if statePriority a.state ≠ statePriority b.state then statePriority a.state < statePriority b.state
  else if a.phaseOrder ≠ b.phaseOrder then a.phaseOrder < b.phaseOrder
  else if a.priority.rank ≠ b.priority.rank then a.priority.rank < b.priority.rank
  else a.createdAt ≤ b.createdAt

/-- The actionable tasks of a listing, sorted. -/
def actionableTasks (tasks : List ListedTask) : List ListedTask :=
  (tasks.filter fun t => isActionable t.state).insertionSort fun a b => queueLe a b

/-! ## The cache -/

/-- A value of `_queue_cache`, and the number of invalidations when the fetch behind it began. The code keeps
no such number, and no step depends on it. -/
structure QueueEntry where
  storedAt : Int
  tasks : List ListedTask
  began : Nat
  deriving DecidableEq

instance : LawfulBEq (Fetch Text Nat) := inferInstance

/-- The state of the module. `invalidations` lists the resolved directories of the invalidations so far. -/
structure QueueCache where
  /-- `_queue_cache`. -/
  cache : Text → Option QueueEntry := fun _ => none
  /-- `_queue_cache_generation`. -/
  generation : Text → Option Nat := fun _ => none
  /-- The calls that wait for their listing. -/
  flights : List (Fetch Text Nat) := []
  invalidations : List Text := []

/-- `_QUEUE_CACHE_TTL`, in microseconds. -/
def queueCacheTtl : Int := 120000000

/-- What lies between the lookup of a call and its `await`. -/
inductive Preparation where
  /-- `load_config` raised. -/
  | configFailed
  /-- A GitHub task source without a repository. -/
  | noRepository
  /-- `create_adapter` raised. -/
  | adapterFailed
  /-- The listing is awaited. -/
  | awaits
  deriving DecidableEq

/-- What the awaited listing comes back with. -/
inductive Listing where
  | raised
  /-- The tasks, and whether the quota tracker says to skip. -/
  | listed (tasks : List ListedTask) (shouldSkip : Bool)
  deriving DecidableEq

namespace QueueCache

/-- The cached list that a call with the key returns at the time `now`. -/
def lookup (s : QueueCache) (key : Text) (now : Int) : Option QueueEntry :=
  (s.cache key).filter fun e => now - e.storedAt < queueCacheTtl

/-- `_queue_cache.pop(key, None)`. -/
def pop (s : QueueCache) (key : Text) : QueueCache :=
  { s with cache := Function.update s.cache key none }

/-- `_queue_cache_generation.setdefault(key, 0)`. -/
def register (s : QueueCache) (key : Text) : QueueCache :=
  { s with generation := Function.update s.generation key (some ((s.generation key).getD 0)) }

/-- `_get_actionable_tasks` up to its `await`, with its result when it does not get there. -/
def startCall (s : QueueCache) (key : Text) (now : Int) (preparation : Preparation) :
    Option (List ListedTask) × QueueCache :=
  match s.lookup key now with
  | some e => (some e.tasks, s)
  | none =>
    let s := s.register key
    match preparation with
    | .configFailed => (some [], s)
    | .noRepository => (some [], s)
    | .adapterFailed => (some [], s.pop key)
    | .awaits =>
      (none, { s with flights := ⟨key, (s.generation key).getD 0, s.invalidations.length⟩ :: s.flights })

/-- `_get_actionable_tasks` from its `await` on, with its result. -/
def finishCall (s : QueueCache) (fetch : Fetch Text Nat) (now : Int) (listing : Listing) :
    List ListedTask × QueueCache :=
  match listing with
  | .raised => ([], s.pop fetch.key)
  | .listed tasks shouldSkip =>
    if tasks.isEmpty && shouldSkip then ([], s.pop fetch.key)
    else
      let actionable := actionableTasks tasks
      if (s.generation fetch.key).getD 0 = fetch.generation then
        (actionable, { s with cache := Function.update s.cache fetch.key (some ⟨now, actionable, fetch.began⟩) })
      else (actionable, s)

end QueueCache

section

-- `Path(path).resolve()`; `none` when it raises
variable (resolve : Text → Option Text)

/-- The key denotes the resolved directory. The key `""` stands for the single project, whichever it is. -/
def keyCovers (target key : Text) : Prop := key = [] ∨ resolve key = some target

instance (target key : Text) : Decidable (keyCovers resolve target key) :=
  inferInstanceAs (Decidable (key = [] ∨ resolve key = some target))

/-- The key is known, and denotes the resolved directory. -/
def QueueCache.matched (s : QueueCache) (target key : Text) : Bool :=
  ((s.cache key).isSome || (s.generation key).isSome) && keyCovers resolve target key

/-- `invalidate_queue_cache`; `none` when the directory itself cannot be resolved. -/
def QueueCache.invalidate (s : QueueCache) (projectDir : Text) : Option QueueCache :=
  (resolve projectDir).map fun target =>
    { s with
      cache := fun key => if s.matched resolve target key then none else s.cache key
      generation := fun key =>
        if s.matched resolve target key then some ((s.generation key).getD 0 + 1) else s.generation key
      invalidations := s.invalidations ++ [target] }

inductive QueueCacheAction where
  /-- A call starts, and runs up to its `await`. -/
  | call (key : Text) (now : Int) (preparation : Preparation)
  /-- A listing comes back, and its call runs to the end. -/
  | answered (fetch : Fetch Text Nat) (now : Int) (listing : Listing)
  /-- A call is cancelled in its `await`. -/
  | cancelled (fetch : Fetch Text Nat)
  | invalidate (projectDir : Text)

/-- One step of the system; `none` when the named call does not wait, or an invalidation raises. -/
def queueCacheStep (s : QueueCache) : QueueCacheAction → Option QueueCache
  | .call key now preparation => some (s.startCall key now preparation).2
  | .answered fetch now listing =>
    if fetch ∈ s.flights then
      let s' := (s.finishCall fetch now listing).2
      some { s' with flights := s'.flights.erase fetch }
    else none
  | .cancelled fetch =>
    if fetch ∈ s.flights then some { s with flights := s.flights.erase fetch } else none
  | .invalidate projectDir => s.invalidate resolve projectDir

end

end Dashboard

/-!
# The verdict cache

`resolve_sova_verdict`, `_prewarm_verdict_cache` and `invalidate_verdict` on one event loop. A call
runs without interruption up to its next `await`, so a step of the system is such a stretch of one
call: it starts, it learns the active GitHub user, or its fetch comes back.

The number of the step is kept with every call, fetch, invalidation and answer; the code has no such
number, and no step depends on it except as the name of a call in flight.
-/

namespace Dashboard

/-- `_cache_key`: the project and the number of the pull request. -/
abbrev CacheKey := Text × Nat

/-- A value of `_sova_verdict_cache`, with the step at which the fetch behind it began. -/
structure CacheEntry where
  stamp : Nat
  verdict : SovaVerdict
  began : Nat
  deriving DecidableEq

/-- How far a call has come. -/
inductive Phase where
  | awaitingUser
  | fetching (trustedLogin : Text) (began : Nat)
  deriving DecidableEq

/-- A call that waits for an `await` to come back. -/
inductive Call where
  | resolve (key : CacheKey) (useCache : Bool) (phase : Phase)
  | prewarm (project : Text) (wanted : List Nat) (phase : Phase)
  deriving DecidableEq

/-- An answer of `resolve_sova_verdict`, with the step at which the call started and, when the verdict
was computed from a review history, the step at which the fetch of that history began. -/
structure Answer where
  key : CacheKey
  started : Nat
  verdict : SovaVerdict
  began : Option Nat
  deriving DecidableEq

structure CacheState where
  /-- `time.monotonic()`, in microseconds. -/
  now : Nat := 0
  cache : Assoc CacheKey CacheEntry := []
  /-- The calls in flight, under the step at which they started. -/
  calls : Assoc Nat Call := []
  /-- The number of steps so far. -/
  steps : Nat := 0
  invalidations : List (CacheKey × Nat) := []
  answers : List Answer := []
  deriving DecidableEq

/-- The adapter of a call: whether it names a repository, and its user, empty when not configured. -/
structure Adapter where
  hasRepo : Bool
  githubUser : Text
  deriving DecidableEq

inductive CacheAction where
  | tick (elapsed : Nat)
  | invalidate (key : CacheKey)
  | clear
  | startResolve (key : CacheKey) (useCache : Bool) (adapter : Adapter)
  | startPrewarm (project : Text) (prs : List Nat) (adapter : Adapter)
  /-- `get_active_gh_user` comes back. -/
  | userKnown (call : Nat) (login : Text)
  /-- The fetch of a resolve comes back. -/
  | fetched (call : Nat) (outcome : Fetched)
  /-- The fetch of a prewarm comes back; `none` when it raised. -/
  | prewarmFetched (call : Nat) (data : Option (List (Nat × Option (List ReviewEntry × Bool))))
  deriving DecidableEq

/-- `_VERDICT_CACHE_POSITIVE_TTL`. -/
def positiveTtl : Nat := 300000000

/-- `_VERDICT_CACHE_NEGATIVE_TTL`. -/
def negativeTtl : Nat := 30000000

/-- `_cache_get`. -/
def cacheGet (s : CacheState) (key : CacheKey) : Option CacheEntry :=
  match s.cache.get key with
  | none => none
  | some e =>
    let ttl := if e.verdict.hasSovaReview then positiveTtl else negativeTtl
    if s.now - e.stamp ≥ ttl then none else some e

/-- `_cache_put`: a dict that has grown past 1000 entries is emptied first. -/
def cachePut (key : CacheKey) (verdict : SovaVerdict) (began : Nat) (s : CacheState) : CacheState :=
  let cache := if s.cache.length > 1000 then [] else s.cache
  { s with cache := Assoc.put cache key ⟨s.now, verdict, began⟩ }

namespace CacheState

def answer (s : CacheState) (key : CacheKey) (started : Nat) (verdict : SovaVerdict)
    (began : Option Nat) : CacheState :=
  { s with answers := ⟨key, started, verdict, began⟩ :: s.answers }

def endCall (s : CacheState) (call : Nat) : CacheState :=
  { s with calls := s.calls.del call }

def putCall (s : CacheState) (call : Nat) (c : Call) : CacheState :=
  { s with calls := s.calls.put call c }

end CacheState

/-- `resolve_sova_verdict` up to its first `await`. -/
def startResolve (s : CacheState) (key : CacheKey) (useCache : Bool) (adapter : Adapter) :
    CacheState :=
  match (if useCache then cacheGet s key else none) with
  | some e => s.answer key s.steps e.verdict (some e.began)
  | none =>
    if !adapter.hasRepo then s.answer key s.steps unresolved none
    else if adapter.githubUser.isEmpty then s.putCall s.steps (.resolve key useCache .awaitingUser)
    else s.putCall s.steps (.resolve key useCache (.fetching adapter.githubUser s.steps))

/-- `_prewarm_verdict_cache` up to its first `await`. -/
def startPrewarm (s : CacheState) (project : Text) (prs : List Nat) (adapter : Adapter) :
    CacheState :=
  let wanted := (prs.dedup.insertionSort (· ≤ ·)).filter fun n => (cacheGet s (project, n)).isNone
  if !adapter.hasRepo || wanted.isEmpty then s
  else if adapter.githubUser.isEmpty then s.putCall s.steps (.prewarm project wanted .awaitingUser)
  else s.putCall s.steps (.prewarm project wanted (.fetching adapter.githubUser s.steps))

/-- A resolve goes on from its fetch. -/
def finishResolve (s : CacheState) (call : Nat) (key : CacheKey) (useCache : Bool)
    (trustedLogin : Text) (began : Nat) (outcome : Fetched) : CacheState :=
  match verdictOfFetch trustedLogin outcome with
  | none => (s.endCall call).answer key call unresolved none
  | some v =>
    let s := if useCache then cachePut key v began s else s
    (s.endCall call).answer key call v (some began)

/-- The entry of a prewarm response, as the fetch of one pull request. -/
def prewarmOutcome : Option (List ReviewEntry × Bool) → Fetched
  | none => .unavailable
  | some (reviews, truncated) => .history reviews truncated

/-- A prewarm goes on from its fetch: it seeds the cache with every verdict that can be used. -/
def finishPrewarm (s : CacheState) (project : Text) (trustedLogin : Text) (began : Nat)
    (data : List (Nat × Option (List ReviewEntry × Bool))) : CacheState :=
  data.foldl (fun s d =>
    match verdictOfFetch trustedLogin (prewarmOutcome d.2) with
    | none => s
    | some v => cachePut (project, d.1) v began s) s

/-- What an action does; `none` when it does not fit the call that it names. -/
def cacheEffect (s : CacheState) (a : CacheAction) : Option CacheState :=
  match a with
  | .tick elapsed => some { s with now := s.now + elapsed }
  | .invalidate key =>
    some { s with
      cache := s.cache.del key
      invalidations := (key, s.steps) :: s.invalidations }
  | .clear => some { s with cache := [] }
  | .startResolve key useCache adapter => some (startResolve s key useCache adapter)
  | .startPrewarm project prs adapter => some (startPrewarm s project prs adapter)
  | .userKnown call login =>
    match s.calls.get call with
    | some (.resolve key useCache .awaitingUser) =>
      if login.isEmpty then some ((s.endCall call).answer key call unresolved none)
      else some (s.putCall call (.resolve key useCache (.fetching login s.steps)))
    | some (.prewarm project wanted .awaitingUser) =>
      if login.isEmpty then some (s.endCall call)
      else some (s.putCall call (.prewarm project wanted (.fetching login s.steps)))
    | _ => none
  | .fetched call outcome =>
    match s.calls.get call with
    | some (.resolve key useCache (.fetching login began)) =>
      some (finishResolve s call key useCache login began outcome)
    | _ => none
  | .prewarmFetched call data =>
    match s.calls.get call with
    | some (.prewarm project _ (.fetching login began)) =>
      match data with
      | none => some (s.endCall call)
      | some data => some ((finishPrewarm s project login began data).endCall call)
    | _ => none

/-- One step of the system. -/
def cacheStep (s : CacheState) (a : CacheAction) : Option CacheState :=
  (cacheEffect s a).map fun s' => { s' with steps := s.steps + 1 }

/-- No answer of a resolve that started after an invalidation comes from a history whose fetch began
before that invalidation. -/
def Coherent (s : CacheState) : Prop :=
  ∀ a ∈ s.answers, ∀ i ∈ s.invalidations, i.1 = a.key → i.2 < a.started →
    ∀ b ∈ a.began, ¬ b < i.2

end Dashboard

import SovaVerified.Assoc.Assoc
import SovaVerified.Supervisor.PrMonitor

/-!
# Asking CodeRabbit for another review

`_is_coderabbit_rate_limited` of `sova/supervisor/pr_monitor.py` with its cache, and the cycles of one monitor
around it: the checks of a cycle run side by side, and other monitors use the same cache.
-/

namespace Supervisor

/-! ## One check -/

/-- A comment of a pull request. -/
structure Comment where
  login : Option Text
  body : Option Text
  deriving DecidableEq

/-- What comes of reading the comments of a pull request. -/
inductive CommentsRead where
  /-- No environment for `gh`, no `gh`, or an answer of another shape. -/
  | raised
  | failed
  | unparseable
  | answered (comments : List Comment)
  deriving DecidableEq

/-- `_RATE_LIMIT_KEYWORDS`. -/
def rateLimitKeywords : List Text := ["rate limit".toList, "hourly quota".toList, "usage limit".toList]

/-- `_CODERABBIT_LOGINS`. -/
def coderabbitLogins : List Text :=
  ["coderabbitai".toList, "coderabbit-ai[bot]".toList, "coderabbitai[bot]".toList]

/-- `_RATE_CHECK_CACHE_TTL`, in microseconds. -/
def rateCheckCacheTtl : Int := 300000000

/-- The repository and the number of a pull request. -/
abbrev RateCheckKey := Text × Nat

/-- `_rate_check_cache`. -/
abbrev RateCheckCache := Assoc RateCheckKey (Int × Bool)

/-- CodeRabbit's newest comment is a notice of a rate limit. -/
def newestIsNotice (comments : List Comment) : Bool :=
  match comments.reverse.find? fun c => (c.login.getD []).lower ∈ coderabbitLogins with
  | some c => rateLimitKeywords.any fun keyword => Text.isIn keyword (c.body.getD []).lower
  | none => false

/-- What a check comes to. -/
inductive RateCheck where
  | cached (isLimited : Bool)
  | read (isLimited : Bool)
  /-- `gh` failed, or its answer could not be parsed: the check returns `False`. -/
  | failed
  | raised
  deriving DecidableEq

/-- What the cycle takes from a check. -/
def RateCheck.isLimited : RateCheck → Bool
  | .cached isLimited => isLimited
  | .read isLimited => isLimited
  | .failed => false
  | .raised => false

/-- A check that has not seen a comment. -/
def RateCheck.isFailure : RateCheck → Bool
  | .cached _ => false
  | .read _ => false
  | .failed => true
  | .raised => true

/-- The first part of `_is_coderabbit_rate_limited`: what the cache says. -/
def cachedRateCheck (cache : RateCheckCache) (key : RateCheckKey) (now : Int) : Option Bool :=
  match Assoc.get cache key with
  | some (ts, wasLimited) =>
    let ttl := if wasLimited then rateCheckCacheTtl / 2 else rateCheckCacheTtl
    if now - ts < ttl then some wasLimited else none
  | none => none

/-- What is stored of an answer. -/
def storeRateCheck (cache : RateCheckCache) (key : RateCheckKey) (now : Int) (isLimited : Bool) :
    RateCheckCache :=
  let cache := Assoc.put cache key (now, isLimited)
  if 200 < cache.length then cache.filter fun e => !decide (rateCheckCacheTtl < now - e.2.1) else cache

/-- The rest of `_is_coderabbit_rate_limited`, once the comments are read. -/
def finishRateCheck (cache : RateCheckCache) (key : RateCheckKey) (now : Int) :
    CommentsRead → RateCheck × RateCheckCache
  | .raised => (.raised, cache)
  | .failed => (.failed, cache)
  | .unparseable => (.failed, cache)
  | .answered comments =>
    let isLimited := newestIsNotice comments
    (.read isLimited, storeRateCheck cache key now isLimited)

/-! ## The cycles of a monitor -/

/-- Where a check is. -/
inductive CheckPhase where
  | waiting
  | reading (now : Int)
  | done (check : RateCheck)
  deriving DecidableEq

def CheckPhase.isLimited : CheckPhase → Bool
  | .done check => check.isLimited
  | _ => false

/-- The open pull requests, each listed once. -/
structure PrListing where
  prs : List Dashboard.OpenPr
  nodup : (prs.map Dashboard.OpenPr.number).Nodup

/-- A cycle that has its listing. -/
structure ReviewCycle where
  listing : PrListing
  /-- `auto_retry_coderabbit`, as it was when the checks were due. -/
  autoRetry : Bool
  checks : Nat → CheckPhase := fun _ => .waiting

/-- What can be told of a run. -/
inductive ReviewEvent where
  /-- The comments of a pull request were read, by this monitor or another. -/
  | read (key : RateCheckKey) (isLimited : Bool)
  /-- The monitor saw the pull request rate-limited. -/
  | limited (number : Nat)
  /-- The monitor asks for another review. -/
  | asked (number : Nat)
  deriving DecidableEq

/-- A monitor and the cache of the process. -/
structure ReviewWatch where
  repo : Text
  cache : RateCheckCache := []
  monitor : PrMonitor := {}
  cycle : Option ReviewCycle := none
  /-- What has happened, the newest first. No step of the code depends on it. -/
  history : List ReviewEvent := []

inductive ReviewAction where
  /-- A cycle has its listing. -/
  | listed (listing : PrListing) (autoRetry : Bool)
  /-- The check of a pull request looks into the cache. -/
  | look (number : Nat) (now : Int)
  | commentsRead (number : Nat) (outcome : CommentsRead)
  /-- A check of another monitor ends. -/
  | otherRead (key : RateCheckKey) (now : Int) (outcome : CommentsRead)
  /-- GitHub's quota is used up, or the cycle fails. -/
  | giveUp
  /-- The loop over the pull requests. A notification may raise. -/
  | finish (config : Dashboard.OpenPr → PrMonitorConfig) (notifyRaises : Dashboard.OpenPr → Bool)

namespace ReviewWatch

/-- The event of an answer. -/
def readEvents (key : RateCheckKey) : RateCheck → List ReviewEvent
  | .read isLimited => [.read key isLimited]
  | _ => []

/-- The event of a check that is done. -/
def limitedEvents (number : Nat) (check : RateCheck) : List ReviewEvent :=
  if check.isLimited then [.limited number] else []

/-- The check of a pull request is done. -/
def checkDone (s : ReviewWatch) (cycle : ReviewCycle) (number : Nat) (check : RateCheck) : ReviewWatch :=
  { s with
    cycle := some { cycle with checks := Function.update cycle.checks number (.done check) }
    history := limitedEvents number check ++ readEvents (s.repo, number) check ++ s.history }

/-- The loop can be reached: every check is done, or there are none and the configuration is as it was. -/
def CanFinish (cycle : ReviewCycle) (config : Dashboard.OpenPr → PrMonitorConfig) : Prop :=
  if cycle.autoRetry then ∀ pr ∈ cycle.listing.prs, ∃ check, cycle.checks pr.number = .done check
  else ∀ pr ∈ cycle.listing.prs, (config pr).autoRetryCoderabbit = false

end ReviewWatch

/-- `rate_limits.get(number, False)`. -/
def ReviewCycle.rateLimits (cycle : ReviewCycle) (number : Nat) : Bool :=
  cycle.autoRetry && (cycle.checks number).isLimited

instance decidableDone (phase : CheckPhase) : Decidable (∃ check, phase = .done check) :=
  match phase with
  | .waiting => .isFalse fun ⟨_, h⟩ => nomatch h
  | .reading _ => .isFalse fun ⟨_, h⟩ => nomatch h
  | .done check => .isTrue ⟨check, rfl⟩

instance (cycle : ReviewCycle) (config : Dashboard.OpenPr → PrMonitorConfig) :
    Decidable (ReviewWatch.CanFinish cycle config) :=
  inferInstanceAs (Decidable (if cycle.autoRetry then
    ∀ pr ∈ cycle.listing.prs, ∃ check, cycle.checks pr.number = .done check
    else ∀ pr ∈ cycle.listing.prs, (config pr).autoRetryCoderabbit = false))

/-- The pull requests for which another review is asked for. -/
def ReviewWatch.asks (s : ReviewWatch) (cycle : ReviewCycle) (config : Dashboard.OpenPr → PrMonitorConfig)
    (notifyRaises : Dashboard.OpenPr → Bool) : List Nat :=
  s.monitor.retries (cycle.listing.prs.filter fun pr => !notifyRaises pr) cycle.rateLimits config

/-- One step; `none` when the monitor is not at that point. -/
def reviewStep (s : ReviewWatch) : ReviewAction → Option ReviewWatch
  | .listed listing autoRetry =>
    match s.cycle with
    | none => some { s with cycle := some { listing, autoRetry } }
    | some _ => none
  | .look number now =>
    match s.cycle with
    | none => none
    | some cycle =>
      if cycle.autoRetry = true ∧ number ∈ cycle.listing.prs.map Dashboard.OpenPr.number ∧
          cycle.checks number = .waiting then
        match cachedRateCheck s.cache (s.repo, number) now with
        | some wasLimited => some (s.checkDone cycle number (.cached wasLimited))
        | none => some { s with
            cycle := some { cycle with checks := Function.update cycle.checks number (.reading now) } }
      else none
  | .commentsRead number outcome =>
    match s.cycle with
    | none => none
    | some cycle =>
      match cycle.checks number with
      | .reading now =>
        let (check, cache) := finishRateCheck s.cache (s.repo, number) now outcome
        some ({ s with cache := cache }.checkDone cycle number check)
      | _ => none
  | .otherRead key now outcome =>
    let (check, cache) := finishRateCheck s.cache key now outcome
    some { s with cache := cache, history := ReviewWatch.readEvents key check ++ s.history }
  | .giveUp => some { s with cycle := none }
  | .finish config notifyRaises =>
    match s.cycle with
    | none => none
    | some cycle =>
      if ReviewWatch.CanFinish cycle config then
        some { s with
          monitor := s.monitor.finishPoll s.repo cycle.listing.prs cycle.rateLimits
          cycle := none
          history := ((s.asks cycle config notifyRaises).map ReviewEvent.asked).reverse ++ s.history }
      else none

end Supervisor

import SovaVerified.Supervisor.CoderabbitReview

/-!
# When another review is asked for

A monitor asks again when a check no longer says that CodeRabbit is rate-limited. A check that fails says so
too.
-/

namespace Supervisor

open Dashboard

variable {s s' : ReviewWatch} {cycle : ReviewCycle} {repo : Text} {number n : Nat} {key : RateCheckKey}
  {now : Int} {cache : RateCheckCache} {outcome : CommentsRead} {check : RateCheck} {events history : List ReviewEvent}
  {config : OpenPr → PrMonitorConfig} {notifyRaises : OpenPr → Bool}

/-! ## What has happened since -/

/-- The events since a pull request was last seen rate-limited. -/
def since (number : Nat) (history : List ReviewEvent) : List ReviewEvent :=
  history.takeWhile (· ≠ .limited number)

/-- Since the pull request was last seen rate-limited, its comments were read and showed that it no longer is,
and no other review was asked for. -/
structure RecoverySince (repo : Text) (number : Nat) (history : List ReviewEvent) : Prop where
  seen : .limited number ∈ history
  recovered : .read (repo, number) false ∈ since number history
  once : .asked number ∉ since number history

/-- Every review that is asked for is asked for on a recovery of its own. -/
def AsksOnRecovery (repo : Text) : List ReviewEvent → Prop
  | [] => True
  | event :: older =>
    (∀ number, event = .asked number → RecoverySince repo number older) ∧ AsksOnRecovery repo older

theorem since_limited (number : Nat) (history : List ReviewEvent) :
    since number (.limited number :: history) = [] := by
  unfold since
  rw [List.takeWhile_cons, if_neg (by simp)]

theorem since_append (h : .limited number ∉ events) :
    since number (events ++ history) = events ++ since number history := by
  refine List.takeWhile_append_of_pos ?_
  intro e he
  refine decide_eq_true ?_
  rintro rfl
  exact h he

/-- What has happened since then stays so, as long as the pull request is not seen rate-limited again. -/
theorem mem_since_append (h : .limited number ∉ events) {e : ReviewEvent} (he : e ∈ since number history) :
    e ∈ since number (events ++ history) := by
  rw [since_append h]
  exact List.mem_append_right events he

/-- What has not happened since then has not happened later either. -/
theorem notMem_since_append {e : ReviewEvent} (hnew : e ∉ events) (h : e ∉ since number history) :
    e ∉ since number (events ++ history) := by
  induction events with
  | nil => exact h
  | cons x events ih =>
    rw [List.mem_cons, not_or] at hnew
    obtain ⟨hx, hrest⟩ := hnew
    unfold since
    rw [List.cons_append, List.takeWhile_cons]
    split
    · rw [List.mem_cons, not_or]
      exact ⟨hx, ih hrest⟩
    · exact List.not_mem_nil

/-! ## One check -/

theorem cached_eq {b : Bool} (h : cachedRateCheck cache key now = some b) :
    ∃ ts, Assoc.get cache key = some (ts, b) := by
  unfold cachedRateCheck at h
  cases hget : Assoc.get cache key with
  | none =>
    rw [hget] at h
    cases h
  | some entry =>
    obtain ⟨ts, wasLimited⟩ := entry
    rw [hget] at h
    obtain ⟨-, hb⟩ := Option.ite_none_right_eq_some.mp h
    exact ⟨ts, by rw [Option.some.inj hb]⟩

/-- A key has one entry. -/
def OneEntry (cache : RateCheckCache) : Prop := ∀ e ∈ cache, ∀ e' ∈ cache, e.1 = e'.1 → e = e'

theorem mem_storeRateCheck {e : RateCheckKey × (Int × Bool)} {b : Bool}
    (h : e ∈ storeRateCheck cache key now b) :
    e = (key, (now, b)) ∨ (e ∈ cache ∧ e.1 ≠ key) := by
  unfold storeRateCheck at h
  dsimp only at h
  split at h
  · exact Assoc.mem_put.mp (List.mem_filter.mp h).1
  · exact Assoc.mem_put.mp h

theorem OneEntry.store (h : OneEntry cache) (key : RateCheckKey) (now : Int) (b : Bool) :
    OneEntry (storeRateCheck cache key now b) := by
  intro e he e' he' heq
  rcases mem_storeRateCheck he with rfl | ⟨hold, hne⟩
  · rcases mem_storeRateCheck he' with rfl | ⟨-, hne'⟩
    · rfl
    · exact absurd heq.symm hne'
  · rcases mem_storeRateCheck he' with rfl | ⟨hold', -⟩
    · exact absurd heq hne
    · exact h e hold e' hold' heq

/-- What is in the cache behind a check was there, or is the answer that was read. -/
structure CacheStep (cache cache' : RateCheckCache) (key : RateCheckKey) (check : RateCheck) : Prop where
  oneEntry : OneEntry cache → OneEntry cache'
  entries : ∀ e ∈ cache', (e ∈ cache ∧ (e.1 = key → ∀ b, check ≠ .read b)) ∨
    (e.1 = key ∧ check = .read e.2.2)

theorem cacheStep_finish (cache : RateCheckCache) (key : RateCheckKey) (now : Int) (outcome : CommentsRead) :
    CacheStep cache (finishRateCheck cache key now outcome).2 key (finishRateCheck cache key now outcome).1 := by
  cases outcome with
  | raised => exact ⟨id, fun e he => .inl ⟨he, fun _ _ h => nomatch h⟩⟩
  | failed => exact ⟨id, fun e he => .inl ⟨he, fun _ _ h => nomatch h⟩⟩
  | unparseable => exact ⟨id, fun e he => .inl ⟨he, fun _ _ h => nomatch h⟩⟩
  | answered comments =>
    refine ⟨fun h => h.store key now _, fun e he => ?_⟩
    rcases mem_storeRateCheck he with rfl | ⟨hold, hne⟩
    · exact .inr ⟨rfl, rfl⟩
    · exact .inl ⟨hold, fun heq => absurd heq hne⟩

theorem cacheStep_cached (cache : RateCheckCache) (key : RateCheckKey) (b : Bool) :
    CacheStep cache cache key (.cached b) := ⟨id, fun _ he => .inl ⟨he, fun _ _ h => nomatch h⟩⟩

/-! ## The invariant -/

/-- What is known of a pull request that a check or a snapshot says is rate-limited. -/
structure SeenLimited (number : Nat) (history : List ReviewEvent) : Prop where
  seen : .limited number ∈ history
  once : .asked number ∉ since number history

theorem SeenLimited.append (h : SeenLimited number history) (hnew : .asked number ∉ events) :
    SeenLimited number (events ++ history) where
  seen := List.mem_append_right events h.seen
  once := notMem_since_append hnew h.once

namespace ReviewWatch

/-- A recovery of a pull request that was seen rate-limited has been read since. -/
def RecoveryRead (repo : Text) (number : Nat) (history : List ReviewEvent) : Prop :=
  .limited number ∈ history → .read (repo, number) false ∈ since number history

theorem RecoveryRead.append (h : RecoveryRead repo number history) (hnew : .limited number ∉ events) :
    RecoveryRead repo number (events ++ history) := by
  intro hseen
  have hold : .limited number ∈ history := (List.mem_append.mp hseen).resolve_left hnew
  exact mem_since_append hnew (h hold)

theorem recoveryRead_of_read (h : .read (repo, number) false ∈ events) (hnew : .limited number ∉ events) :
    RecoveryRead repo number (events ++ history) := by
  intro _
  rw [since_append hnew]
  exact List.mem_append_left _ h

structure Inv (s : ReviewWatch) : Prop where
  oneEntry : OneEntry s.cache
  cache : ∀ number ts, ((s.repo, number), (ts, false)) ∈ s.cache → RecoveryRead s.repo number s.history
  snapshots : ∀ number prev, s.monitor.lastState number = some prev → prev.rateLimited = true →
    s.monitor.initialized = true ∧ SeenLimited number s.history
  limited : ∀ cycle number check, s.cycle = some cycle → cycle.checks number = .done check →
    check.isLimited = true → SeenLimited number s.history
  recovered : ∀ cycle number check, s.cycle = some cycle → cycle.checks number = .done check →
    check.isLimited = false → check.isFailure = false → RecoveryRead s.repo number s.history

theorem notMem_readEvents_limited : .limited number ∉ readEvents key check := by
  cases check <;> simp [readEvents]

theorem notMem_readEvents_asked : .asked number ∉ readEvents key check := by
  cases check <;> simp [readEvents]

theorem notMem_limitedEvents_asked : .asked number ∉ limitedEvents n check := by
  unfold limitedEvents
  split <;> simp

theorem notMem_limitedEvents_of_ne (h : number ≠ n) : .limited number ∉ limitedEvents n check := by
  unfold limitedEvents
  split <;> simp [h]

/-- The events of a check. -/
def checkEvents (repo : Text) (number : Nat) (check : RateCheck) : List ReviewEvent :=
  limitedEvents number check ++ readEvents (repo, number) check

theorem notMem_checkEvents_asked : .asked n ∉ checkEvents repo number check := by
  unfold checkEvents
  rw [List.mem_append, not_or]
  exact ⟨notMem_limitedEvents_asked, notMem_readEvents_asked⟩

theorem notMem_checkEvents_of_ne (h : n ≠ number) : .limited n ∉ checkEvents repo number check := by
  unfold checkEvents
  rw [List.mem_append, not_or]
  exact ⟨notMem_limitedEvents_of_ne h, notMem_readEvents_limited⟩

theorem checkEvents_of_not_limited (h : check.isLimited = false) :
    checkEvents repo number check = readEvents (repo, number) check := by
  unfold checkEvents limitedEvents
  rw [h]
  rfl

theorem checkEvents_of_limited (h : check.isLimited = true) :
    checkEvents repo number check = .limited number :: readEvents (repo, number) check := by
  unfold checkEvents limitedEvents
  rw [h]
  rfl

theorem seenLimited_check (h : check.isLimited = true) :
    SeenLimited number (checkEvents repo number check ++ history) := by
  rw [checkEvents_of_limited h, List.cons_append]
  refine ⟨List.mem_cons_self, ?_⟩
  rw [since_limited]
  exact List.not_mem_nil

/-- The entry that a check of the cache rests on, or what it has read, agrees with it. -/
def Supported (cache' : RateCheckCache) (key : RateCheckKey) : RateCheck → Prop
  | .cached b => ∃ ts, (key, (ts, b)) ∈ cache'
  | _ => True

/-- A check of this monitor ends. -/
theorem Inv.checkDone (h : s.Inv) (hcycle : s.cycle = some cycle) {cache' : RateCheckCache}
    (hcache : CacheStep s.cache cache' (s.repo, number) check)
    (hsupport : Supported cache' (s.repo, number) check) :
    ({ s with cache := cache' }.checkDone cycle number check).Inv := by
  have hone := hcache.oneEntry h.oneEntry
  -- Nothing is left in the cache that says otherwise than a check that says so.
  have hnone : check.isLimited = true → ∀ ts, ((s.repo, number), (ts, false)) ∉ cache' := by
    intro hlimited ts hmem
    rcases hcache.entries _ hmem with ⟨hold, hnot⟩ | ⟨-, hread⟩
    · cases check with
      | cached b =>
        obtain rfl : b = true := hlimited
        obtain ⟨ts', hentry⟩ := hsupport
        have heq := hone _ hmem _ hentry rfl
        cases heq
      | read b => exact hnot rfl b rfl
      | failed => cases hlimited
      | raised => cases hlimited
    · rw [hread] at hlimited
      cases hlimited
  have hcacheInv : ∀ n ts, ((s.repo, n), (ts, false)) ∈ cache' →
      RecoveryRead s.repo n (checkEvents s.repo number check ++ s.history) := by
    intro n ts hmem
    by_cases hn : n = number
    · subst hn
      by_cases hlimited : check.isLimited = true
      · exact absurd hmem (hnone hlimited ts)
      · rw [Bool.not_eq_true] at hlimited
        rw [checkEvents_of_not_limited hlimited]
        rcases hcache.entries _ hmem with ⟨hold, -⟩ | ⟨-, hread⟩
        · exact (h.cache n ts hold).append notMem_readEvents_limited
        · refine recoveryRead_of_read ?_ notMem_readEvents_limited
          rw [hread]
          exact List.mem_singleton_self _
    · have hnot : .limited n ∉ checkEvents s.repo number check := notMem_checkEvents_of_ne hn
      rcases hcache.entries _ hmem with ⟨hold, -⟩ | ⟨hkey, -⟩
      · exact (h.cache n ts hold).append hnot
      · exact absurd (Prod.mk.inj hkey).2 hn
  -- A check that says that the limit is over has read so, or rests on an entry that says so.
  have hown : check.isLimited = false → check.isFailure = false →
      RecoveryRead s.repo number (checkEvents s.repo number check ++ s.history) := by
    intro hlimited hfailure
    cases check with
    | cached b =>
      obtain rfl : b = false := hlimited
      obtain ⟨ts, hentry⟩ := hsupport
      exact hcacheInv number ts hentry
    | read b =>
      obtain rfl : b = false := hlimited
      exact recoveryRead_of_read (List.mem_singleton_self _) (by simp [checkEvents, limitedEvents, readEvents,
        RateCheck.isLimited])
    | failed => cases hfailure
    | raised => cases hfailure
  refine ⟨hone, ?_, ?_, ?_, ?_⟩
  · intro n ts hmem
    show RecoveryRead s.repo n (limitedEvents number check ++ readEvents (s.repo, number) check ++ s.history)
    exact hcacheInv n ts hmem
  · intro n prev hprev hlimited
    obtain ⟨hinit, hseen⟩ := h.snapshots n prev hprev hlimited
    exact ⟨hinit, hseen.append notMem_checkEvents_asked⟩
  · intro cycle' n check' hcycle' hdone hlimited
    obtain rfl := Option.some.inj hcycle'
    by_cases hn : n = number
    · subst hn
      have hdone' : Function.update cycle.checks n (.done check) n = .done check' := hdone
      rw [Function.update_self] at hdone'
      obtain rfl := CheckPhase.done.inj hdone'
      exact seenLimited_check hlimited
    · have hdone' : Function.update cycle.checks number (.done check) n = .done check' := hdone
      rw [Function.update_of_ne hn] at hdone'
      exact (h.limited cycle n check' hcycle hdone' hlimited).append notMem_checkEvents_asked
  · intro cycle' n check' hcycle' hdone hlimited hfailure
    obtain rfl := Option.some.inj hcycle'
    by_cases hn : n = number
    · subst hn
      have hdone' : Function.update cycle.checks n (.done check) n = .done check' := hdone
      rw [Function.update_self] at hdone'
      obtain rfl := CheckPhase.done.inj hdone'
      exact hown hlimited hfailure
    · have hdone' : Function.update cycle.checks number (.done check) n = .done check' := hdone
      rw [Function.update_of_ne hn] at hdone'
      exact (h.recovered cycle n check' hcycle hdone' hlimited hfailure).append (notMem_checkEvents_of_ne hn)

/-- A check of another monitor ends. -/
theorem Inv.otherRead (h : s.Inv) (key : RateCheckKey) {cache' : RateCheckCache}
    (hcache : CacheStep s.cache cache' key check) :
    ({ s with cache := cache', history := readEvents key check ++ s.history } : ReviewWatch).Inv := by
  refine ⟨hcache.oneEntry h.oneEntry, ?_, ?_, ?_, ?_⟩
  · intro n ts hmem
    rcases hcache.entries _ hmem with ⟨hold, -⟩ | ⟨hkey, hread⟩
    · exact (h.cache n ts hold).append notMem_readEvents_limited
    · have hkey' : (s.repo, n) = key := hkey
      subst hkey'
      refine recoveryRead_of_read ?_ notMem_readEvents_limited
      rw [hread]
      exact List.mem_singleton_self _
  · intro n prev hprev hlimited
    obtain ⟨hinit, hseen⟩ := h.snapshots n prev hprev hlimited
    exact ⟨hinit, hseen.append notMem_readEvents_asked⟩
  · intro cycle n check' hcycle hdone hlimited
    exact (h.limited cycle n check' hcycle hdone hlimited).append notMem_readEvents_asked
  · intro cycle n check' hcycle hdone hlimited hfailure
    exact (h.recovered cycle n check' hcycle hdone hlimited hfailure).append notMem_readEvents_limited

/-! ## The loop -/

theorem mem_asks : number ∈ s.asks cycle config notifyRaises ↔
    ∃ pr ∈ cycle.listing.prs, pr.number = number ∧ notifyRaises pr = false ∧ s.monitor.initialized = true ∧
      (∃ prev, s.monitor.lastState number = some prev ∧ prev.rateLimited = true) ∧
      cycle.rateLimits number = false ∧ (config pr).autoRetryCoderabbit = true := by
  unfold asks PrMonitor.retries
  simp only [List.mem_map, List.mem_filter, Bool.not_eq_true', Bool.and_eq_true, handleTransition]
  constructor
  · rintro ⟨pr, ⟨⟨hpr, hraises⟩, hinit, ⟨hwas, hnow⟩, hauto⟩, rfl⟩
    refine ⟨pr, hpr, rfl, hraises, hinit, ?_, hnow, hauto⟩
    cases hprev : s.monitor.lastState pr.number with
    | none =>
      rw [hprev] at hwas
      cases hwas
    | some prev =>
      rw [hprev] at hwas
      exact ⟨prev, rfl, hwas⟩
  · rintro ⟨pr, hpr, rfl, hraises, hinit, ⟨prev, hprev, hlimited⟩, hnow, hauto⟩
    refine ⟨pr, ⟨⟨hpr, hraises⟩, hinit, ⟨?_, hnow⟩, hauto⟩, rfl⟩
    rw [hprev]
    exact hlimited

theorem nodup_asks : (s.asks cycle config notifyRaises).Nodup := by
  unfold asks PrMonitor.retries
  refine List.Nodup.sublist ?_ cycle.listing.nodup
  exact (List.filter_sublist.trans List.filter_sublist).map _

/-- What a cycle leaves of a pull request is what its check says. -/
theorem current_rateLimited {rateLimits : Nat → Bool} {prs : List OpenPr} {prev : PrSnapshot}
    (h : PrMonitor.current rateLimits prs number = some prev) : prev.rateLimited = rateLimits number := by
  unfold PrMonitor.current at h
  induction prs using List.reverseRecOn with
  | nil => cases h
  | append_singleton prs pr ih =>
    rw [List.foldl_concat] at h
    by_cases hn : number = pr.number
    · subst hn
      rw [Function.update_self] at h
      obtain rfl := Option.some.inj h
      rfl
    · rw [Function.update_of_ne hn] at h
      exact ih h

theorem done_of_rateLimits (h : cycle.rateLimits number = true) :
    ∃ check, cycle.checks number = .done check ∧ check.isLimited = true := by
  unfold ReviewCycle.rateLimits at h
  obtain ⟨-, hlimited⟩ := Bool.and_eq_true_iff.mp h
  cases hphase : cycle.checks number with
  | waiting =>
    rw [hphase] at hlimited
    cases hlimited
  | reading now =>
    rw [hphase] at hlimited
    cases hlimited
  | done check =>
    rw [hphase] at hlimited
    exact ⟨check, rfl, hlimited⟩

/-- The events of the loop. -/
def askEvents (numbers : List Nat) : List ReviewEvent := (numbers.map ReviewEvent.asked).reverse

theorem notMem_askEvents_limited {numbers : List Nat} : .limited number ∉ askEvents numbers := by
  simp [askEvents]

theorem mem_askEvents {numbers : List Nat} : .asked number ∈ askEvents numbers ↔ number ∈ numbers := by
  simp [askEvents]

theorem Inv.finish (h : s.Inv) (hcycle : s.cycle = some cycle) :
    ({ s with
      monitor := s.monitor.finishPoll s.repo cycle.listing.prs cycle.rateLimits
      cycle := none
      history := askEvents (s.asks cycle config notifyRaises) ++ s.history } : ReviewWatch).Inv := by
  refine ⟨h.oneEntry, ?_, ?_, ?_, ?_⟩
  · intro n ts hmem
    exact (h.cache n ts hmem).append notMem_askEvents_limited
  · intro n prev hprev hlimited
    have hnow : prev.rateLimited = cycle.rateLimits n := current_rateLimited hprev
    rw [hlimited] at hnow
    obtain ⟨check, hdone, hcheck⟩ := done_of_rateLimits hnow.symm
    refine ⟨rfl, (h.limited cycle n check hcycle hdone hcheck).append ?_⟩
    rw [mem_askEvents, mem_asks]
    rintro ⟨pr, -, -, -, -, -, hno, -⟩
    rw [hno] at hnow
    cases hnow
  · intro cycle' n check hcycle'
    cases hcycle'
  · intro cycle' n check hcycle'
    cases hcycle'

theorem asksOnRecovery_quiet (h : ∀ number, .asked number ∉ events) :
    AsksOnRecovery repo (events ++ history) ↔ AsksOnRecovery repo history := by
  induction events with
  | nil => rfl
  | cons event events ih =>
    have hrest : ∀ number, .asked number ∉ events :=
      fun number hmem => h number (List.mem_cons_of_mem event hmem)
    have hhead : ∀ number, event = .asked number → RecoverySince repo number (events ++ history) := by
      rintro number rfl
      exact absurd List.mem_cons_self (h number)
    rw [List.cons_append, AsksOnRecovery, ih hrest]
    exact and_iff_right hhead

theorem asksOnRecovery_checkDone (s : ReviewWatch) (cycle : ReviewCycle) (number : Nat) (check : RateCheck) :
    AsksOnRecovery (s.checkDone cycle number check).repo (s.checkDone cycle number check).history ↔
      AsksOnRecovery s.repo s.history := by
  have hnone : ∀ n, .asked n ∉ checkEvents s.repo number check := fun _ => notMem_checkEvents_asked
  exact asksOnRecovery_quiet hnone

theorem done_of_reading {checks : Nat → CheckPhase}
    (h : Function.update checks number (.reading now) n = .done check) : checks n = .done check := by
  by_cases hn : n = number
  · subst hn
    rw [Function.update_self] at h
    cases h
  · rwa [Function.update_of_ne hn] at h

/-- To ask for several pull requests, each once, is to ask for each on a recovery of its own. -/
theorem asksOnRecovery_append {numbers : List Nat} (h : numbers.Nodup) :
    AsksOnRecovery repo (numbers.map ReviewEvent.asked ++ history) ↔
      AsksOnRecovery repo history ∧ ∀ number ∈ numbers, RecoverySince repo number history := by
  induction numbers with
  | nil => simp
  | cons number numbers ih =>
    obtain ⟨hnew, hnodup⟩ := List.nodup_cons.mp h
    have hlimited : .limited number ∉ numbers.map ReviewEvent.asked := by simp
    have hasked : .asked number ∉ numbers.map ReviewEvent.asked := by simpa using hnew
    have hsame : RecoverySince repo number (numbers.map ReviewEvent.asked ++ history) ↔
        RecoverySince repo number history := by
      constructor
      · rintro ⟨hseen, hread, honce⟩
        rw [since_append hlimited] at hread honce
        refine ⟨(List.mem_append.mp hseen).resolve_left hlimited, ?_, ?_⟩
        · exact (List.mem_append.mp hread).resolve_left (by simp)
        · exact fun hmem => honce (List.mem_append_right _ hmem)
      · rintro ⟨hseen, hread, honce⟩
        exact ⟨List.mem_append_right _ hseen, mem_since_append hlimited hread, notMem_since_append hasked honce⟩
    rw [List.map_cons, List.cons_append, AsksOnRecovery, ih hnodup, List.forall_mem_cons]
    simp only [ReviewEvent.asked.injEq, forall_eq', hsame]
    tauto

end ReviewWatch

/-- When the loop is reached, a check that failed is of a pull request that was not last seen rate-limited, or
whose recovery has been read since, or for which the loop does not ask. -/
def ReviewAction.Clean (s : ReviewWatch) : ReviewAction → Prop
  | .finish config notifyRaises => ∀ cycle, s.cycle = some cycle → ∀ pr ∈ cycle.listing.prs,
      (∃ prev, s.monitor.lastState pr.number = some prev ∧ prev.rateLimited = true) →
      (∃ check, cycle.checks pr.number = .done check ∧ check.isFailure = true) →
      notifyRaises pr = false → (config pr).autoRetryCoderabbit = true →
      .read (s.repo, pr.number) false ∈ since pr.number s.history
  | _ => True

namespace ReviewWatch

theorem asks_iff_clean (h : s.Inv) (hcycle : s.cycle = some cycle) (hfinish : CanFinish cycle config) :
    (∀ number ∈ s.asks cycle config notifyRaises, RecoverySince s.repo number s.history) ↔
      (ReviewAction.finish config notifyRaises).Clean s := by
  constructor
  · intro hall cycle' hcycle' pr hpr hprev hfailed hraises hauto
    obtain rfl : cycle = cycle' := Option.some.inj (hcycle.symm.trans hcycle')
    obtain ⟨prev, hlast, hlimited⟩ := hprev
    obtain ⟨check, hdone, hfailure⟩ := hfailed
    have hnot : cycle.rateLimits pr.number = false := by
      unfold ReviewCycle.rateLimits
      rw [hdone]
      cases check with
      | cached b => cases hfailure
      | read b => cases hfailure
      | failed => exact Bool.and_false _
      | raised => exact Bool.and_false _
    have hinit := (h.snapshots pr.number prev hlast hlimited).1
    have hasks := mem_asks.mpr ⟨pr, hpr, rfl, hraises, hinit, ⟨prev, hlast, hlimited⟩, hnot, hauto⟩
    exact (hall pr.number hasks).recovered
  · intro hclean number hnumber
    obtain ⟨pr, hpr, rfl, hraises, -, ⟨prev, hlast, hlimited⟩, hnot, hauto⟩ := mem_asks.mp hnumber
    obtain ⟨-, hseen⟩ := h.snapshots pr.number prev hlast hlimited
    refine ⟨hseen.seen, ?_, hseen.once⟩
    have hchecked : ∃ check, cycle.checks pr.number = .done check := by
      unfold CanFinish at hfinish
      split at hfinish
      · exact hfinish pr hpr
      · rw [hfinish pr hpr] at hauto
        cases hauto
    have hretry : cycle.autoRetry = true := by
      by_contra hoff
      unfold CanFinish at hfinish
      rw [if_neg hoff] at hfinish
      rw [hfinish pr hpr] at hauto
      cases hauto
    obtain ⟨check, hdone⟩ := hchecked
    unfold ReviewCycle.rateLimits at hnot
    rw [hretry, hdone, Bool.true_and] at hnot
    cases hfailure : check.isFailure with
    | true => exact hclean cycle hcycle pr hpr ⟨prev, hlast, hlimited⟩ ⟨check, hdone, hfailure⟩ hraises hauto
    | false => exact h.recovered cycle pr.number check hcycle hdone hnot hfailure hseen.seen

/-- Each step keeps the invariant, and asks on a recovery exactly if it meets its condition. -/
theorem Inv.step (h : s.Inv) {a : ReviewAction} (hs : reviewStep s a = some s') :
    s'.Inv ∧ (AsksOnRecovery s'.repo s'.history ↔ AsksOnRecovery s.repo s.history ∧ a.Clean s) := by
  cases a with
  | listed listing autoRetry =>
    cases hcycle : s.cycle with
    | some cycle => simp [reviewStep, hcycle] at hs
    | none =>
      simp only [reviewStep, hcycle, Option.some.injEq] at hs
      subst hs
      refine ⟨⟨h.oneEntry, h.cache, h.snapshots, ?_, ?_⟩, (and_iff_left trivial).symm⟩
      · intro cycle number check hnew hdone
        obtain rfl := Option.some.inj hnew
        cases hdone
      · intro cycle number check hnew hdone
        obtain rfl := Option.some.inj hnew
        cases hdone
  | look number now =>
    cases hcycle : s.cycle with
    | none => simp [reviewStep, hcycle] at hs
    | some cycle =>
      simp only [reviewStep, hcycle] at hs
      obtain ⟨-, hs⟩ := Option.ite_none_right_eq_some.mp hs
      cases hcached : cachedRateCheck s.cache (s.repo, number) now with
      | some b =>
        rw [hcached] at hs
        obtain rfl := Option.some.inj hs
        obtain ⟨ts, hget⟩ := cached_eq hcached
        have hentry : ((s.repo, number), (ts, b)) ∈ s.cache := Assoc.mem_of_get hget
        refine ⟨h.checkDone hcycle (cacheStep_cached _ _ b) ⟨ts, hentry⟩, ?_⟩
        rw [and_iff_left (show (ReviewAction.look number now).Clean s from trivial)]
        exact asksOnRecovery_checkDone s cycle number _
      | none =>
        rw [hcached] at hs
        obtain rfl := Option.some.inj hs
        refine ⟨⟨h.oneEntry, h.cache, h.snapshots, ?_, ?_⟩, (and_iff_left trivial).symm⟩
        · intro cycle' n check hnew hdone
          obtain rfl := Option.some.inj hnew
          exact h.limited cycle n check hcycle (done_of_reading hdone)
        · intro cycle' n check hnew hdone
          obtain rfl := Option.some.inj hnew
          exact h.recovered cycle n check hcycle (done_of_reading hdone)
  | commentsRead number outcome =>
    cases hcycle : s.cycle with
    | none => simp [reviewStep, hcycle] at hs
    | some cycle =>
      simp only [reviewStep, hcycle] at hs
      cases hphase : cycle.checks number with
      | waiting => simp [hphase] at hs
      | done check => simp [hphase] at hs
      | reading now =>
        rw [hphase] at hs
        obtain rfl := Option.some.inj hs
        have hcache := cacheStep_finish s.cache (s.repo, number) now outcome
        have hsupport : Supported (finishRateCheck s.cache (s.repo, number) now outcome).2 (s.repo, number)
            (finishRateCheck s.cache (s.repo, number) now outcome).1 := by
          cases outcome <;> trivial
        refine ⟨h.checkDone hcycle hcache hsupport, ?_⟩
        rw [and_iff_left (show (ReviewAction.commentsRead number outcome).Clean s from trivial)]
        exact asksOnRecovery_checkDone { s with cache := _ } cycle number _
  | otherRead key now outcome =>
    obtain rfl := Option.some.inj hs
    refine ⟨h.otherRead key (cacheStep_finish s.cache key now outcome), ?_⟩
    rw [and_iff_left (show (ReviewAction.otherRead key now outcome).Clean s from trivial)]
    exact asksOnRecovery_quiet fun _ => notMem_readEvents_asked
  | giveUp =>
    obtain rfl := Option.some.inj hs
    refine ⟨⟨h.oneEntry, h.cache, h.snapshots, ?_, ?_⟩, (and_iff_left trivial).symm⟩
    · intro cycle number check hnew
      cases hnew
    · intro cycle number check hnew
      cases hnew
  | finish config notifyRaises =>
    cases hcycle : s.cycle with
    | none => simp [reviewStep, hcycle] at hs
    | some cycle =>
      simp only [reviewStep, hcycle] at hs
      obtain ⟨hfinish, hs⟩ := Option.ite_none_right_eq_some.mp hs
      obtain rfl := Option.some.inj hs
      refine ⟨h.finish hcycle, ?_⟩
      rw [← asks_iff_clean h hcycle hfinish]
      have hreverse : (s.asks cycle config notifyRaises).reverse.Nodup := List.nodup_reverse.mpr nodup_asks
      have happend : AsksOnRecovery s.repo
          ((s.asks cycle config notifyRaises).reverse.map ReviewEvent.asked ++ s.history) ↔ _ :=
        asksOnRecovery_append hreverse
      rw [List.map_reverse] at happend
      simpa only [List.mem_reverse] using happend

theorem Inv.empty (repo : Text) : ({ repo } : ReviewWatch).Inv where
  oneEntry := fun _ he => nomatch he
  cache := fun _ _ he => nomatch he
  snapshots := fun _ _ hprev => nomatch hprev
  limited := fun _ _ _ hcycle => nomatch hcycle
  recovered := fun _ _ _ hcycle => nomatch hcycle

end ReviewWatch

/-- In a run, every review is asked for on a recovery of its own, exactly if no cycle ends with a failed check
of a pull request that it asks for and whose recovery has not been read. -/
theorem asksOnRecovery_iff_meets {actions : List ReviewAction}
    (h : Runs.exec reviewStep { repo } actions = some s) :
    AsksOnRecovery s.repo s.history ↔ Runs.Meets reviewStep (fun s a => a.Clean s) { repo } actions := by
  have hrun : AsksOnRecovery s.repo s.history ↔
      AsksOnRecovery repo [] ∧ Runs.Meets reviewStep (fun s a => a.Clean s) { repo } actions :=
    Runs.iff_meets (P := fun s => AsksOnRecovery s.repo s.history)
      (fun _ _ _ hinv hs => (ReviewWatch.Inv.step hinv hs).1)
      (fun _ _ _ hinv hs => (ReviewWatch.Inv.step hinv hs).2) (ReviewWatch.Inv.empty repo) h
  rw [hrun]
  exact and_iff_right trivial

/-- A limit that is over, and a review that is asked for. -/
theorem asksOnRecovery_iff_meets_over :
    let repo := "acme/shop".toList
    let listing : PrListing := ⟨[{ number := 7, computedState := .awaitingReview }], by decide⟩
    let notice : CommentsRead := .answered [⟨some "coderabbitai".toList, some "Rate limit exceeded".toList⟩]
    let review : CommentsRead := .answered [⟨some "coderabbitai".toList, some "Looks good".toList⟩]
    let finish : ReviewAction := .finish (fun _ => {}) fun _ => false
    let actions : List ReviewAction :=
      [.listed listing true, .look 7 0, .commentsRead 7 notice, finish,
        .listed listing true, .look 7 200000000, .commentsRead 7 review, finish]
    ∃ s, Runs.exec reviewStep { repo } actions = some s ∧ .asked 7 ∈ s.history ∧
      (AsksOnRecovery s.repo s.history ↔ Runs.Meets reviewStep (fun s a => a.Clean s) { repo } actions) := by
  intro repo listing notice review finish actions
  exact ⟨_, rfl, by decide, asksOnRecovery_iff_meets rfl⟩

/-- A limit that was seen, and a call of `gh` that failed. -/
theorem asks_without_recovery :
    let repo := "acme/shop".toList
    let listing : PrListing := ⟨[{ number := 7, computedState := .awaitingReview }], by decide⟩
    let notice : CommentsRead := .answered [⟨some "coderabbitai".toList, some "Rate limit exceeded".toList⟩]
    let finish : ReviewAction := .finish (fun _ => {}) fun _ => false
    let actions : List ReviewAction :=
      [.listed listing true, .look 7 0, .commentsRead 7 notice, finish,
        .listed listing true, .look 7 200000000, .commentsRead 7 .failed, finish]
    ∃ s, Runs.exec reviewStep { repo } actions = some s ∧ .asked 7 ∈ s.history ∧
      ¬ AsksOnRecovery s.repo s.history := by
  intro repo listing notice finish actions
  refine ⟨_, rfl, by decide, ?_⟩
  rintro ⟨hasked, -⟩
  have hread := (hasked 7 rfl).recovered
  revert hread
  decide

end Supervisor

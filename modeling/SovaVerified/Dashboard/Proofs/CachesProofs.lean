import SovaVerified.Dashboard.Caches

/-!
# The cached task list is never older than an invalidation

The key of a call is registered before its `await`, so an invalidation that covers the key moves its
generation, and what the call comes back with is not stored.
-/

namespace Dashboard

open Adapters Generations

variable {resolve : Text → Option Text} {s s' : QueueCache} {key : Text} {now : Int}

namespace QueueCache

/-- The generation that an invalidation or a call in flight finds. -/
def generationOf (s : QueueCache) (key : Text) : Nat := (s.generation key).getD 0

/-- Where the fetch behind an entry began. -/
def beganOf (s : QueueCache) (key : Text) : Option Nat := (s.cache key).map QueueEntry.began

/-- The invariant of the module's state. -/
structure Inv (resolve : Text → Option Text) (s : QueueCache) : Prop where
  sound : Sound (keyCovers resolve) s.invalidations s.generationOf s.beganOf s.flights
  registered : ∀ f ∈ s.flights, (s.generation f.key).isSome = true

theorem matched_of_generation {target k : Text} (h : (s.generation k).isSome = true)
    (hcovers : keyCovers resolve target k) : s.matched resolve target k = true := by
  unfold matched
  rw [h, Bool.or_true, Bool.true_and]
  exact decide_eq_true hcovers

theorem matched_of_cache {target k : Text} (h : (s.cache k).isSome = true)
    (hcovers : keyCovers resolve target k) : s.matched resolve target k = true := by
  unfold matched
  rw [h, Bool.true_or, Bool.true_and]
  exact decide_eq_true hcovers

namespace Inv

theorem register (h : s.Inv resolve) (key : Text) : (s.register key).Inv resolve where
  sound := by
    have hsame : (s.register key).generationOf = s.generationOf := funext (counter_register s.generation key)
    rw [hsame]
    exact h.sound
  registered := fun f hf => isSome_register (.inr (h.registered f hf))

theorem pop (h : s.Inv resolve) (key : Text) : (s.pop key).Inv resolve where
  sound := h.sound.drop fun _ _ hk => began_pop hk
  registered := h.registered

theorem land (h : s.Inv resolve) (fetch : Fetch Text Nat) :
    ({ s with flights := s.flights.erase fetch } : QueueCache).Inv resolve where
  sound := h.sound.land List.erase_subset
  registered := fun f hf => h.registered f (List.mem_of_mem_erase hf)

theorem startCall (h : s.Inv resolve) (key : Text) (now : Int) (preparation : Preparation) :
    (s.startCall key now preparation).2.Inv resolve := by
  unfold QueueCache.startCall
  cases s.lookup key now with
  | some e => exact h
  | none =>
    have hregister := h.register key
    cases preparation with
    | configFailed => exact hregister
    | noRepository => exact hregister
    | adapterFailed => exact hregister.pop key
    | awaits =>
      refine ⟨hregister.sound.start key, fun f hf => ?_⟩
      rcases List.mem_cons.mp hf with rfl | hf
      · exact isSome_register (.inl rfl)
      · exact hregister.registered f hf

theorem finishCall (h : s.Inv resolve) {fetch : Fetch Text Nat} (hfetch : fetch ∈ s.flights) (now : Int)
    (listing : Listing) : (s.finishCall fetch now listing).2.Inv resolve := by
  cases listing with
  | raised => exact h.pop fetch.key
  | listed tasks shouldSkip =>
    unfold QueueCache.finishCall
    dsimp only
    split
    · exact h.pop fetch.key
    · split
      next hcurrent => exact ⟨h.sound.put hfetch hcurrent fun _ _ hk => began_put hk, h.registered⟩
      next => exact h

/-- An invalidation moves the generation of every registered key that it covers. -/
theorem invalidate (h : s.Inv resolve) {projectDir : Text} (hs : s.invalidate resolve projectDir = some s') :
    s'.Inv resolve := by
  unfold QueueCache.invalidate at hs
  obtain ⟨target, -, rfl⟩ := Option.map_eq_some_iff.mp hs
  refine ⟨h.sound.visit (fun k hk hcovers => matched_of_cache hk hcovers) fun f hf hcovers => ?_, fun f hf => ?_⟩
  · exact matched_of_generation (h.registered f hf) hcovers
  · exact isSome_visit (h.registered f hf)

theorem step (h : s.Inv resolve) {action : QueueCacheAction} (hs : queueCacheStep resolve s action = some s') :
    s'.Inv resolve := by
  cases action with
  | call key now preparation => exact Option.some.inj hs ▸ h.startCall key now preparation
  | answered fetch now listing =>
    simp only [queueCacheStep, Option.ite_none_right_eq_some, Option.some.injEq] at hs
    obtain ⟨hfetch, rfl⟩ := hs
    exact (h.finishCall hfetch now listing).land fetch
  | cancelled fetch =>
    simp only [queueCacheStep, Option.ite_none_right_eq_some, Option.some.injEq] at hs
    obtain ⟨-, rfl⟩ := hs
    exact h.land fetch
  | invalidate projectDir => exact h.invalidate hs

end Inv

end QueueCache

theorem queueCache_inv {actions : List QueueCacheAction}
    (h : Runs.exec (queueCacheStep resolve) {} actions = some s) : s.Inv resolve :=
  Runs.invariant (fun _ _ _ hinv hstep => QueueCache.Inv.step hinv hstep)
    ⟨Sound.empty _ _ _, fun _ hf => absurd hf List.not_mem_nil⟩ h

/-- A call that finds its list in the cache returns a list whose fetch began after every invalidation of its
project. -/
theorem startCall_cached {actions : List QueueCacheAction}
    (h : Runs.exec (queueCacheStep resolve) {} actions = some s) {e : QueueEntry}
    (hit : s.lookup key now = some e) (preparation : Preparation) :
    s.startCall key now preparation = (some e.tasks, s) ∧
      ∀ target ∈ s.invalidations.drop e.began, ¬ keyCovers resolve target key := by
  constructor
  · unfold QueueCache.startCall
    rw [hit]
  · have hentry := (Option.filter_eq_some_iff.mp hit).1
    refine (queueCache_inv h).sound.entry key e.began ?_
    unfold QueueCache.beganOf
    rw [hentry, Option.map_some]

/-- The listing that was awaited across an invalidation is not stored; the next one is. -/
theorem startCall_cached_after_race :
    let task : ListedTask := { number := some 7, id := "7".toList, phaseOrder := 99, createdAt := "9999".toList }
    let listing := Listing.listed [task] false
    let actions : List QueueCacheAction :=
      [.call "./p".toList 0 .awaits, .invalidate "/p".toList, .answered ⟨"./p".toList, 0, 0⟩ 1 (.listed [] false),
        .call "./p".toList 2 .awaits, .answered ⟨"./p".toList, 1, 1⟩ 3 listing]
    ∃ s e, Runs.exec (queueCacheStep fun _ => some "/p".toList) {} actions = some s ∧
      s.lookup "./p".toList 4 = some e ∧ s.startCall "./p".toList 4 .awaits = (some [task], s) ∧
      ∀ target ∈ s.invalidations.drop e.began, ¬ keyCovers (fun _ => some "/p".toList) target "./p".toList := by
  intro task listing actions
  have hit := @startCall_cached (fun _ => some "/p".toList) _ "./p".toList 4 actions rfl ⟨3, [task], 1⟩ rfl .awaits
  exact ⟨_, ⟨3, [task], 1⟩, rfl, rfl, hit⟩

end Dashboard

/-!
# Proofs: the verdict cache

The cache is coherent in every run in which no fetch is stored that began before an invalidation of
its own key. A fetch that is in flight across an invalidation breaks it.
-/

namespace Dashboard

/-- No invalidation of the key happened since the fetch began. -/
def Current (s : CacheState) (key : CacheKey) (began : Nat) : Prop :=
  ∀ i ∈ s.invalidations, i.1 = key → ¬ began < i.2

instance (s : CacheState) (key : CacheKey) (began : Nat) : Decidable (Current s key began) :=
  inferInstanceAs (Decidable (∀ i ∈ s.invalidations, i.1 = key → ¬ began < i.2))

/-- The condition on a step: whatever it stores in the cache was fetched after the last invalidation
of its key. -/
def storesCurrent (s : CacheState) (a : CacheAction) : Bool :=
  match a with
  | .fetched call outcome =>
    match s.calls.get call with
    | some (.resolve key useCache (.fetching login began)) =>
      !useCache || (verdictOfFetch login outcome).isNone || Current s key began
    | _ => true
  | .prewarmFetched call (some data) =>
    match s.calls.get call with
    | some (.prewarm project _ (.fetching login began)) =>
      data.all fun d => (verdictOfFetch login (prewarmOutcome d.2)).isNone ||
        Current s (project, d.1) began
    | _ => true
  | _ => true

/-- The invariant, with a bound `n` on the steps at which calls were started. -/
structure CacheInv (n : Nat) (s : CacheState) : Prop where
  entries : ∀ e ∈ s.cache, Current s e.1 e.2.began
  calls : ∀ c ∈ s.calls, c.1 < n
  fetches : ∀ call key useCache login began,
    (call, Call.resolve key useCache (.fetching login began)) ∈ s.calls → call ≤ began
  started : ∀ a ∈ s.answers, a.started < n
  coherent : Coherent s

namespace CacheInv

variable {n : Nat} {s : CacheState}

theorem mono (h : CacheInv n s) : CacheInv (n + 1) s where
  entries := h.entries
  calls := fun c hc => Nat.lt_succ_of_lt (h.calls c hc)
  fetches := h.fetches
  started := fun a ha => Nat.lt_succ_of_lt (h.started a ha)
  coherent := h.coherent

theorem answer (h : CacheInv n s) {key : CacheKey} {started : Nat} {verdict : SovaVerdict}
    {began : Option Nat} (hs : started < n)
    (hb : ∀ i ∈ s.invalidations, i.1 = key → i.2 < started → ∀ b ∈ began, ¬ b < i.2) :
    CacheInv n (s.answer key started verdict began) where
  entries := h.entries
  calls := h.calls
  fetches := h.fetches
  started := by
    intro a ha
    rcases List.mem_cons.mp ha with rfl | ha
    · exact hs
    · exact h.started a ha
  coherent := by
    intro a ha i hi hkey hlt b hbegan
    rcases List.mem_cons.mp ha with rfl | ha
    · exact hb i hi hkey hlt b hbegan
    · exact h.coherent a ha i hi hkey hlt b hbegan

theorem endCall (h : CacheInv n s) (call : Nat) : CacheInv n (s.endCall call) where
  entries := h.entries
  calls := fun c hc => h.calls c (Assoc.mem_del.mp hc).1
  fetches := fun c k u l b hc => h.fetches c k u l b (Assoc.mem_del.mp hc).1
  started := h.started
  coherent := h.coherent

theorem putCall (h : CacheInv n s) {call : Nat} {c : Call} (hcall : call < n)
    (hc : ∀ key useCache login began, c = .resolve key useCache (.fetching login began) →
      call ≤ began) : CacheInv n (s.putCall call c) where
  entries := h.entries
  calls := by
    intro d hd
    rcases Assoc.mem_put.mp hd with rfl | ⟨hd, -⟩
    · exact hcall
    · exact h.calls d hd
  fetches := by
    intro d k u l b hd
    rcases Assoc.mem_put.mp hd with heq | ⟨hd, -⟩
    · obtain ⟨hid, hcall⟩ := Prod.mk.inj heq
      rw [hid]
      exact hc k u l b hcall.symm
    · exact h.fetches d k u l b hd
  started := h.started
  coherent := h.coherent

theorem put (h : CacheInv n s) {key : CacheKey} {began : Nat} (verdict : SovaVerdict)
    (hcur : Current s key began) : CacheInv n (cachePut key verdict began s) where
  entries := by
    intro e he
    rcases Assoc.mem_put.mp he with rfl | ⟨hold, -⟩
    · exact hcur
    · split_ifs at hold with hlen
      · cases hold
      · exact h.entries e hold
  calls := h.calls
  fetches := h.fetches
  started := h.started
  coherent := h.coherent

/-- The number of steps is not read by the rest of the state. -/
theorem withSteps (h : CacheInv n s) (m : Nat) : CacheInv n { s with steps := m } where
  entries := h.entries
  calls := h.calls
  fetches := h.fetches
  started := h.started
  coherent := h.coherent

end CacheInv

theorem cacheGet_mem {s : CacheState} {key : CacheKey} {e : CacheEntry}
    (h : cacheGet s key = some e) : (key, e) ∈ s.cache := by
  unfold cacheGet at h
  cases hl : s.cache.get key with
  | none => rw [hl] at h; cases h
  | some e' =>
    rw [hl] at h
    dsimp only at h
    have he : e' = e := by
      by_cases hold : s.now - e'.stamp ≥
          if e'.verdict.hasSovaReview = true then positiveTtl else negativeTtl
      · rw [if_pos hold] at h
        cases h
      · rw [if_neg hold] at h
        exact Option.some.inj h
    rw [← he]
    exact Assoc.mem_of_get hl

/-! ## One step -/

section

variable {s : CacheState}

theorem startResolve_inv (h : CacheInv (s.steps + 1) s) (key : CacheKey) (useCache : Bool)
    (adapter : Adapter) : CacheInv (s.steps + 1) (startResolve s key useCache adapter) := by
  have hlt : s.steps < s.steps + 1 := Nat.lt_succ_self _
  unfold startResolve
  cases hc : (if useCache then cacheGet s key else none) with
  | some e =>
    have hget : cacheGet s key = some e := by
      by_cases hu : useCache = true
      · rwa [if_pos hu] at hc
      · rw [if_neg hu] at hc
        cases hc
    refine h.answer hlt ?_
    intro i hi hkey _ b hb
    cases hb
    exact h.entries (key, e) (cacheGet_mem hget) i hi hkey
  | none =>
    dsimp only
    split_ifs
    · exact h.answer hlt (by simp)
    · exact h.putCall hlt (by simp)
    · refine h.putCall hlt ?_
      intro k u l b heq
      cases heq
      exact Nat.le_refl _

theorem startPrewarm_inv (h : CacheInv (s.steps + 1) s) (project : Text) (prs : List Nat)
    (adapter : Adapter) : CacheInv (s.steps + 1) (startPrewarm s project prs adapter) := by
  have hlt : s.steps < s.steps + 1 := Nat.lt_succ_self _
  unfold startPrewarm
  dsimp only
  split_ifs
  · exact h
  · exact h.putCall hlt (by simp)
  · exact h.putCall hlt (by simp)

theorem finishResolve_inv {n : Nat} (h : CacheInv n s) {call : Nat} {key : CacheKey} {useCache : Bool}
    {login : Text} {began : Nat} {outcome : Fetched} (hcall : call < n) (hbegan : call ≤ began)
    (hcur : useCache = true → (verdictOfFetch login outcome).isSome = true → Current s key began) :
    CacheInv n (finishResolve s call key useCache login began outcome) := by
  unfold finishResolve
  cases hv : verdictOfFetch login outcome with
  | none => exact (h.endCall call).answer hcall (by simp)
  | some v =>
    have hown : ∀ i ∈ s.invalidations, i.1 = key → i.2 < call →
        ∀ b ∈ some began, ¬ b < i.2 := by
      rintro i - - hlt b hb
      cases hb
      omega
    dsimp only
    by_cases hu : useCache = true
    · rw [if_pos hu]
      have hput := h.put v (hcur hu (by rw [hv]; rfl))
      exact (hput.endCall call).answer hcall hown
    · rw [if_neg hu]
      exact (h.endCall call).answer hcall hown

theorem finishPrewarm_inv {n : Nat} {project login : Text} {began : Nat}
    {data : List (Nat × Option (List ReviewEntry × Bool))} (h : CacheInv n s)
    (hcur : ∀ d ∈ data, (verdictOfFetch login (prewarmOutcome d.2)).isSome = true →
      Current s (project, d.1) began) :
    CacheInv n (finishPrewarm s project login began data) := by
  unfold finishPrewarm
  induction data generalizing s with
  | nil => exact h
  | cons d data ih =>
    rw [List.foldl_cons]
    have htail : ∀ d' ∈ data, (verdictOfFetch login (prewarmOutcome d'.2)).isSome = true →
        Current s (project, d'.1) began := fun d' hd' => hcur d' (List.mem_cons_of_mem _ hd')
    cases hv : verdictOfFetch login (prewarmOutcome d.2) with
    | none => exact ih h htail
    | some v =>
      have hhead := hcur d (List.mem_cons_self ..) (by rw [hv]; rfl)
      -- a put leaves the invalidations alone, so the rest of the data is as current as before
      exact ih (h.put _ hhead) htail

theorem invalidate_inv (h : CacheInv s.steps s) (key : CacheKey) :
    CacheInv (s.steps + 1) { s with
      cache := s.cache.del key
      invalidations := (key, s.steps) :: s.invalidations } where
  entries := by
    intro e he i hi hkey
    obtain ⟨he, hne⟩ := Assoc.mem_del.mp he
    rcases List.mem_cons.mp hi with rfl | hi
    · exact absurd hkey.symm hne
    · exact h.entries e he i hi hkey
  calls := h.mono.calls
  fetches := h.fetches
  started := h.mono.started
  coherent := by
    intro a ha i hi hkey hlt b hb
    rcases List.mem_cons.mp hi with rfl | hi
    · have hstarted := h.started a ha
      dsimp only at hlt
      omega
    · exact h.coherent a ha i hi hkey hlt b hb

theorem userKnown_inv {call : Nat} {login : Text} {s' : CacheState} (hm : CacheInv (s.steps + 1) s)
    (heff : cacheEffect s (.userKnown call login) = some s') : CacheInv (s.steps + 1) s' := by
  dsimp only [cacheEffect] at heff
  cases hget : s.calls.get call with
  | none => rw [hget] at heff; cases heff
  | some c =>
    have hlt := hm.calls _ (Assoc.mem_of_get hget)
    have hle : call ≤ s.steps := Nat.lt_succ_iff.mp hlt
    rw [hget] at heff
    match c, heff with
    | .resolve key useCache .awaitingUser, heff =>
      dsimp only at heff
      split_ifs at heff
      · rw [← Option.some.inj heff]
        exact (hm.endCall call).answer hlt (by simp)
      · rw [← Option.some.inj heff]
        refine hm.putCall hlt ?_
        intro k u l b heq
        cases heq
        exact hle
    | .prewarm project wanted .awaitingUser, heff =>
      dsimp only at heff
      split_ifs at heff
      · rw [← Option.some.inj heff]
        exact hm.endCall call
      · rw [← Option.some.inj heff]
        exact hm.putCall hlt (by simp)

theorem fetched_inv {call : Nat} {outcome : Fetched} {s' : CacheState}
    (hm : CacheInv (s.steps + 1) s) (hguard : storesCurrent s (.fetched call outcome) = true)
    (heff : cacheEffect s (.fetched call outcome) = some s') : CacheInv (s.steps + 1) s' := by
  dsimp only [cacheEffect] at heff
  cases hget : s.calls.get call with
  | none => rw [hget] at heff; cases heff
  | some c =>
    have hmem := Assoc.mem_of_get hget
    rw [hget] at heff
    match c, heff with
    | .resolve key useCache (.fetching login began), heff =>
      rw [← Option.some.inj heff]
      refine finishResolve_inv hm (hm.calls _ hmem) (hm.fetches _ _ _ _ _ hmem) ?_
      intro hu hv
      simp only [storesCurrent, hget, hu, Bool.not_true, Bool.false_or, Bool.or_eq_true,
        decide_eq_true_eq, Option.isNone_iff_eq_none] at hguard
      refine hguard.resolve_left (fun hnone => ?_)
      rw [hnone] at hv
      cases hv

theorem prewarmFetched_inv {call : Nat} {data : Option (List (Nat × Option (List ReviewEntry × Bool)))}
    {s' : CacheState}
    (hm : CacheInv (s.steps + 1) s) (hguard : storesCurrent s (.prewarmFetched call data) = true)
    (heff : cacheEffect s (.prewarmFetched call data) = some s') : CacheInv (s.steps + 1) s' := by
  dsimp only [cacheEffect] at heff
  cases hget : s.calls.get call with
  | none => rw [hget] at heff; cases heff
  | some c =>
    rw [hget] at heff
    match c, heff with
    | .prewarm project wanted (.fetching login began), heff =>
      cases data with
      | none =>
        rw [← Option.some.inj heff]
        exact hm.endCall call
      | some data =>
        rw [← Option.some.inj heff]
        refine (finishPrewarm_inv hm ?_).endCall call
        simp only [storesCurrent, hget, List.all_eq_true, Bool.or_eq_true, decide_eq_true_eq,
          Option.isNone_iff_eq_none] at hguard
        intro d hd hv
        refine (hguard d hd).resolve_left (fun hnone => ?_)
        rw [hnone] at hv
        cases hv

theorem cacheEffect_inv {a : CacheAction} {s' : CacheState} (h : CacheInv s.steps s)
    (hguard : storesCurrent s a = true) (heff : cacheEffect s a = some s') :
    CacheInv (s.steps + 1) s' := by
  have hm := h.mono
  cases a with
  | tick elapsed =>
    rw [← Option.some.inj heff]
    exact ⟨hm.entries, hm.calls, hm.fetches, hm.started, hm.coherent⟩
  | invalidate key =>
    rw [← Option.some.inj heff]
    exact invalidate_inv h key
  | clear =>
    rw [← Option.some.inj heff]
    exact ⟨fun e he => absurd he List.not_mem_nil, hm.calls, hm.fetches, hm.started, hm.coherent⟩
  | startResolve key useCache adapter =>
    rw [← Option.some.inj heff]
    exact startResolve_inv hm key useCache adapter
  | startPrewarm project prs adapter =>
    rw [← Option.some.inj heff]
    exact startPrewarm_inv hm project prs adapter
  | userKnown call login => exact userKnown_inv hm heff
  | fetched call outcome => exact fetched_inv hm hguard heff
  | prewarmFetched call data => exact prewarmFetched_inv hm hguard heff

theorem cacheStep_inv {a : CacheAction} {s' : CacheState} (h : CacheInv s.steps s)
    (hguard : storesCurrent s a = true) (hstep : cacheStep s a = some s') : CacheInv s'.steps s' := by
  obtain ⟨t, ht, rfl⟩ := Option.map_eq_some_iff.mp hstep
  exact (cacheEffect_inv h hguard ht).withSteps _

end

/-! ## Whole runs -/

theorem cacheInv_init : CacheInv ({} : CacheState).steps {} where
  entries := by simp
  calls := by simp
  fetches := by simp
  started := by simp
  coherent := by simp [Coherent]

/-- In every run in which each fetch is stored before its key is invalidated again, no resolve answers
with a verdict that an invalidation before its start has overtaken. -/
theorem cache_coherent (as : List CacheAction) {t : CacheState}
    (hguard : Runs.Meets cacheStep (fun s a => storesCurrent s a = true) {} as)
    (h : Runs.exec cacheStep {} as = some t) :
    Coherent t := by
  have hinv : CacheInv t.steps t :=
    Runs.invariant_of_guard (P := fun s => CacheInv s.steps s)
      (fun s a s' hs hg hstep => cacheStep_inv hs hg hstep) cacheInv_init hguard h
  exact hinv.coherent

/-- A resolve of pull request 7 with a configured repository and user. -/
def resolve7 : CacheAction := .startResolve ([], 7) true ⟨true, "sova".toList⟩

/-- A pull request is resolved, invalidated and resolved again, one after the other. -/
def sequentialRun : List CacheAction :=
  [resolve7, .fetched 0 (.history [] false), .invalidate ([], 7), resolve7,
    .fetched 3 (.history [] false)]

theorem cache_coherent_sequential :
    ∃ t, Runs.exec cacheStep {} sequentialRun = some t ∧ t.answers.length = 2 ∧ Coherent t := by
  exact ⟨_, rfl, rfl, cache_coherent sequentialRun (by decide) rfl⟩

/-- The fetch of a resolve is in flight while its pull request is invalidated; a resolve that starts
after that is answered from the cache with what this fetch saw. -/
def overtakenRun : List CacheAction :=
  [resolve7, .invalidate ([], 7), .fetched 0 (.history [] false), resolve7]

theorem cache_not_coherent_overtaken :
    ∃ t, Runs.exec cacheStep {} overtakenRun = some t ∧ ¬ Coherent t := by
  refine ⟨_, rfl, ?_⟩
  intro h
  exact h ⟨([], 7), 3, noReview, some 0⟩ (by decide) (([], 7), 1) (by decide) rfl (by decide) 0 rfl
    (by decide)

end Dashboard

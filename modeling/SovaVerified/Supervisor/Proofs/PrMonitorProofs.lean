import Mathlib.Data.List.Induction
import SovaVerified.Dashboard.Proofs.PrTrackerProofs
import SovaVerified.Supervisor.PrMonitor

/-!
# Only changes are reported, as long as no number collides and no pull request comes back

Each step of the process reports changes only exactly if it meets its condition, so a whole run does exactly if
all its steps do.
-/

namespace Supervisor

open Dashboard

variable {s s' : PrWatch} {m : PrMonitor} {repo : Text} {prs : List OpenPr} {rateLimits : Nat → Bool}
  {config : OpenPr → PrMonitorConfig}

/-! ## A poll -/

theorem stateIn_concat (prs : List OpenPr) (pr : OpenPr) (number : Nat) :
    stateIn (prs ++ [pr]) number = if pr.number = number then some pr.computedState else stateIn prs number := by
  unfold stateIn
  rw [List.reverse_concat, List.find?_cons]
  by_cases h : pr.number = number
  · rw [if_pos h, decide_eq_true h]
    rfl
  · rw [if_neg h, decide_eq_false h]

theorem maybeNotify_iff (config : PrMonitorConfig) (snapshot : PrSnapshot) :
    maybeNotify config snapshot = true ↔
      ∃ flag, notifyStates snapshot.computedState = some flag ∧ flag config = true := by
  unfold maybeNotify
  cases notifyStates snapshot.computedState with
  | none => exact ⟨fun h => (nomatch h), fun ⟨_, h, _⟩ => (nomatch h)⟩
  | some flag => exact ⟨fun h => ⟨flag, rfl, h⟩, fun ⟨_, h, hflag⟩ => Option.some.inj h ▸ hflag⟩

namespace PrMonitor

/-- What a poll leaves of a pull request is its place in the list. -/
theorem current_computedState (rateLimits : Nat → Bool) (prs : List OpenPr) (number : Nat) :
    (current rateLimits prs number).map PrSnapshot.computedState = stateIn prs number := by
  unfold current
  induction prs using List.reverseRecOn with
  | nil => rfl
  | append_singleton prs pr ih =>
    rw [List.foldl_concat, stateIn_concat]
    by_cases h : pr.number = number
    · rw [if_pos h, ← h, Function.update_self]
      rfl
    · rw [if_neg h, Function.update_of_ne (Ne.symm h)]
      exact ih

/-- A monitor knows the list of its last completed poll, and has seen nothing before its first one. -/
structure Inv (m : PrMonitor) : Prop where
  lastState : ∀ number, (m.lastState number).map PrSnapshot.computedState = stateIn m.lastPoll number
  initialized : m.initialized = false → m.observed = []

theorem Inv.finishPoll (m : PrMonitor) (repo : Text) (prs : List OpenPr) (rateLimits : Nat → Bool) :
    (m.finishPoll repo prs rateLimits).Inv where
  lastState := current_computedState rateLimits prs
  initialized := fun h => nomatch h

/-- A pull request that was seen in its state is reported when the last completed poll lacks it. -/
theorem Inv.notifies_iff (h : m.Inv) (rateLimits : Nat → Bool) (pr : OpenPr)
    (hseen : lastObserved m.observed repo pr.number = some pr.computedState) :
    (m.initialized &&
      (handleTransition (config pr) (m.lastState pr.number) (snapshot rateLimits pr)).1) = true ↔
    (∃ flag, notifyStates pr.computedState = some flag ∧ flag (config pr) = true) ∧
      stateIn m.lastPoll pr.number ≠ some pr.computedState := by
  have hinit : m.initialized = true := by
    cases hinit : m.initialized with
    | true => rfl
    | false =>
      rw [h.initialized hinit] at hseen
      cases hseen
  unfold handleTransition
  dsimp only
  rw [hinit, Bool.true_and, Bool.and_eq_true, decide_eq_true_eq, maybeNotify_iff, h.lastState, and_comm,
    ne_comm (b := stateIn m.lastPoll pr.number)]
  rfl

theorem Inv.notifications_iff (h : m.Inv) (id : Nat) :
    (∀ n ∈ m.notifications id repo prs rateLimits config, n.lastObserved ≠ some n.state) ↔
      PollClean m repo prs config := by
  constructor
  · intro hall pr hpr hworth hseen
    by_contra hgone
    have hnotifies := (h.notifies_iff rateLimits pr hseen).mpr ⟨hworth, hgone⟩
    refine hall ⟨id, repo, pr.number, pr.computedState, pr.title,
      lastObserved m.observed repo pr.number⟩ ?_ hseen
    exact List.mem_filterMap.mpr ⟨pr, hpr, if_pos hnotifies⟩
  · intro hclean n hn hseen
    obtain ⟨pr, hpr, hsome⟩ := List.mem_filterMap.mp hn
    dsimp only at hsome
    split at hsome
    next hnotifies =>
      obtain rfl := Option.some.inj hsome
      obtain ⟨hworth, hgone⟩ := (h.notifies_iff rateLimits pr hseen).mp hnotifies
      exact hgone (hclean pr hpr hworth hseen)
    next => cases hsome

end PrMonitor

/-! ## The process -/

namespace PrWatch

structure Inv (s : PrWatch) : Prop where
  tracker : s.tracker.Remembers
  monitors : ∀ id, (s.monitors id).Inv

theorem onlyChanges_iff (s : PrWatch) : s.OnlyChanges ↔
    s.tracker.EventsOk ∧ ∀ n ∈ s.notified, n.lastObserved ≠ some n.state :=
  ⟨fun h => ⟨h.events, h.notified⟩, fun h => ⟨h.1, h.2⟩⟩

/-- A step that keeps what the detectors remember and have reported. -/
structure Quiet (s s' : PrWatch) : Prop where
  tracker : s'.tracker.memory = s.tracker.memory
  monitors : ∀ id, ∃ phase, s'.monitors id = { s.monitors id with phase := phase }
  notified : s'.notified = s.notified

theorem Quiet.inv (h : Quiet s s') (hinv : s.Inv) : s'.Inv where
  tracker := hinv.tracker.of_memory h.tracker
  monitors := by
    intro id
    obtain ⟨phase, hphase⟩ := h.monitors id
    rw [hphase]
    exact ⟨(hinv.monitors id).lastState, (hinv.monitors id).initialized⟩

theorem Quiet.onlyChanges (h : Quiet s s') : s'.OnlyChanges ↔ s.OnlyChanges := by
  rw [onlyChanges_iff, onlyChanges_iff, PrTracker.eventsOk_of_memory h.tracker, h.notified]

theorem quiet_setPhase {tracker : PrTracker} (h : tracker.memory = s.tracker.memory) (id : Nat)
    (phase : MonitorPhase) : Quiet s ({ s with tracker := tracker }.setPhase id phase) := by
  refine ⟨h, fun other => ?_, rfl⟩
  unfold setPhase
  dsimp only
  by_cases hid : other = id
  · rw [hid, Function.update_self]
    exact ⟨phase, rfl⟩
  · rw [Function.update_of_ne hid]
    exact ⟨_, rfl⟩

theorem quiet_tracker {tracker : PrTracker} (h : tracker.memory = s.tracker.memory) (fetches : List PrFetch) :
    Quiet s { s with tracker := tracker, fetches := fetches } :=
  ⟨h, fun _ => ⟨_, rfl⟩, rfl⟩

/-- Every step but two is quiet, and has no condition to meet. -/
theorem quiet_of_step {a : PrWatchAction} (hs : prWatchStep s a = some s') :
    Quiet s s' ∧ a.Clean s ∨ (∃ r, a = .record r) ∨
      ∃ id rateLimits config, a = .pollEnd id false rateLimits config := by
  cases a with
  | list cfg raiseOnError now =>
    have hmemory := s.tracker.memory_startList cfg raiseOnError now
    simp only [prWatchStep] at hs
    generalize s.tracker.startList cfg raiseOnError now = start at hs hmemory
    obtain ⟨start, tracker⟩ := start
    cases start <;> exact .inl ⟨Option.some.inj hs ▸ quiet_tracker hmemory _, trivial⟩
  | fetched fetch raiseOnError now outcome =>
    simp only [prWatchStep, Option.ite_none_right_eq_some, Option.some.injEq] at hs
    obtain ⟨-, rfl⟩ := hs
    exact .inl ⟨quiet_tracker (s.tracker.memory_finishList fetch raiseOnError now outcome) _, trivial⟩
  | record r => exact .inr (.inl ⟨r, rfl⟩)
  | invalidate repo =>
    have hmemory : (s.tracker.invalidate repo).memory = s.tracker.memory := rfl
    exact .inl ⟨Option.some.inj hs ▸ quiet_tracker hmemory s.fetches, trivial⟩
  | poll id shouldSkip cfg now =>
    simp only [prWatchStep, Option.ite_none_right_eq_some] at hs
    obtain ⟨-, hs⟩ := hs
    split at hs
    · exact .inl ⟨Option.some.inj hs ▸ quiet_tracker rfl s.fetches, trivial⟩
    · have hmemory := s.tracker.memory_startList cfg false now
      generalize s.tracker.startList cfg false now = start at hs hmemory
      obtain ⟨start, tracker⟩ := start
      cases start <;> exact .inl ⟨Option.some.inj hs ▸ quiet_setPhase hmemory id _, trivial⟩
  | pollFetched id now outcome =>
    simp only [prWatchStep] at hs
    split at hs
    next fetch _ =>
      have hmemory := s.tracker.memory_finishList fetch false now outcome
      generalize s.tracker.finishList fetch false now outcome = finish at hs hmemory
      obtain ⟨outcome, tracker⟩ := finish
      exact .inl ⟨Option.some.inj hs ▸ quiet_setPhase hmemory id _, trivial⟩
    next => cases hs
  | pollEnd id shouldSkip rateLimits config =>
    cases shouldSkip with
    | false => exact .inr (.inr ⟨id, rateLimits, config, rfl⟩)
    | true =>
      simp only [prWatchStep] at hs
      split at hs
      · exact .inl ⟨Option.some.inj hs ▸ quiet_setPhase rfl id .idle, fun h => nomatch h⟩
      · cases hs

theorem Inv.record (h : s.Inv) {r : Recording} (hs : prWatchStep s (.record r) = some s') :
    s'.Inv ∧ (s'.OnlyChanges ↔ s.OnlyChanges ∧ (PrWatchAction.record r).Clean s) := by
  simp only [prWatchStep, Option.ite_none_right_eq_some, Option.some.injEq] at hs
  obtain ⟨-, rfl⟩ := hs
  have hbefore : { s.tracker with recordings := s.tracker.recordings.erase r }.Remembers := h.tracker
  obtain ⟨hremembers, hiff⟩ := PrTracker.recordStateTransitions_spec hbefore r
  refine ⟨⟨hremembers, h.monitors⟩, ?_⟩
  rw [onlyChanges_iff, onlyChanges_iff, hiff, and_right_comm]
  rfl

theorem Inv.pollEnd (h : s.Inv) {id : Nat} (hs : prWatchStep s (.pollEnd id false rateLimits config) = some s') :
    s'.Inv ∧ (s'.OnlyChanges ↔ s.OnlyChanges ∧ (PrWatchAction.pollEnd id false rateLimits config).Clean s) := by
  simp only [prWatchStep] at hs
  split at hs
  next repo prs hphase =>
    obtain rfl := Option.some.inj hs
    refine ⟨⟨h.tracker, fun other => ?_⟩, ?_⟩
    · dsimp only
      by_cases hid : other = id
      · rw [hid, Function.update_self]
        exact PrMonitor.Inv.finishPoll _ repo prs rateLimits
      · rw [Function.update_of_ne hid]
        exact h.monitors other
    · have hclean : (PrWatchAction.pollEnd id false rateLimits config).Clean s ↔
          PollClean (s.monitors id) repo prs config := by
        refine ⟨fun hall => hall rfl repo prs hphase, fun hone _ repo' prs' hphase' => ?_⟩
        rw [hphase] at hphase'
        injection hphase' with hrepo hprs
        exact hrepo ▸ hprs ▸ hone
      rw [onlyChanges_iff, onlyChanges_iff, hclean, ← (h.monitors id).notifications_iff id, List.forall_mem_append,
        and_assoc, and_comm (b := ∀ n ∈ s.notified, _)]
  next => cases hs

/-- Each step reports changes only, exactly if it meets its condition. -/
theorem Inv.step (h : s.Inv) {a : PrWatchAction} (hs : prWatchStep s a = some s') :
    s'.Inv ∧ (s'.OnlyChanges ↔ s.OnlyChanges ∧ a.Clean s) := by
  rcases quiet_of_step hs with ⟨hquiet, hclean⟩ | ⟨r, rfl⟩ | ⟨id, rateLimits, config, rfl⟩
  · refine ⟨hquiet.inv h, ?_⟩
    rw [hquiet.onlyChanges]
    exact (and_iff_left hclean).symm
  · exact h.record hs
  · exact h.pollEnd hs

theorem Inv.empty : ({} : PrWatch).Inv where
  tracker := fun _ => rfl
  monitors := fun _ => ⟨fun _ => rfl, fun _ => rfl⟩

end PrWatch

/-- A run reports changes only, exactly if no number collides in the recorder and no pull request comes back
to a monitor as it was last seen. -/
theorem onlyChanges_iff_meets {actions : List PrWatchAction} (h : Runs.exec prWatchStep {} actions = some s) :
    s.OnlyChanges ↔ Runs.Meets prWatchStep (fun s a => a.Clean s) {} actions := by
  have hrun : s.OnlyChanges ↔
      ({} : PrWatch).OnlyChanges ∧ Runs.Meets prWatchStep (fun s a => a.Clean s) {} actions :=
    Runs.iff_meets (fun _ _ _ hinv hs => (PrWatch.Inv.step hinv hs).1)
      (fun _ _ _ hinv hs => (PrWatch.Inv.step hinv hs).2) PrWatch.Inv.empty h
  have hnothing : ({} : PrWatch).OnlyChanges := ⟨fun _ he => (nomatch he), fun _ hn => (nomatch hn)⟩
  rw [hrun]
  exact and_iff_right hnothing

/-- An approval is seen by a monitor and by the recorder, and reported by both. -/
theorem onlyChanges_iff_meets_approval :
    let shop : PrRepoConfig := ⟨"acme/shop".toList, "bot".toList⟩
    let key : PrCacheKey := (shop.githubRepo, shop.githubUser)
    let waiting : List OpenPr := [{ number := 7, computedState := .awaitingReview }]
    let approved : List OpenPr := [{ number := 7, computedState := .approved }]
    let actions : List PrWatchAction :=
      [.poll 0 false (some shop) 0, .pollFetched 0 1 (.listed waiting), .record ⟨shop.githubRepo, waiting⟩,
        .pollEnd 0 false (fun _ => false) (fun _ => {}), .list (some shop) true 121000000,
        .fetched ⟨key, 121000000, 0⟩ true 121000001 (.listed approved), .record ⟨shop.githubRepo, approved⟩,
        .poll 0 false (some shop) 122000000, .pollEnd 0 false (fun _ => false) (fun _ => {})]
    ∃ s, Runs.exec prWatchStep {} actions = some s ∧ s.tracker.events.length = 1 ∧ s.notified.length = 1 ∧
      (s.OnlyChanges ↔ Runs.Meets prWatchStep (fun s a => a.Clean s) {} actions) := by
  intro shop key waiting approved actions
  exact ⟨_, rfl, rfl, rfl, onlyChanges_iff_meets rfl⟩

/-- The recorder writes an event for the first sight of a pull request, when its number is one of another
repository. A monitor notifies of an approval again when a listing failed in between. -/
theorem reports_without_change :
    let shop : PrRepoConfig := ⟨"acme/shop".toList, "bot".toList⟩
    let blog : PrRepoConfig := ⟨"acme/blog".toList, "bot".toList⟩
    let waiting : List OpenPr := [{ number := 7, computedState := .awaitingReview }]
    let approved : List OpenPr := [{ number := 7, computedState := .approved }]
    let collision : List PrWatchAction :=
      [.list (some shop) false 0, .fetched ⟨(shop.githubRepo, shop.githubUser), 0, 0⟩ false 1 (.listed waiting),
        .record ⟨shop.githubRepo, waiting⟩, .list (some blog) false 2,
        .fetched ⟨(blog.githubRepo, blog.githubUser), 2, 0⟩ false 3 (.listed approved),
        .record ⟨blog.githubRepo, approved⟩]
    let pollEnd : PrWatchAction := .pollEnd 0 false (fun _ => false) (fun _ => {})
    let outage : List PrWatchAction :=
      [.poll 0 false (some shop) 0, .pollFetched 0 1 (.listed approved), pollEnd,
        .poll 0 false (some shop) 121000000, .pollFetched 0 122000000 .lookupError, pollEnd,
        .poll 0 false (some shop) 243000000, .pollFetched 0 244000000 (.listed approved), pollEnd]
    (∃ s, Runs.exec prWatchStep {} collision = some s ∧ (∃ e ∈ s.tracker.events, e.lastObserved = none) ∧
      ¬ s.OnlyChanges) ∧
    ∃ s, Runs.exec prWatchStep {} outage = some s ∧ (∃ n ∈ s.notified, n.lastObserved = some n.state) ∧
      ¬ s.OnlyChanges := by
  intro shop blog waiting approved collision pollEnd outage
  refine ⟨⟨_, rfl, ⟨_, List.mem_cons_self, rfl⟩, fun h => ?_⟩, ⟨_, rfl, ⟨_, List.mem_cons_self, rfl⟩, fun h => ?_⟩⟩
  · obtain ⟨p, hp, -⟩ := h.events _ List.mem_cons_self
    cases hp
  · exact h.notified _ List.mem_cons_self rfl

end Supervisor

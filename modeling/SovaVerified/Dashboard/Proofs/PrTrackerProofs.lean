import SovaVerified.Dashboard.PrTracker

/-!
# When the event recorder records a change

The recorder remembers one state for each number. It is the state of the last observation of the number, in
whatever repository.
-/

namespace Dashboard

variable {s : PrTracker} {observed : List PrObservation} {repo : Text} {number : Nat} {pr : OpenPr}
  {o : PrObservation}

/-! ## Observations -/

theorem lastListed_cons (o : PrObservation) (observed : List PrObservation) (number : Nat) :
    lastListed (o :: observed) number = if o.number = number then some o else lastListed observed number := by
  unfold lastListed
  rw [List.find?_cons]
  by_cases h : o.number = number
  · rw [if_pos h, decide_eq_true h]
  · rw [if_neg h, decide_eq_false h]

/-- The last observation of a number is one of its repository's own when it is of that repository. -/
theorem lastObserved_of_lastListed (h : lastListed observed number = some o) (hrepo : o.repo = repo) :
    lastObserved observed repo number = some o.state := by
  induction observed with
  | nil => cases h
  | cons first rest ih =>
    rw [lastListed_cons] at h
    unfold lastObserved at ih ⊢
    rw [List.find?_cons]
    split at h
    next hnumber =>
      obtain rfl := Option.some.inj h
      rw [decide_eq_true hrepo, decide_eq_true hnumber]
      rfl
    next hnumber =>
      rw [decide_eq_false hnumber, Bool.and_false]
      exact ih h

namespace PrTracker

/-- The state of a number is that of its last observation. -/
def Remembers (s : PrTracker) : Prop :=
  ∀ number, s.lastKnownStates number = (lastListed s.observed number).map PrObservation.state

def EventsOk (s : PrTracker) : Prop := ∀ e ∈ s.events, ∃ p, e.lastObserved = some p ∧ p ≠ e.computedState

/-- What the recorder remembers and has written. -/
def memory (s : PrTracker) : (Nat → Option ComputedPRState) × List PrObservation × List PrEvent :=
  (s.lastKnownStates, s.observed, s.events)

theorem Remembers.of_memory {s' : PrTracker} (h : s.Remembers) (hmemory : s'.memory = s.memory) :
    s'.Remembers := by
  simp only [memory, Prod.mk.injEq] at hmemory
  unfold Remembers
  rw [hmemory.1, hmemory.2.1]
  exact h

theorem eventsOk_of_memory {s' : PrTracker} (hmemory : s'.memory = s.memory) : s'.EventsOk ↔ s.EventsOk := by
  simp only [memory, Prod.mk.injEq] at hmemory
  unfold EventsOk
  rw [hmemory.2.2]

/-! ## Listings leave the memory of the recorder alone -/

theorem memory_startList (s : PrTracker) (cfg : Option PrRepoConfig) (raiseOnError : Bool) (now : Int) :
    (s.startList cfg raiseOnError now).2.memory = s.memory := by
  unfold startList
  cases cfg with
  | none => rfl
  | some cfg =>
    dsimp only
    split
    · rfl
    · split
      · rfl
      · split <;> rfl

theorem memory_finishList (s : PrTracker) (fetch : PrFetch) (raiseOnError : Bool) (now : Int)
    (outcome : FetchOutcome) : (s.finishList fetch raiseOnError now outcome).2.memory = s.memory := by
  cases outcome <;> rfl

/-! ## The recorder -/

theorem observed_observe (s : PrTracker) (repo : Text) (pr : OpenPr) :
    (observe repo s pr).observed = ⟨repo, pr.number, pr.computedState⟩ :: s.observed := by
  unfold observe
  dsimp only
  split
  · rfl
  · split
    · rfl
    · split <;> rfl

theorem lastKnownStates_observe (s : PrTracker) (repo : Text) (pr : OpenPr) :
    (observe repo s pr).lastKnownStates =
      Function.update s.lastKnownStates pr.number (some pr.computedState) := by
  unfold observe
  dsimp only
  split
  · rfl
  · split
    · rfl
    · split <;> rfl

/-- An event is written when the state has one and differs from the remembered state. -/
theorem events_observe (s : PrTracker) (repo : Text) (pr : OpenPr) :
    (observe repo s pr).events = s.events ∧ (∀ prev, s.lastKnownStates pr.number = some prev →
        pr.computedState = prev ∨ computedToEvent pr.computedState = none) ∨
      ∃ prev e, s.lastKnownStates pr.number = some prev ∧ pr.computedState ≠ prev ∧
        (computedToEvent pr.computedState).isSome = true ∧ e.computedState = pr.computedState ∧
        e.lastObserved = lastObserved s.observed repo pr.number ∧ (observe repo s pr).events = e :: s.events := by
  unfold observe
  dsimp only
  cases hprev : s.lastKnownStates pr.number with
  | none => exact .inl ⟨rfl, fun _ h => nomatch h⟩
  | some prev =>
    dsimp only
    by_cases hsame : pr.computedState = prev
    · rw [if_pos hsame]
      exact .inl ⟨rfl, fun p hp => .inl (hsame.trans (Option.some.inj hp))⟩
    · rw [if_neg hsame]
      cases htype : computedToEvent pr.computedState with
      | none => exact .inl ⟨rfl, fun _ _ => .inr rfl⟩
      | some eventType => exact .inr ⟨prev, _, rfl, hsame, rfl, rfl, rfl, rfl⟩

theorem Remembers.observe (h : s.Remembers) (repo : Text) (pr : OpenPr) :
    (PrTracker.observe repo s pr).Remembers := by
  intro number
  rw [lastKnownStates_observe, observed_observe, lastListed_cons]
  by_cases hnumber : pr.number = number
  · rw [if_pos hnumber, ← hnumber, Function.update_self]
    rfl
  · rw [if_neg hnumber, Function.update_of_ne (Ne.symm hnumber)]
    exact h number

/-- One turn of the loop writes an event for a change only, exactly if the number does not collide. -/
theorem eventsOk_observe (h : s.Remembers) (repo : Text) (pr : OpenPr) :
    (PrTracker.observe repo s pr).EventsOk ↔ s.EventsOk ∧
      ((computedToEvent pr.computedState).isSome = true → SameNumberClean s.observed repo pr) := by
  have hprev := h pr.number
  unfold EventsOk
  rcases events_observe s repo pr with ⟨hevents, hquiet⟩ | ⟨prev, e, hknown, hne, htype, hstate, hlast, hevents⟩
  · rw [hevents]
    refine ⟨fun hok => ⟨hok, fun htype o ho => ?_⟩, fun hok => hok.1⟩
    rw [ho, Option.map_some] at hprev
    rcases hquiet o.state hprev with hsame | hnone
    · exact .inr (.inl hsame.symm)
    · rw [hnone] at htype
      cases htype
  · rw [hevents, List.forall_mem_cons, hlast, hstate, and_comm]
    refine and_congr_right fun _ => ⟨fun hown _ o _ => .inr (.inr hown), fun hclean => ?_⟩
    rw [hprev] at hknown
    obtain ⟨o, ho, hostate⟩ := Option.map_eq_some_iff.mp hknown
    rcases hclean htype o ho with hrepo | hsame | hown
    · exact ⟨o.state, lastObserved_of_lastListed ho hrepo, fun heq => hne (heq.symm.trans hostate)⟩
    · exact absurd (hsame.symm.trans hostate) hne
    · exact hown

theorem recordStateTransitions_spec (h : s.Remembers) (r : Recording) :
    (s.recordStateTransitions r).Remembers ∧
      ((s.recordStateTransitions r).EventsOk ↔ s.EventsOk ∧ RecordClean r.repo s.observed r.prs) := by
  obtain ⟨repo, prs⟩ := r
  unfold recordStateTransitions
  induction prs generalizing s with
  | nil => exact ⟨h, fun hok => ⟨hok, trivial⟩, fun hok => hok.1⟩
  | cons pr prs ih =>
    obtain ⟨hremembers, hiff⟩ := ih (h.observe repo pr)
    refine ⟨hremembers, ?_⟩
    rw [List.foldl_cons, hiff, eventsOk_observe h, observed_observe, and_assoc]
    rfl

end PrTracker

end Dashboard

/-!
# When a pull request is called ready

`APPROVED_CI_GREEN` is reached on three ways: through an approval, past the outdated reviews of bots, and
without reviews that ask for anything. The way past the bots does not look at GitHub's merge state, the way
through an approval does not look at the reviews, and the summary of the checks drops the contexts that are
still expected.
-/

namespace Dashboard

/-! ## What ready should mean -/

namespace CiContext

def isFailed : CiContext → Bool
  | .statusContext state =>
    Text.upper state == "FAILURE".toList || Text.upper state == "ERROR".toList
  | .checkRun _ conclusion => failedConclusions.contains (Text.upper conclusion)

/-- A check run has a conclusion once it is completed. -/
def isPending : CiContext → Bool
  | .statusContext state => Text.upper state == "PENDING".toList
  | .checkRun status conclusion => conclusion.isEmpty && Text.upper status != "COMPLETED".toList

/-- A required status that nobody has reported yet. -/
def isExpected : CiContext → Bool
  | .statusContext state => Text.upper state == "EXPECTED".toList
  | .checkRun _ _ => false

theorem contextState_of_isFailed {ctx : CiContext} (h : ctx.isFailed = true) :
    ctx.contextState = some .failed := by
  cases ctx with
  | statusContext state =>
    simp only [isFailed, Bool.or_eq_true, beq_iff_eq] at h
    unfold contextState
    dsimp only
    rcases h with h | h
    · rw [h]
      rfl
    · rw [h]
      rfl
  | checkRun status conclusion =>
    have hmem : Text.upper conclusion ∈ failedConclusions := by simpa [isFailed] using h
    unfold contextState
    dsimp only
    rw [if_pos hmem]

theorem contextState_of_isPending {ctx : CiContext} (h : ctx.isPending = true) :
    ctx.contextState = some .pending := by
  cases ctx with
  | statusContext state =>
    have hstate : Text.upper state = "PENDING".toList := by simpa [isPending] using h
    unfold contextState
    dsimp only
    rw [hstate]
    rfl
  | checkRun status conclusion =>
    simp only [isPending, Bool.and_eq_true, List.isEmpty_iff, bne_iff_ne] at h
    obtain ⟨hnone, hstatus⟩ := h
    subst hnone
    unfold contextState
    dsimp only
    rw [if_neg (by decide), if_neg (by decide), if_neg (by decide), if_neg hstatus]

end CiContext

/-- The pull request can be merged, and nobody and nothing that was asked is against it. -/
structure SafeToMerge (rollup : List CiContext) (s : PrSignals) : Prop where
  draft : s.isDraft = false
  mergeable : s.mergeable = "MERGEABLE".toList
  blocked : s.mergeState ≠ "BLOCKED".toList
  dirty : s.mergeState ≠ "DIRTY".toList
  checks : ∀ ctx ∈ rollup, ctx.isFailed = false ∧ ctx.isPending = false ∧ ctx.isExpected = false
  reviews : ∀ r ∈ s.latestReviews, r.requestsChanges = true → r.isBot = true

/-! ## The condition -/

/-- No check has failed or is pending. -/
def Settled (rollup : List CiContext) : Prop :=
  ∀ ctx ∈ rollup, ctx.contextState ≠ some .failed ∧ ctx.contextState ≠ some .pending

/-- Some check has passed or was skipped. -/
def Reported (rollup : List CiContext) : Prop :=
  ∃ ctx ∈ rollup, ctx.contextState = some .passed ∨ ctx.contextState = some .skipped

/-- Some required status was not reported yet. -/
def AwaitsStatus (rollup : List CiContext) : Prop := ∃ ctx ∈ rollup, ctx.isExpected = true

namespace PrSignals

/-- Nothing but the checks and the reviews can be in the way, and what GitHub's rules say. -/
def Unconflicted (s : PrSignals) : Prop :=
  s.isDraft = false ∧ s.mergeable = "MERGEABLE".toList ∧ s.mergeState ≠ "DIRTY".toList

def Blocked (s : PrSignals) : Prop := s.mergeState = "BLOCKED".toList

/-- GitHub has decided for the pull request, and its rules let it through. -/
def Approved (s : PrSignals) : Prop := s.reviewDecision = "APPROVED".toList ∧ ¬ s.Blocked

/-- GitHub has not decided for the pull request, and all reviews that request changes are by bots, with
resolved threads and a later commit. -/
def OnlyOutdatedBots (s : PrSignals) : Prop :=
  s.reviewDecision ≠ "APPROVED".toList ∧ extractCrReviews s.latestReviews ≠ [] ∧
    (∀ r ∈ s.latestReviews, r.requestsChanges = true → r.isBot = true) ∧
    s.allThreadsResolved = some true ∧ s.supersededByNewCommit = true

/-- GitHub has not decided, no review requests changes, and there are none or their threads are
resolved. -/
def Undisputed (s : PrSignals) : Prop :=
  s.reviewDecision ≠ "APPROVED".toList ∧ s.reviewDecision ≠ "CHANGES_REQUESTED".toList ∧
    extractCrReviews s.latestReviews = [] ∧ (s.latestReviews = [] ∨ s.allThreadsResolved = some true) ∧
    ¬ s.Blocked

def HumanRequestsChanges (s : PrSignals) : Prop :=
  ∃ r ∈ s.latestReviews, r.requestsChanges = true ∧ r.isBot = false

end PrSignals

/-- The inputs on which a pull request that is not ready is called so. -/
def Misjudged (rollup : List CiContext) (s : PrSignals) : Prop :=
  Settled rollup ∧ s.Unconflicted ∧
    (s.Approved ∧ (s.HumanRequestsChanges ∨ AwaitsStatus rollup) ∨
      Reported rollup ∧
        (s.OnlyOutdatedBots ∧ (s.Blocked ∨ AwaitsStatus rollup) ∨ s.Undisputed ∧ AwaitsStatus rollup))

/-! ## The ways to the ready state -/

theorem settled_iff (rollup : List CiContext) :
    Settled rollup ↔ .failed ∉ rollup.filterMap CiContext.contextState ∧
      .pending ∉ rollup.filterMap CiContext.contextState := by
  have hmem : ∀ state, state ∈ rollup.filterMap CiContext.contextState ↔
      ∃ ctx ∈ rollup, ctx.contextState = some state := fun state => List.mem_filterMap
  constructor
  · intro h
    constructor
    · intro hfailed
      obtain ⟨ctx, hctx, hstate⟩ := (hmem .failed).mp hfailed
      exact (h ctx hctx).1 hstate
    · intro hpending
      obtain ⟨ctx, hctx, hstate⟩ := (hmem .pending).mp hpending
      exact (h ctx hctx).2 hstate
  · intro h ctx hctx
    exact ⟨fun hstate => h.1 ((hmem .failed).mpr ⟨ctx, hctx, hstate⟩),
      fun hstate => h.2 ((hmem .pending).mpr ⟨ctx, hctx, hstate⟩)⟩

theorem reported_iff (rollup : List CiContext) :
    Reported rollup ↔ .passed ∈ rollup.filterMap CiContext.contextState ∨
      .skipped ∈ rollup.filterMap CiContext.contextState := by
  unfold Reported
  simp only [List.mem_filterMap, and_or_left, exists_or]

theorem summarizeCi_settled_iff (rollup : List CiContext) :
    (summarizeCi rollup ≠ .failed ∧ summarizeCi rollup ≠ .pending) ↔ Settled rollup := by
  rw [settled_iff]
  unfold summarizeCi
  dsimp only
  split_ifs <;> simp_all

theorem summarizeCi_passed_iff (rollup : List CiContext) :
    summarizeCi rollup = .passed ↔ Settled rollup ∧ Reported rollup := by
  rw [settled_iff, reported_iff]
  unfold summarizeCi
  dsimp only
  generalize rollup.filterMap CiContext.contextState = states
  by_cases hfailed : .failed ∈ states
  · rw [if_pos hfailed]
    exact iff_of_false (by decide) fun h => h.1.1 hfailed
  rw [if_neg hfailed]
  by_cases hpending : .pending ∈ states
  · rw [if_pos hpending]
    exact iff_of_false (by decide) fun h => h.1.2 hpending
  rw [if_neg hpending]
  by_cases hpassed : .passed ∈ states
  · rw [if_pos hpassed]
    exact iff_of_true rfl ⟨⟨hfailed, hpending⟩, .inl hpassed⟩
  rw [if_neg hpassed]
  by_cases hskipped : .skipped ∈ states
  · rw [if_pos hskipped]
    exact iff_of_true rfl ⟨⟨hfailed, hpending⟩, .inr hskipped⟩
  rw [if_neg hskipped]
  exact iff_of_false (by decide) fun h => h.2.elim hpassed hskipped

theorem isOpenToMerge_iff (s : PrSignals) : s.isOpenToMerge = true ↔
    s.mergeable = "MERGEABLE".toList ∧ s.mergeState ≠ "DIRTY".toList ∧ ¬ s.Blocked := by
  have hgithub : s.githubBlocked = true ↔ s.Blocked ∨ s.mergeState = "DIRTY".toList := by
    unfold PrSignals.githubBlocked mergeStatesUnmergeable PrSignals.Blocked
    rw [List.contains_iff_mem, List.mem_cons, List.mem_singleton]
  unfold PrSignals.isOpenToMerge
  rw [Bool.and_eq_true, beq_iff_eq, Bool.not_eq_true', ← Bool.not_eq_true, hgithub, not_or]
  exact and_congr_right fun _ => and_comm

theorem shouldUnblockBotReviews_green_iff (s : PrSignals) (ci : CiStatus) (crReviews : List PrReview) :
    shouldUnblockBotReviews s ci crReviews = some .approvedCiGreen ↔
      crReviews ≠ [] ∧ s.allThreadsResolved = some true ∧ crReviews.all PrReview.isBot = true ∧
        s.supersededByNewCommit = true ∧ ci = .passed ∧ s.mergeable = "MERGEABLE".toList := by
  unfold shouldUnblockBotReviews
  generalize crReviews.all PrReview.isBot = bots
  cases bots <;> split_ifs <;> simp_all

theorem getD_changesRequested_green_iff (o : Option ComputedPRState) :
    o.getD .changesRequested = .approvedCiGreen ↔ o = some .approvedCiGreen := by
  cases o with
  | none => simp
  | some state => simp

theorem allBots_iff (latestReviews : List PrReview) :
    (extractCrReviews latestReviews).all PrReview.isBot = true ↔
      ∀ r ∈ latestReviews, r.requestsChanges = true → r.isBot = true := by
  unfold extractCrReviews
  rw [List.all_eq_true]
  constructor
  · intro h r hr hrequests
    exact h r (List.mem_filter.mpr ⟨hr, hrequests⟩)
  · intro h r hr
    obtain ⟨hmem, hrequests⟩ := List.mem_filter.mp hr
    exact h r hmem hrequests

/-- The way past the outdated reviews of bots. -/
theorem unblock_green_iff (s : PrSignals) (ci : CiStatus)
    (hdecision : s.reviewDecision ≠ "APPROVED".toList) :
    shouldUnblockBotReviews s ci (extractCrReviews s.latestReviews) = some .approvedCiGreen ↔
      s.mergeable = "MERGEABLE".toList ∧ ci = .passed ∧ s.OnlyOutdatedBots := by
  rw [shouldUnblockBotReviews_green_iff, allBots_iff]
  constructor
  · rintro ⟨hcr, hthreads, hbots, hsuperseded, hci, hmergeable⟩
    exact ⟨hmergeable, hci, hdecision, hcr, hbots, hthreads, hsuperseded⟩
  · rintro ⟨hmergeable, hci, -, hcr, hbots, hthreads, hsuperseded⟩
    exact ⟨hcr, hthreads, hbots, hsuperseded, hci, hmergeable⟩

/-- The way of reviews that are not summed up by a decision. -/
theorem stateOfReviews_green_iff (s : PrSignals) (ci : CiStatus) (hreviews : s.latestReviews ≠ [])
    (happroved : s.reviewDecision ≠ "APPROVED".toList)
    (hchanges : s.reviewDecision ≠ "CHANGES_REQUESTED".toList)
    (hdirty : s.mergeState ≠ "DIRTY".toList) :
    stateOfReviews s ci = .approvedCiGreen ↔
      s.mergeable = "MERGEABLE".toList ∧ ci = .passed ∧ (s.OnlyOutdatedBots ∨ s.Undisputed) := by
  unfold stateOfReviews
  dsimp only
  by_cases hcr : extractCrReviews s.latestReviews = []
  · have hbots : ¬ s.OnlyOutdatedBots := fun h => h.2.1 hcr
    have hundisputed : s.Undisputed ↔ s.allThreadsResolved = some true ∧ ¬ s.Blocked := by
      constructor
      · rintro ⟨-, -, -, hresolved, hblocked⟩
        exact ⟨hresolved.resolve_left hreviews, hblocked⟩
      · rintro ⟨hresolved, hblocked⟩
        exact ⟨happroved, hchanges, hcr, .inr hresolved, hblocked⟩
    rw [if_neg (not_not.mpr hcr), or_iff_right hbots, hundisputed]
    have hopen := isOpenToMerge_iff s
    split_ifs <;> simp_all
  · have hundisputed : ¬ s.Undisputed := fun h => hcr h.2.2.1
    rw [if_pos hcr, getD_changesRequested_green_iff, unblock_green_iff s ci happroved,
      or_iff_left hundisputed]

/-- The values of the summary. -/
theorem summarizeCi_values (rollup : List CiContext) : summarizeCi rollup = .failed ∨
    summarizeCi rollup = .pending ∨ summarizeCi rollup = .passed ∨ summarizeCi rollup = .none := by
  unfold summarizeCi
  dsimp only
  split_ifs <;> simp

theorem PrSignals.not_onlyOutdatedBots {s : PrSignals} (h : s.latestReviews = []) :
    ¬ s.OnlyOutdatedBots := by
  intro hbots
  rw [PrSignals.OnlyOutdatedBots, h] at hbots
  exact hbots.2.1 rfl

theorem computePrState_green_iff (s : PrSignals) {ci : CiStatus}
    (hvalues : ci = .failed ∨ ci = .pending ∨ ci = .passed ∨ ci = .none) :
    computePrState s ci = .approvedCiGreen ↔
      (ci ≠ .failed ∧ ci ≠ .pending) ∧ s.Unconflicted ∧
        (s.Approved ∨ ci = .passed ∧ (s.OnlyOutdatedBots ∨ s.Undisputed)) := by
  unfold computePrState
  by_cases hdraft : s.isDraft = true
  · simp [hdraft, PrSignals.Unconflicted]
  rw [if_neg hdraft]
  by_cases hconflicted : s.mergeable = "CONFLICTING".toList ∨ s.mergeState = "DIRTY".toList
  · rw [if_pos hconflicted]
    have hnot : ¬ s.Unconflicted := by
      rintro ⟨-, hmergeable, hdirty⟩
      rcases hconflicted with hc | hd
      · rw [hmergeable] at hc
        exact absurd hc (by decide)
      · exact hdirty hd
    simp [hnot]
  rw [if_neg hconflicted]
  obtain ⟨-, hdirty⟩ := not_or.mp hconflicted
  by_cases hpending : ci = .pending
  · simp [hpending]
  rw [if_neg hpending]
  by_cases hfailed : ci = .failed
  · simp [hfailed]
  rw [if_neg hfailed]
  have hunconflicted : s.Unconflicted ↔ s.mergeable = "MERGEABLE".toList := by
    constructor
    · exact fun h => h.2.1
    · exact fun h => ⟨by simpa using hdraft, h, hdirty⟩
  rw [hunconflicted, and_iff_right (⟨hfailed, hpending⟩ : ci ≠ .failed ∧ ci ≠ .pending)]
  -- the decision of GitHub chooses the way
  by_cases hchanges : s.reviewDecision = "CHANGES_REQUESTED".toList
  · have happroved : s.reviewDecision ≠ "APPROVED".toList := by
      rw [hchanges]
      decide
    have hnotApproved : ¬ s.Approved := fun h => happroved h.1
    have hundisputed : ¬ s.Undisputed := fun h => h.2.1 hchanges
    rw [if_pos hchanges, or_iff_right hnotApproved, or_iff_left hundisputed]
    by_cases hreviews : s.latestReviews = []
    · simp [hreviews, PrSignals.not_onlyOutdatedBots hreviews]
    · rw [if_pos hreviews, getD_changesRequested_green_iff, unblock_green_iff s ci happroved]
  rw [if_neg hchanges]
  by_cases happroved : s.reviewDecision = "APPROVED".toList
  · have hbots : ¬ s.OnlyOutdatedBots := fun h => h.1 happroved
    have hundisputed : ¬ s.Undisputed := fun h => h.1 happroved
    have hci : ci = .passed ∨ ci = .none := (hvalues.resolve_left hfailed).resolve_left hpending
    have hopen := isOpenToMerge_iff s
    rw [if_pos happroved]
    split_ifs <;> simp_all [PrSignals.Approved]
  rw [if_neg happroved]
  have hnotApproved : ¬ s.Approved := fun h => happroved h.1
  rw [or_iff_right hnotApproved]
  by_cases hreviews : s.latestReviews = []
  · have hbots := PrSignals.not_onlyOutdatedBots hreviews
    have hundisputed : s.Undisputed ↔ ¬ s.Blocked := by
      constructor
      · exact fun h => h.2.2.2.2
      · intro h
        refine ⟨happroved, hchanges, ?_, .inl hreviews, h⟩
        rw [hreviews]
        rfl
    have hopen := isOpenToMerge_iff s
    rw [if_neg (not_not.mpr hreviews), or_iff_right hbots, hundisputed]
    split_ifs <;> simp_all
  · rw [if_pos hreviews, stateOfReviews_green_iff s ci hreviews happroved hchanges hdirty]

/-- The ready state, by the checks and the signals that it is computed from. -/
theorem ready_iff (rollup : List CiContext) (s : PrSignals) :
    computePrState s (summarizeCi rollup) = .approvedCiGreen ↔
      Settled rollup ∧ s.Unconflicted ∧
        (s.Approved ∨ Reported rollup ∧ (s.OnlyOutdatedBots ∨ s.Undisputed)) := by
  rw [computePrState_green_iff s (summarizeCi_values rollup), summarizeCi_settled_iff,
    summarizeCi_passed_iff]
  tauto

/-! ## Safety -/

/-- What the checks that are summed up as settled can still hold back. -/
theorem checks_of_settled {rollup : List CiContext} (h : Settled rollup) (hawaits : ¬ AwaitsStatus rollup) :
    ∀ ctx ∈ rollup, ctx.isFailed = false ∧ ctx.isPending = false ∧ ctx.isExpected = false := by
  intro ctx hctx
  obtain ⟨hfailed, hpending⟩ := h ctx hctx
  refine ⟨?_, ?_, ?_⟩
  · by_contra hnot
    exact hfailed (CiContext.contextState_of_isFailed (by simpa using hnot))
  · by_contra hnot
    exact hpending (CiContext.contextState_of_isPending (by simpa using hnot))
  · by_contra hnot
    exact hawaits ⟨ctx, hctx, by simpa using hnot⟩

/-- Without reviews that request changes, no human requests them. -/
theorem noHuman_of_extractCrReviews {latestReviews : List PrReview}
    (h : extractCrReviews latestReviews = []) :
    ∀ r ∈ latestReviews, r.requestsChanges = true → r.isBot = true := by
  intro r hr hrequests
  have hmem : r ∈ extractCrReviews latestReviews := List.mem_filter.mpr ⟨hr, hrequests⟩
  rw [h] at hmem
  cases hmem

/-- A ready pull request is safe to merge exactly when it is not one of those that are misjudged. -/
theorem ready_safe_iff (rollup : List CiContext) (s : PrSignals) :
    (computePrState s (summarizeCi rollup) = .approvedCiGreen → SafeToMerge rollup s) ↔
      ¬ Misjudged rollup s := by
  rw [ready_iff]
  constructor
  · rintro hsafe ⟨hsettled, hopen, hways⟩
    have hawaits : SafeToMerge rollup s → ¬ AwaitsStatus rollup := by
      rintro h ⟨ctx, hctx, hexpected⟩
      rw [(h.checks ctx hctx).2.2] at hexpected
      cases hexpected
    rcases hways with ⟨happroved, hwrong⟩ | ⟨hreported, ⟨hbots, hwrong⟩ | ⟨hundisputed, hwrong⟩⟩
    · have h := hsafe ⟨hsettled, hopen, .inl happroved⟩
      rcases hwrong with ⟨r, hr, hrequests, hhuman⟩ | hexpected
      · rw [h.reviews r hr hrequests] at hhuman
        cases hhuman
      · exact hawaits h hexpected
    · have h := hsafe ⟨hsettled, hopen, .inr ⟨hreported, .inl hbots⟩⟩
      rcases hwrong with hblocked | hexpected
      · exact h.blocked hblocked
      · exact hawaits h hexpected
    · exact hawaits (hsafe ⟨hsettled, hopen, .inr ⟨hreported, .inr hundisputed⟩⟩) hwrong
  · rintro hnot ⟨hsettled, hopen, hways⟩
    rcases hways with happroved | ⟨hreported, hbots | hundisputed⟩
    · have hwrong : ¬ (s.HumanRequestsChanges ∨ AwaitsStatus rollup) :=
        fun h => hnot ⟨hsettled, hopen, .inl ⟨happroved, h⟩⟩
      obtain ⟨hhuman, hawaits⟩ := not_or.mp hwrong
      refine ⟨hopen.1, hopen.2.1, happroved.2, hopen.2.2, checks_of_settled hsettled hawaits, ?_⟩
      intro r hr hrequests
      by_contra hbot
      exact hhuman ⟨r, hr, hrequests, by simpa using hbot⟩
    · have hwrong : ¬ (s.Blocked ∨ AwaitsStatus rollup) :=
        fun h => hnot ⟨hsettled, hopen, .inr ⟨hreported, .inl ⟨hbots, h⟩⟩⟩
      obtain ⟨hblocked, hawaits⟩ := not_or.mp hwrong
      exact ⟨hopen.1, hopen.2.1, hblocked, hopen.2.2, checks_of_settled hsettled hawaits, hbots.2.2.1⟩
    · have hawaits : ¬ AwaitsStatus rollup :=
        fun h => hnot ⟨hsettled, hopen, .inr ⟨hreported, .inr ⟨hundisputed, h⟩⟩⟩
      exact ⟨hopen.1, hopen.2.1, hundisputed.2.2.2.2, hopen.2.2, checks_of_settled hsettled hawaits,
        noHuman_of_extractCrReviews hundisputed.2.2.1⟩

/-- A pull request that branch protection blocks, with an outdated review of a bot. -/
def blockedByGithub : PrSignals :=
  { reviewDecision := "CHANGES_REQUESTED".toList
    mergeable := "MERGEABLE".toList
    mergeState := "BLOCKED".toList
    latestReviews := [{ login := "coderabbitai".toList, state := "CHANGES_REQUESTED".toList }]
    allThreadsResolved := some true
    supersededByNewCommit := true }

/-- It is called ready, and it is not safe to merge. -/
theorem ready_while_blocked :
    ∃ (rollup : List CiContext) (s : PrSignals),
      computePrState s (summarizeCi rollup) = .approvedCiGreen ∧ s.mergeState = "BLOCKED".toList ∧
        ¬ SafeToMerge rollup s :=
  ⟨[.checkRun "COMPLETED".toList "SUCCESS".toList], blockedByGithub, by decide, rfl,
    fun h => h.blocked rfl⟩

end Dashboard

import SovaVerified.Supervisor.Proofs.ProgressionProofs

/-!
# One action for each issue

A queue that repeats an issue visits it twice. Whether both visits can end with an action depends on the state
of the issue, the automation flags and the number of slots; `Repeatable` says when, and the theorem that nothing
else matters.
-/

namespace Supervisor

open Adapters Dashboard

variable {cfg : ProgressionConfig} {cycle : CycleOutcomes} {effective : EffectiveGates} {o : VisitOutcomes}
  {issue n : Int} {state : TaskState} {slots : Int} {quota : Bool} {d : ProgressionDecision}
  {visits : Nat → Int → VisitOutcomes} {visit : Nat} {tasks : List (Int × Task)}

/-- The decision is an action for the issue. -/
def actsOn (n : Int) (d : ProgressionDecision) : Bool := d.issueNumber = n && d.action.isActionable

/-- No issue gets more than one action. -/
def OneActionEach (decisions : List ProgressionDecision) : Prop := ∀ n, decisions.countP (actsOn n) ≤ 1

/-- Two visits of an issue in this state can both end with an action. -/
def Repeatable (cfg : ProgressionConfig) : TaskState → Prop
  | .inProgress => True
  | .triaged => cfg.autoResearch = true ∧ 2 ≤ cfg.maxParallelAgents
  | .backlog => cfg.autoTriage = true ∧ 2 ≤ cfg.maxParallelAgents
  | .inReview => (cfg.autoIntegrate || cfg.autoAddressReview || cfg.autoReview) = true ∧ cfg.hasRepo = true ∧
      (2 ≤ cfg.maxParallelAgents ∨ (cfg.autoRebase = true ∧ 1 ≤ cfg.maxParallelAgents))
  | _ => False

theorem actsOn_iff : actsOn n d = true ↔ d.issueNumber = n ∧ d.action.isActionable = true := by
  unfold actsOn
  rw [Bool.and_eq_true, decide_eq_true_eq]

/-! ## At most one action -/

/-- An issue gets at most one decision for each of its places among the tasks. -/
theorem countP_actsOn_evaluateTasks (cfg : ProgressionConfig) (cycle : CycleOutcomes)
    (visits : Nat → Int → VisitOutcomes) (n : Int) (tasks : List (Int × Task)) (visit : Nat) (slots : Int)
    (quota : Bool) :
    (evaluateTasks cfg cycle visits visit slots quota tasks).countP (actsOn n) ≤ tasks.countP (·.1 = n) := by
  induction tasks generalizing visit slots quota with
  | nil => exact le_refl _
  | cons t rest ih =>
    obtain ⟨issue, task⟩ := t
    rw [evaluateTasks_cons]
    split
    · exact Nat.zero_le _
    · rw [List.countP_cons, List.countP_cons]
      refine Nat.add_le_add (ih _ _ _) ?_
      by_cases hissue : issue = n
      · rw [if_pos (decide_eq_true hissue)]
        split <;> omega
      · have hnot : ¬ actsOn n (evaluateSingle cfg issue task.state cycle (effectiveGates cfg cycle slots quota)
            (visits visit issue)) = true := by
          rw [actsOn_iff, issueNumber_evaluateSingle]
          exact fun h => hissue h.1
        rw [if_neg hnot]
        exact Nat.zero_le _

theorem countP_resolveTasks (cfg : ProgressionConfig) (graph : DependencyGraph) (n : Int) :
    (resolveTasks cfg graph).countP (·.1 = n) = if (graph.getTask n).isSome then cfg.taskQueue.count n else 0 := by
  unfold resolveTasks
  induction cfg.taskQueue with
  | nil => simp
  | cons q queue ih =>
    rw [List.filterMap_cons, List.count_cons]
    cases htask : graph.getTask q with
    | none =>
      rw [Option.map_none]
      dsimp only
      rw [ih]
      by_cases hq : q = n
      · subst hq
        rw [htask, Option.isSome_none, if_neg Bool.false_ne_true, if_neg Bool.false_ne_true]
      · have hbeq : (q == n) = false := beq_eq_false_iff_ne.mpr hq
        rw [hbeq, if_neg Bool.false_ne_true, Nat.add_zero]
    | some task =>
      rw [Option.map_some]
      dsimp only
      rw [List.countP_cons, ih]
      by_cases hq : q = n
      · subst hq
        rw [htask, Option.isSome_some, if_pos rfl, if_pos rfl, if_pos (decide_eq_true rfl),
          if_pos (beq_self_eq_true q)]
      · have hbeq : (q == n) = false := beq_eq_false_iff_ne.mpr hq
        rw [decide_eq_false hq, hbeq, if_neg Bool.false_ne_true, Nat.add_zero, Nat.add_zero]

theorem mem_resolveTasks {graph : DependencyGraph} {task : Task} (h : (n, task) ∈ resolveTasks cfg graph) :
    graph.getTask n = some task := by
  obtain ⟨q, -, hq⟩ := List.mem_filterMap.mp h
  obtain ⟨task', htask, heq⟩ := Option.map_eq_some_iff.mp hq
  obtain ⟨rfl, rfl⟩ := Prod.mk.inj heq
  exact htask

/-- The bounds on developers and on slots leave at most one action to an issue that is not repeatable. -/
theorem countP_actsOn_le_one {graph : DependencyGraph} {task : Task} (htask : graph.getTask n = some task)
    (hnot : ¬ Repeatable cfg task.state) :
    (evaluateTasks cfg cycle visits 0 (cfg.maxParallelAgents - cycle.alive) quota (resolveTasks cfg graph)).countP
      (actsOn n) ≤ 1 := by
  have halive : 0 ≤ cycle.alive := by
    unfold CycleOutcomes.alive
    exact Int.natCast_nonneg _
  have hslots := countP_consumesSlot_evaluateTasks cfg cycle visits
    (resolveTasks cfg graph) 0 (cfg.maxParallelAgents - cycle.alive) quota
  have hdevelopers := countP_developer_evaluateTasks cfg cycle visits
    (resolveTasks cfg graph) 0 (cfg.maxParallelAgents - cycle.alive) quota
  have hacts : ∀ d ∈ evaluateTasks cfg cycle visits 0 (cfg.maxParallelAgents - cycle.alive) quota
      (resolveTasks cfg graph), actsOn n d = true →
      Offered cfg task.state d.action ∧ 0 < cfg.maxParallelAgents := by
    intro d hd hn
    obtain ⟨rfl, hactionable⟩ := actsOn_iff.mp hn
    obtain ⟨task', visit', slots', quota', hmem, hdecided⟩ := mem_evaluateTasks hd
    rw [mem_resolveTasks hmem] at htask
    obtain rfl := Option.some.inj htask
    rcases hdecided with h | ⟨-, ⟨h, -⟩ | ⟨hoffered, hpassed⟩⟩
    · rw [hactionable] at h
      cases h
    · rw [h] at hnot
      exact absurd trivial hnot
    · exact ⟨hoffered, by have := (slots_of_passed hpassed).2; omega⟩
  generalize evaluateTasks cfg cycle visits 0 (cfg.maxParallelAgents - cycle.alive) quota
    (resolveTasks cfg graph) = decisions at hslots hdevelopers hacts ⊢
  -- an action that takes a slot is one of at most as many as there are slots
  have hone : (∀ d ∈ decisions, actsOn n d = true → d.action.consumesSlot = true ∧ cfg.maxParallelAgents ≤ 1) →
      decisions.countP (actsOn n) ≤ 1 := by
    intro h
    by_cases hmax : cfg.maxParallelAgents ≤ 1
    · have hmono := List.countP_mono_left fun d hd hn => (h d hd hn).1
      omega
    · refine le_of_eq_of_le (List.countP_eq_zero.mpr fun d hd hn => ?_) (Nat.zero_le 1)
      exact hmax (h d hd hn).2
  cases hstate : task.state with
  | inProgress =>
    rw [hstate] at hnot
    exact absurd trivial hnot
  | researched =>
    have hmono : decisions.countP (actsOn n) ≤ decisions.countP (fun d => d.action = .spawnDeveloper) := by
      refine List.countP_mono_left fun d hd hn => ?_
      have hoffered := (hacts d hd hn).1
      rw [hstate] at hoffered
      exact decide_eq_true hoffered
    refine hmono.trans (hdevelopers.trans ?_)
    split <;> omega
  | triaged | backlog =>
    refine hone fun d hd hn => ?_
    have hoffered := (hacts d hd hn).1
    rw [hstate] at hoffered hnot
    obtain ⟨hflag, haction⟩ := hoffered
    rw [haction]
    exact ⟨rfl, by by_contra hmax; exact hnot ⟨hflag, by omega⟩⟩
  | inReview =>
    refine hone fun d hd hn => ?_
    obtain ⟨hoffered, hpos⟩ := hacts d hd hn
    rw [hstate] at hoffered hnot
    obtain ⟨hflag, hrepo, hrefined⟩ := hoffered
    have hmax : cfg.maxParallelAgents ≤ 1 := by
      by_contra hmax
      exact hnot ⟨hflag, hrepo, .inl (by omega)⟩
    rcases hrefined with ⟨hslot, -⟩ | ⟨-, hrebase⟩
    · exact ⟨hslot, hmax⟩
    · exact absurd ⟨hflag, hrepo, .inr ⟨hrebase, by omega⟩⟩ hnot
  | onQa | done | needsSpec | humanOnly =>
    refine hone fun d hd hn => ?_
    have hoffered := (hacts d hd hn).1
    rw [hstate] at hoffered
    exact hoffered.elim

/-! ## Two actions -/

/-- The outcomes under which nothing is decided: an agent is at work on the issue. -/
def busy : VisitOutcomes := { alreadyRunning := some ⟨"already_running".toList, []⟩ }

/-- Only the visits of the given issue have these outcomes; the other issues are busy. -/
def only (n : Int) (o : VisitOutcomes) (_visit : Nat) (issue : Int) : VisitOutcomes := if issue = n then o else busy

theorem isActionable_evaluateSingle_busy (cfg : ProgressionConfig) (cycle : CycleOutcomes) (issue : Int)
    (state : TaskState) (effective : EffectiveGates) :
    (evaluateSingle cfg issue state cycle effective busy).action.isActionable = false := by
  rcases evaluateSingle_cases cfg issue state cycle effective busy with h | ⟨h, -⟩
  · exact h
  · cases h

theorem updateRemainingCapacity_of_not_actionable (h : d.action.isActionable = false) :
    updateRemainingCapacity d slots quota = (slots, quota) := by
  have hslot : ¬ d.action.consumesSlot = true := by
    intro hslot
    rw [isActionable_of_consumesSlot hslot] at h
    cases h
  unfold updateRemainingCapacity
  rw [if_neg hslot]

/-- When every visit of an issue that finds capacity ends with an action, there are as many actions for the issue
as its visits find capacity for. `P k slots` says that the slots are enough for `k` more of them. -/
theorem le_countP_actsOn {P : Nat → Int → Prop} (ho : o.rateLimit = none)
    (hpass : ∀ k slots quota, P (k + 1) slots →
      (evaluateSingle cfg n state cycle (effectiveGates cfg cycle slots quota) o).action.isActionable = true ∧
      P k (updateRemainingCapacity (evaluateSingle cfg n state cycle (effectiveGates cfg cycle slots quota) o)
        slots quota).1)
    (tasks : List (Int × Task)) (htasks : ∀ t ∈ tasks, t.1 = n → t.2.state = state) (k visit : Nat) (slots : Int)
    (quota : Bool) (hP : P k slots) (hk : k ≤ tasks.countP (·.1 = n)) :
    k ≤ (evaluateTasks cfg cycle (only n o) visit slots quota tasks).countP (actsOn n) := by
  induction tasks generalizing k visit slots quota with
  | nil => exact hk
  | cons t rest ih =>
    obtain ⟨issue, task⟩ := t
    have hrest : ∀ t ∈ rest, t.1 = n → t.2.state = state := fun t ht => htasks t (List.mem_cons_of_mem _ ht)
    rw [evaluateTasks_cons]
    rw [List.countP_cons] at hk
    by_cases hissue : issue = n
    · subst hissue
      have hstate : task.state = state := htasks _ List.mem_cons_self rfl
      have honly : only issue o visit issue = o := if_pos rfl
      rw [honly, ho, Option.isSome_none, if_neg Bool.false_ne_true, hstate]
      rw [if_pos (decide_eq_true rfl)] at hk
      cases k with
      | zero => exact Nat.zero_le _
      | succ k =>
        obtain ⟨hactionable, hnext⟩ := hpass k slots quota hP
        have hacts := actsOn_iff.mpr ⟨issueNumber_evaluateSingle cfg issue state cycle
          (effectiveGates cfg cycle slots quota) o, hactionable⟩
        have hind := ih hrest k (visit + 1) _ (updateRemainingCapacity (evaluateSingle cfg issue state cycle
          (effectiveGates cfg cycle slots quota) o) slots quota).2 hnext (Nat.le_of_succ_le_succ hk)
        rw [List.countP_cons, if_pos hacts]
        exact Nat.succ_le_succ hind
    · have honly : only n o visit issue = busy := if_neg hissue
      have hbusy := isActionable_evaluateSingle_busy cfg cycle issue task.state
        (effectiveGates cfg cycle slots quota)
      rw [decide_eq_false hissue, if_neg Bool.false_ne_true, Nat.add_zero] at hk
      have hind := ih hrest k (visit + 1) slots quota hP hk
      have hrate : busy.rateLimit = none := rfl
      rw [honly, hrate, Option.isSome_none, if_neg Bool.false_ne_true]
      dsimp only
      rw [updateRemainingCapacity_of_not_actionable hbusy, List.countP_cons]
      exact hind.trans (Nat.le_add_right _ _)

/-- A visit whose gates are all open. -/
theorem evaluateGated_open {candidate : ProgressionAction} (hdeveloper : candidate ≠ .spawnDeveloper)
    (hmax : 0 < cfg.maxParallelAgents) (hslots : 0 < slots) (issue : Int) (pr : Option Int) (quota : Bool)
    (verdict : Option SovaVerdict) (enrichedPr : Option PRData) (found : Option Int) :
    (evaluateGated cfg issue candidate pr {} (effectiveGates cfg {} slots quota)
      { pr := found, verdict := verdict, enrichedPr := enrichedPr }).action = candidate := by
  have hglobal : ¬ ({} : CycleOutcomes).alive ≥ cfg.maxParallelAgents := not_le.mpr hmax
  have hopen : (effectiveGates cfg {} slots quota).slots = none := by
    unfold effectiveGates effectiveGate globalSlots
    dsimp only
    rw [if_neg hglobal, decide_eq_false (not_le.mpr hslots)]
    rfl
  have hnone : collectGateBlockers cfg candidate {} (effectiveGates cfg {} slots quota)
      { pr := found, verdict := verdict, enrichedPr := enrichedPr } = [] := by
    have hbeq : (candidate == ProgressionAction.spawnDeveloper) = false := beq_eq_false_iff_ne.mpr hdeveloper
    unfold collectGateBlockers resolveGlobalGates
    dsimp only
    rw [hopen, hbeq]
    simp
  unfold evaluateGated
  rw [hnone]
  rfl

/-- A pull request was found, with its verdict and its record. -/
def reviewVisit (verdict : SovaVerdict) (pr : PRData) : VisitOutcomes :=
  { pr := some 1, verdict := some verdict, enrichedPr := some pr }

theorem refineInReviewAction_reviewVisit {verdict : SovaVerdict} {pr : PRData} (actionId : ActionId)
    (hrepo : cfg.hasRepo = true)
    (hresolved : (resolveNextAction (buildPRFacts pr (some verdict) cfg.externalReviewsEnabled
      cfg.maxAddressReviewCycles)).actionId = some actionId)
    (hflag : (actionIdToProgression cfg actionId).2 = true) :
    refineInReviewAction cfg (reviewVisit verdict pr) = ((actionIdToProgression cfg actionId).1, some 1) := by
  unfold refineInReviewAction reviewVisit
  dsimp only
  rw [if_pos hrepo]
  dsimp only
  rw [hresolved]
  dsimp only
  rw [if_pos hflag]

theorem budgetExhausted_fresh (facts : PRFacts) (hresolved : facts.reviewHistoryUnresolved = false)
    (hcycles : facts.addressCycles = 0) : budgetExhausted facts = false := by
  unfold budgetExhausted
  rw [hresolved, hcycles, Bool.false_or]
  by_cases h : facts.maxAddressCycles > 0
  · have hnot : ¬ ((0 : Nat) : Int) ≥ facts.maxAddressCycles := not_le.mpr h
    rw [decide_eq_false hnot, Bool.and_false]
  · rw [decide_eq_false h, Bool.false_and]

/-- Some pull request is refined to an action that starts an agent, whichever automation flag is on. -/
theorem exists_refined (hrepo : cfg.hasRepo = true)
    (hflag : (cfg.autoIntegrate || cfg.autoAddressReview || cfg.autoReview) = true) :
    ∃ candidate verdict pr, refineInReviewAction cfg (reviewVisit verdict pr) = (candidate, some 1) ∧
      candidate.consumesSlot = true ∧ candidate ≠ .spawnDeveloper := by
  rw [Bool.or_eq_true, Bool.or_eq_true] at hflag
  rcases hflag with (hintegrate | haddress) | hreview
  · -- approved, green and mergeable
    let verdict : SovaVerdict := { noReview with hasSovaReview := true, verdict := some "approve".toList }
    let pr : PRData := { ciStatus := .passed, mergeState := .clean }
    have hresolved : (resolveNextAction (buildPRFacts pr (some verdict) cfg.externalReviewsEnabled
        cfg.maxAddressReviewCycles)).actionId = some .integrate := by
      have hbudget := budgetExhausted_fresh (buildPRFacts pr (some verdict) cfg.externalReviewsEnabled
        cfg.maxAddressReviewCycles) rfl rfl
      unfold resolveNextAction
      rw [hbudget]
      rfl
    exact ⟨_, verdict, pr, refineInReviewAction_reviewVisit .integrate hrepo hresolved hintegrate, rfl,
      ProgressionAction.noConfusion⟩
  · -- the checks failed
    exact ⟨_, noReview, { ciStatus := .failed },
      refineInReviewAction_reviewVisit .addressPr hrepo rfl haddress, rfl, ProgressionAction.noConfusion⟩
  · -- green and without a review
    let pr : PRData := { ciStatus := .passed }
    have hresolved : (resolveNextAction (buildPRFacts pr (some noReview) cfg.externalReviewsEnabled
        cfg.maxAddressReviewCycles)).actionId = some .reviewPr := by
      have hbudget := budgetExhausted_fresh (buildPRFacts pr (some noReview) cfg.externalReviewsEnabled
        cfg.maxAddressReviewCycles) rfl rfl
      unfold resolveNextAction
      rw [hbudget]
      rfl
    exact ⟨_, noReview, pr, refineInReviewAction_reviewVisit .reviewPr hrepo hresolved hreview, rfl,
      ProgressionAction.noConfusion⟩

/-- A visit of an issue in review that finds capacity decides what its pull request is refined to. -/
theorem evaluateSingle_reviewVisit {verdict : SovaVerdict} {pr : PRData} {candidate : ProgressionAction}
    (hflag : (cfg.autoIntegrate || cfg.autoAddressReview || cfg.autoReview) = true)
    (hrefined : refineInReviewAction cfg (reviewVisit verdict pr) = (candidate, some 1))
    (hactionable : candidate.isActionable = true) (hdeveloper : candidate ≠ .spawnDeveloper)
    (hmax : 0 < cfg.maxParallelAgents) (hslots : 0 < slots) :
    (evaluateSingle cfg n .inReview {} (effectiveGates cfg {} slots quota) (reviewVisit verdict pr)).action =
      candidate := by
  have hwait : candidate ≠ .wait := by
    rintro rfl
    cases hactionable
  have hcheckpoint : candidate ≠ .checkpointNeeded := by
    rintro rfl
    cases hactionable
  rw [evaluateSingle_eq_inReview hflag]
  unfold evaluateInReview
  rw [hrefined]
  dsimp only
  rw [if_neg hwait, if_neg hcheckpoint]
  exact evaluateGated_open hdeveloper hmax hslots n _ quota _ _ _

/-- Two visits that each take a slot. -/
theorem two_le_of_spawn (candidate : ProgressionAction) (ho : o.rateLimit = none)
    (hslot : candidate.consumesSlot = true) (hmax : 2 ≤ cfg.maxParallelAgents)
    (haction : ∀ slots quota, 0 < slots →
      (evaluateSingle cfg n state {} (effectiveGates cfg {} slots quota) o).action = candidate)
    (htasks : ∀ t ∈ tasks, t.1 = n → t.2.state = state) (htwice : 2 ≤ tasks.countP (·.1 = n)) :
    2 ≤ (evaluateTasks cfg {} (only n o) 0 cfg.maxParallelAgents true tasks).countP (actsOn n) := by
  refine le_countP_actsOn (P := fun k slots => (k : Int) ≤ slots) ho (fun k slots quota hk => ?_) tasks htasks 2 0 _
    true hmax htwice
  have hpos : 0 < slots := by
    push_cast at hk
    omega
  have hdecided := haction slots quota hpos
  unfold updateRemainingCapacity
  rw [hdecided, if_pos hslot]
  exact ⟨isActionable_of_consumesSlot hslot, by push_cast at hk; dsimp only; omega⟩

/-- Two visits in a state whose transition starts an agent. -/
theorem two_le_of_transition {candidate : ProgressionAction}
    (htransition : determineTransition cfg state = some candidate)
    (hslot : candidate.consumesSlot = true) (hdeveloper : candidate ≠ .spawnDeveloper) (hreview : state ≠ .inReview)
    (hmax : 2 ≤ cfg.maxParallelAgents) (htasks : ∀ t ∈ tasks, t.1 = n → t.2.state = state)
    (htwice : 2 ≤ tasks.countP (·.1 = n)) :
    2 ≤ (evaluateTasks cfg {} (only n {}) 0 cfg.maxParallelAgents true tasks).countP (actsOn n) := by
  have hcheckpoint : candidate ≠ .checkpointNeeded := by
    rintro rfl
    cases hslot
  have hreset : candidate ≠ .resetStaleState := by
    rintro rfl
    cases hslot
  refine two_le_of_spawn candidate rfl hslot hmax (fun slots quota hslots => ?_) htasks htwice
  rw [evaluateSingle_eq_gated htransition hcheckpoint hreset hreview]
  exact evaluateGated_open hdeveloper (by omega) hslots n none quota none none none

/-- Two visits that take no slot, and need a free one only where `P` says so. -/
theorem two_le_of_free (candidate : ProgressionAction) (P : Int → Prop) (ho : o.rateLimit = none)
    (hactionable : candidate.isActionable = true) (hslot : candidate.consumesSlot = false)
    (haction : ∀ slots quota, P slots →
      (evaluateSingle cfg n state {} (effectiveGates cfg {} slots quota) o).action = candidate)
    (hP : P cfg.maxParallelAgents) (htasks : ∀ t ∈ tasks, t.1 = n → t.2.state = state)
    (htwice : 2 ≤ tasks.countP (·.1 = n)) :
    2 ≤ (evaluateTasks cfg {} (only n o) 0 cfg.maxParallelAgents true tasks).countP (actsOn n) := by
  refine le_countP_actsOn (P := fun _ slots => P slots) ho (fun k slots quota hk => ?_) tasks htasks 2 0 _ true hP
    htwice
  have hdecided := haction slots quota hk
  unfold updateRemainingCapacity
  rw [hdecided, hslot, if_neg Bool.false_ne_true]
  exact ⟨hactionable, hk⟩

/-- A repeatable issue that is queued twice can get two actions. -/
theorem exists_two_actions {graph : DependencyGraph} {task : Task} (htask : graph.getTask n = some task)
    (htwice : 2 ≤ cfg.taskQueue.count n) (hrepeatable : Repeatable cfg task.state) :
    ∃ visits, 2 ≤ (evaluateAll cfg (some graph) {} visits none).countP (actsOn n) := by
  have hall : ∀ visits, evaluateAll cfg (some graph) {} visits none =
      evaluateTasks cfg {} visits 0 cfg.maxParallelAgents true (resolveTasks cfg graph) := by
    intro visits
    have halive : cfg.maxParallelAgents - ({} : CycleOutcomes).alive = cfg.maxParallelAgents := Int.sub_zero _
    unfold evaluateAll
    rw [if_neg (by decide), halive]
    rfl
  have hcount : 2 ≤ (resolveTasks cfg graph).countP (·.1 = n) := by
    rw [countP_resolveTasks, htask, Option.isSome_some, if_pos rfl]
    exact htwice
  have htasks : ∀ t ∈ resolveTasks cfg graph, t.1 = n → t.2.state = task.state := by
    rintro ⟨issue, task'⟩ ht rfl
    have hsame := mem_resolveTasks ht
    rw [htask] at hsame
    rw [Option.some.inj hsame]
  cases hstate : task.state with
  | inProgress =>
    rw [hstate] at htasks
    refine ⟨only n {}, ?_⟩
    rw [hall]
    refine two_le_of_free .resetStaleState (fun _ => True) rfl rfl rfl (fun slots quota _ => ?_)
      trivial htasks hcount
    show (evaluateInProgress cfg n {} {}).action = .resetStaleState
    unfold evaluateInProgress
    cases cfg.hasRepo <;> rfl
  | triaged =>
    rw [hstate] at htasks hrepeatable
    obtain ⟨hflag, hmax⟩ := hrepeatable
    have htransition : determineTransition cfg .triaged = some .spawnResearcher := by
      unfold determineTransition
      rw [if_pos hflag]
    refine ⟨only n {}, ?_⟩
    rw [hall]
    exact two_le_of_transition htransition rfl ProgressionAction.noConfusion TaskState.noConfusion hmax htasks hcount
  | backlog =>
    rw [hstate] at htasks hrepeatable
    obtain ⟨hflag, hmax⟩ := hrepeatable
    have htransition : determineTransition cfg .backlog = some .spawnTriage := by
      unfold determineTransition
      rw [if_pos hflag]
    refine ⟨only n {}, ?_⟩
    rw [hall]
    exact two_le_of_transition htransition rfl ProgressionAction.noConfusion TaskState.noConfusion hmax htasks hcount
  | inReview =>
    rw [hstate] at htasks hrepeatable
    obtain ⟨hflag, hrepo, hmax⟩ := hrepeatable
    rcases hmax with hmax | ⟨hrebase, hmax⟩
    · obtain ⟨candidate, verdict, pr, hrefined, hslot, hdeveloper⟩ := exists_refined hrepo hflag
      refine ⟨only n (reviewVisit verdict pr), ?_⟩
      rw [hall]
      refine two_le_of_spawn candidate rfl hslot hmax (fun slots quota hslots => ?_) htasks hcount
      exact evaluateSingle_reviewVisit hflag hrefined (isActionable_of_consumesSlot hslot) hdeveloper (by omega) hslots
    · have hrefined : refineInReviewAction cfg (reviewVisit noReview { mergeable := .conflicting }) =
          (.spawnRebase, some 1) := refineInReviewAction_reviewVisit .rebase hrepo rfl hrebase
      refine ⟨only n (reviewVisit noReview { mergeable := .conflicting }), ?_⟩
      rw [hall]
      refine two_le_of_free .spawnRebase (fun slots => 0 < slots) rfl rfl rfl
        (fun slots quota hslots => ?_) (by omega) htasks hcount
      exact evaluateSingle_reviewVisit hflag hrefined rfl (by decide) (by omega) hslots
  | researched | onQa | done | needsSpec | humanOnly =>
    rw [hstate] at hrepeatable
    exact hrepeatable.elim

/-- A cycle has at most one action for each issue, whatever the gates and the plan say, exactly when no repeatable
issue of the graph is queued twice. -/
theorem evaluateAll_oneActionEach_iff (cfg : ProgressionConfig) (graph : DependencyGraph) :
    (∀ cycle visits plan, OneActionEach (evaluateAll cfg (some graph) cycle visits plan)) ↔
      ∀ n task, graph.getTask n = some task → Repeatable cfg task.state → cfg.taskQueue.count n ≤ 1 := by
  constructor
  · intro h n task htask hrepeatable
    by_contra htwice
    obtain ⟨visits, htwo⟩ := exists_two_actions htask (by omega) hrepeatable
    have hone := h {} visits none n
    omega
  · intro h cycle visits plan n
    refine countP_evaluateAll_le (fun d hwait => ?_) (some graph) plan fun g hg => ?_
    · unfold actsOn
      rw [hwait]
      exact Bool.and_false _
    · obtain rfl := Option.some.inj hg
      cases htask : graph.getTask n with
      | none =>
        have hplaces := countP_actsOn_evaluateTasks cfg cycle visits n
          (resolveTasks cfg graph) 0 (cfg.maxParallelAgents - cycle.alive) (!cycle.quota.isSome)
        rw [countP_resolveTasks, htask, Option.isSome_none, if_neg Bool.false_ne_true] at hplaces
        omega
      | some task =>
        by_cases hrepeatable : Repeatable cfg task.state
        · have hplaces := countP_actsOn_evaluateTasks cfg cycle visits n
            (resolveTasks cfg graph) 0 (cfg.maxParallelAgents - cycle.alive) (!cycle.quota.isSome)
          rw [countP_resolveTasks, htask, Option.isSome_some, if_pos rfl] at hplaces
          exact hplaces.trans (h n task htask hrepeatable)
        · exact countP_actsOn_le_one htask hrepeatable

/-- A queue with the same issue twice, triaged and to be researched: two researchers are started for it. -/
theorem evaluateAll_researches_twice :
    let cfg : ProgressionConfig := { autoResearch := true, taskQueue := [7, 7] }
    let graph : DependencyGraph := ⟨[(7, { number := some 7, state := .triaged })], []⟩
    (evaluateAll cfg (some graph) {} (fun _ _ => {}) none).map (fun d => (d.issueNumber, d.action)) =
        [(7, .spawnResearcher), (7, .spawnResearcher)] ∧
      ¬ OneActionEach (evaluateAll cfg (some graph) {} (fun _ _ => {}) none) := by
  intro cfg graph
  refine ⟨rfl, fun h => ?_⟩
  exact absurd (h 7) (by decide)

end Supervisor

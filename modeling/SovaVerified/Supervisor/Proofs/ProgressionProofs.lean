import SovaVerified.Supervisor.Progression

/-!
# What a plan leaves of the decisions

A plan takes decisions back and adds none: position by position, a decision stands or waits
(`applyPlan_subtracts`). Its entries approve pairs of an action and an issue, but whether the plan is
about this cycle at all is decided by the issues alone (`applyPlan_mismatched_iff`).
-/

namespace Supervisor

/-- The issue of an entry is the issue of a decision that can be acted on. -/
def NamesOffer (decisions : List ProgressionDecision) (actions : List PlannedAction) : Prop :=
  ∃ d ∈ decisions, d.action.isActionable = true ∧ ∃ a ∈ actions, a.issue = d.issueNumber

/-- The plan has the decision as one of its entries. -/
def Approves (actions : List PlannedAction) (d : ProgressionDecision) : Prop :=
  ⟨d.action.value, d.issueNumber⟩ ∈ actions

/-- What the filter puts in place of a decision. -/
def filtered (actions : List PlannedAction) (d : ProgressionDecision) : ProgressionDecision :=
  if !d.action.isActionable then d
  else if ⟨d.action.value, d.issueNumber⟩ ∈ actions then d
  else
    { issueNumber := d.issueNumber
      action := .wait
      reason := "not in LLM plan (deterministic: ".toList ++ d.action.value ++ ")".toList
      blockedBy := d.blockedBy
      prNumber := d.prNumber }

variable {decisions : List ProgressionDecision} {actions : List PlannedAction} {d : ProgressionDecision}

/-- A plan that has entries, but none for an offered issue, is not applied. -/
theorem applyPlan_eq_self (hplan : actions ≠ []) (h : ¬NamesOffer decisions actions) :
    applyPlan decisions actions = decisions := by
  unfold applyPlan
  dsimp only
  split_ifs with hdisjoint
  · rfl
  · -- Nothing can be acted on, so the filter has nothing to take back.
    have hnone : ∀ d ∈ decisions, d.action.isActionable = false := by
      by_contra hsome
      push Not at hsome
      obtain ⟨d, hd, haction⟩ := hsome
      rw [ne_eq, Bool.not_eq_false] at haction
      refine hdisjoint ⟨hplan, ?_, ?_⟩
      · exact List.ne_nil_of_mem (List.mem_filter.mpr ⟨hd, haction⟩)
      · refine List.all_eq_true.mpr fun a ha => List.all_eq_true.mpr fun d' hd' => ?_
        obtain ⟨hmem, haction'⟩ := List.mem_filter.mp hd'
        refine decide_eq_true fun heq => h ⟨d', hmem, haction', a, ha, heq.symm⟩
    refine (List.map_congr_left fun d hd => ?_).trans (List.map_id decisions)
    rw [hnone d hd]
    rfl

/-- Any other plan filters the decisions one by one. -/
theorem applyPlan_eq_map_filtered (h : actions = [] ∨ NamesOffer decisions actions) :
    applyPlan decisions actions = decisions.map (filtered actions) := by
  unfold applyPlan
  dsimp only
  rw [if_neg]
  · rfl
  · rintro ⟨hplan, -, hdisjoint⟩
    rcases h with h | ⟨d, hd, haction, a, ha, hissue⟩
    · exact hplan h
    · have hd' : d ∈ decisions.filter fun d => d.action.isActionable :=
        List.mem_filter.mpr ⟨hd, haction⟩
      have hne := List.all_eq_true.mp (List.all_eq_true.mp hdisjoint a ha) d hd'
      exact of_decide_eq_true hne hissue.symm

theorem applyPlan_cases (decisions : List ProgressionDecision) (actions : List PlannedAction) :
    applyPlan decisions actions = decisions ∨
      applyPlan decisions actions = decisions.map (filtered actions) := by
  by_cases h : actions = [] ∨ NamesOffer decisions actions
  · exact .inr (applyPlan_eq_map_filtered h)
  · rw [not_or] at h
    exact .inl (applyPlan_eq_self h.1 h.2)

/-- What becomes of a decision under a plan: it stands, or it could be acted on and waits. -/
structure Subtracted (d d' : ProgressionDecision) : Prop where
  issueNumber : d'.issueNumber = d.issueNumber
  blockedBy : d'.blockedBy = d.blockedBy
  prNumber : d'.prNumber = d.prNumber
  stands_or_waits : d' = d ∨ d.action.isActionable = true ∧ d'.action = .wait
  untouched : d.action.isActionable = false → d' = d

theorem Subtracted.refl (d : ProgressionDecision) : Subtracted d d :=
  ⟨rfl, rfl, rfl, .inl rfl, fun _ => rfl⟩

theorem subtracted_filtered (actions : List PlannedAction) (d : ProgressionDecision) :
    Subtracted d (filtered actions d) := by
  unfold filtered
  split_ifs with haction happroved
  · exact Subtracted.refl d
  · exact Subtracted.refl d
  · rw [Bool.not_eq_true', Bool.not_eq_false] at haction
    refine ⟨rfl, rfl, rfl, .inr ⟨haction, rfl⟩, fun h => ?_⟩
    exact absurd (haction.symm.trans h) Bool.true_eq_false.mp

/-- A plan goes through the decisions in place, and takes back what it does not approve. -/
theorem applyPlan_subtracts (decisions : List ProgressionDecision) (actions : List PlannedAction) :
    List.Forall₂ Subtracted decisions (applyPlan decisions actions) := by
  have hself : List.Forall₂ Subtracted decisions decisions :=
    List.forall₂_same.mpr fun d _ => Subtracted.refl d
  rcases applyPlan_cases decisions actions with h | h
  · rw [h]
    exact hself
  · rw [h, List.forall₂_map_right_iff]
    exact List.forall₂_same.mpr fun d _ => subtracted_filtered actions d

/-! ## Standstill -/

theorem isActionable_filtered_iff :
    (filtered actions d).action.isActionable = true ↔ d.action.isActionable = true ∧ Approves actions d := by
  unfold filtered Approves
  split_ifs with haction happroved
  · rw [Bool.not_eq_true'] at haction
    simp [haction]
  · exact (and_iff_left happroved).symm
  · exact iff_of_false (by simp [ProgressionAction.isActionable]) fun h => happroved h.2

/-- A plan that approves no offered decision leaves something to act on exactly when it names no offered
issue, and then it leaves everything. -/
theorem applyPlan_mismatched_iff (decisions : List ProgressionDecision) (actions : List PlannedAction)
    (hoffered : ∃ d ∈ decisions, d.action.isActionable = true) (hplan : actions ≠ [])
    (hmismatch : ∀ d ∈ decisions, d.action.isActionable = true → ¬Approves actions d) :
    ((∃ d ∈ applyPlan decisions actions, d.action.isActionable = true) ↔
        ¬NamesOffer decisions actions) ∧
      (¬NamesOffer decisions actions → applyPlan decisions actions = decisions) := by
  have hself : ¬NamesOffer decisions actions → applyPlan decisions actions = decisions :=
    fun h => applyPlan_eq_self hplan h
  refine ⟨⟨?_, fun h => ?_⟩, hself⟩
  · rintro ⟨d', hd', haction⟩ hnames
    rw [applyPlan_eq_map_filtered (.inr hnames)] at hd'
    obtain ⟨d, hd, rfl⟩ := List.mem_map.mp hd'
    obtain ⟨haction, happroved⟩ := isActionable_filtered_iff.mp haction
    exact hmismatch d hd haction happroved
  · rw [hself h]
    exact hoffered

def researchDecision : ProgressionDecision := { issueNumber := 1, action := .spawnResearcher }

theorem applyPlan_other_issue :
    ((∃ d ∈ applyPlan [researchDecision] [⟨"spawn_developer".toList, 2⟩], d.action.isActionable = true) ↔
        ¬NamesOffer [researchDecision] [⟨"spawn_developer".toList, 2⟩]) ∧
      (¬NamesOffer [researchDecision] [⟨"spawn_developer".toList, 2⟩] →
        applyPlan [researchDecision] [⟨"spawn_developer".toList, 2⟩] = [researchDecision]) := by
  refine applyPlan_mismatched_iff [researchDecision] [⟨"spawn_developer".toList, 2⟩]
    ⟨researchDecision, List.mem_singleton.mpr rfl, rfl⟩ (List.cons_ne_nil _ _) ?_
  intro d hd _
  obtain rfl := List.mem_singleton.mp hd
  unfold Approves
  decide

/-- A plan with another action for the offered issue leaves nothing to act on. -/
theorem applyPlan_other_action :
    ¬∀ (decisions : List ProgressionDecision) (actions : List PlannedAction),
      (∃ d ∈ decisions, d.action.isActionable = true) → actions ≠ [] →
      (∀ d ∈ decisions, d.action.isActionable = true → ¬Approves actions d) →
      ∃ d ∈ applyPlan decisions actions, d.action.isActionable = true := by
  intro h
  have hleft := h [researchDecision] [⟨"spawn_developer".toList, 1⟩]
    ⟨researchDecision, List.mem_singleton.mpr rfl, rfl⟩ (List.cons_ne_nil _ _) ?_
  · revert hleft
    decide
  · intro d hd _
    obtain rfl := List.mem_singleton.mp hd
    unfold Approves
    decide

end Supervisor

/-!
# What a cycle of the progression engine can decide

`evaluateSingle_cases` says once which decisions a visit can end with and what it found of the gates; the
bounds on slots, on developers and on the actions for one issue are derived from it.
-/

namespace Supervisor

open Adapters Dashboard

variable {cfg : ProgressionConfig} {cycle : CycleOutcomes} {effective : EffectiveGates} {o : VisitOutcomes}
  {issue n : Int} {state : TaskState} {slots : Int} {quota : Bool} {d : ProgressionDecision}

/-! ## One visit -/

/-- The gates that a candidate has to pass in a cycle are open. -/
structure Passed (cycle : CycleOutcomes) (effective : EffectiveGates) (action : ProgressionAction) : Prop where
  slots : effective.slots = none
  memory : cycle.memory = none
  developer : action = .spawnDeveloper → effective.quota = none ∧ cycle.ciBudget = none

/-- The actions that the state of an issue offers under the automation flags. -/
def Offered (cfg : ProgressionConfig) : TaskState → ProgressionAction → Prop
  | .triaged, action => cfg.autoResearch = true ∧ action = .spawnResearcher
  | .researched, action => action = .spawnDeveloper
  | .backlog, action => cfg.autoTriage = true ∧ action = .spawnTriage
  | .inReview, action => (cfg.autoIntegrate || cfg.autoAddressReview || cfg.autoReview) = true ∧ cfg.hasRepo = true ∧
      ((action.consumesSlot = true ∧ action ≠ .spawnDeveloper) ∨ (action = .spawnRebase ∧ cfg.autoRebase = true))
  | _, _ => False

theorem passed_of_collectGateBlockers {candidate : ProgressionAction}
    (h : collectGateBlockers cfg candidate cycle effective o = []) :
    Passed cycle effective candidate ∧ o.alreadyRunning = none := by
  unfold collectGateBlockers at h
  cases hrate : cycle.rateLimit with
  | some block =>
    rw [hrate] at h
    cases h
  | none =>
    rw [hrate] at h
    simp only [List.append_eq_nil_iff, Option.toList_eq_nil_iff, resolveGlobalGates] at h
    obtain ⟨⟨⟨⟨⟨⟨⟨-, hrunning⟩, -⟩, -⟩, -⟩, -⟩, -⟩, -⟩ := h.1
    obtain ⟨⟨⟨⟨-, hquota⟩, hci⟩, hslots⟩, hmemory⟩ := h.2
    refine ⟨⟨hslots, hmemory, ?_⟩, hrunning⟩
    rintro rfl
    rw [beq_self_eq_true, if_pos rfl, Option.toList_eq_nil_iff] at hquota hci
    exact ⟨hquota, hci⟩

theorem evaluateGated_cases (cfg : ProgressionConfig) (issue : Int) (candidate : ProgressionAction)
    (refinedPr : Option Int) (cycle : CycleOutcomes) (effective : EffectiveGates) (o : VisitOutcomes) :
    (evaluateGated cfg issue candidate refinedPr cycle effective o).action = .blocked ∨
      ((evaluateGated cfg issue candidate refinedPr cycle effective o).action = candidate ∧
        Passed cycle effective candidate ∧ o.alreadyRunning = none) := by
  unfold evaluateGated
  dsimp only
  split
  · exact .inl rfl
  next h => exact .inr ⟨rfl, passed_of_collectGateBlockers (not_not.mp h)⟩

theorem evaluateInProgress_cases (cfg : ProgressionConfig) (issue : Int) (cycle : CycleOutcomes) (o : VisitOutcomes) :
    (evaluateInProgress cfg issue cycle o).action.isActionable = false ∨
      ((evaluateInProgress cfg issue cycle o).action.consumesSlot = false ∧ o.alreadyRunning = none) := by
  unfold evaluateInProgress
  dsimp only
  cases o.alreadyRunning with
  | some alive => exact .inl rfl
  | none =>
    cases cycle.rateLimit with
    | some block => exact .inl rfl
    | none =>
      dsimp only
      split
      · cases o.checkedPr with
        | raised => exact .inl rfl
        | found pr => exact .inr ⟨rfl, rfl⟩
        | noPr => exact .inr ⟨rfl, rfl⟩
      · exact .inr ⟨rfl, rfl⟩

/-- What an issue in review is refined to. -/
theorem refineInReviewAction_cases (cfg : ProgressionConfig) (o : VisitOutcomes) :
    (refineInReviewAction cfg o).1 = .wait ∨ (refineInReviewAction cfg o).1 = .checkpointNeeded ∨
      (cfg.hasRepo = true ∧
        (((refineInReviewAction cfg o).1.consumesSlot = true ∧ (refineInReviewAction cfg o).1 ≠ .spawnDeveloper) ∨
          ((refineInReviewAction cfg o).1 = .spawnRebase ∧ cfg.autoRebase = true))) := by
  unfold refineInReviewAction
  cases hrepo : cfg.hasRepo with
  | false => exact .inl rfl
  | true =>
    rw [if_pos rfl]
    cases o.pr with
    | none => exact .inl rfl
    | some pr =>
      right
      dsimp only
      split
      · split
        · exact .inl rfl
        next actionId _ =>
          cases hflag : (actionIdToProgression cfg actionId).2 with
          | false => exact .inl rfl
          | true =>
            refine .inr ⟨rfl, ?_⟩
            rw [if_pos rfl]
            cases actionId with
            | rebase => exact .inr ⟨rfl, hflag⟩
            | addressPr => exact .inl ⟨rfl, ProgressionAction.noConfusion⟩
            | integrate => exact .inl ⟨rfl, ProgressionAction.noConfusion⟩
            | addressReview => exact .inl ⟨rfl, ProgressionAction.noConfusion⟩
            | reviewPr => exact .inl ⟨rfl, ProgressionAction.noConfusion⟩
      · exact .inl rfl

/-- A decision that is not actionable, or one that the state offers and the gates let through. -/
def Decided (cfg : ProgressionConfig) (state : TaskState) (cycle : CycleOutcomes) (effective : EffectiveGates)
    (o : VisitOutcomes) (action : ProgressionAction) : Prop :=
  action.isActionable = false ∨
    (o.alreadyRunning = none ∧
      ((state = .inProgress ∧ action.consumesSlot = false) ∨
        (Offered cfg state action ∧ Passed cycle effective action)))

theorem decided_evaluateGated {candidate : ProgressionAction} (hoffered : Offered cfg state candidate)
    (issue : Int) (refinedPr : Option Int) :
    Decided cfg state cycle effective o (evaluateGated cfg issue candidate refinedPr cycle effective o).action := by
  rcases evaluateGated_cases cfg issue candidate refinedPr cycle effective o with h | ⟨h, hpassed, hrunning⟩
  · rw [h]
    exact .inl rfl
  · rw [h]
    exact .inr ⟨hrunning, .inr ⟨hoffered, hpassed⟩⟩

theorem decided_evaluateInReview (hflag : (cfg.autoIntegrate || cfg.autoAddressReview || cfg.autoReview) = true)
    (issue : Int) :
    Decided cfg .inReview cycle effective o (evaluateInReview cfg issue cycle effective o).action := by
  have hrefine := refineInReviewAction_cases cfg o
  unfold evaluateInReview
  dsimp only
  split
  · exact .inl rfl
  next hwait =>
    split
    · exact .inl rfl
    next hcheckpoint =>
      have hoffered : Offered cfg .inReview (refineInReviewAction cfg o).1 :=
        ⟨hflag, (hrefine.resolve_left hwait).resolve_left hcheckpoint⟩
      exact decided_evaluateGated hoffered issue _

theorem evaluateSingle_eq_checkpoint (h : determineTransition cfg state = some .checkpointNeeded) :
    evaluateSingle cfg issue state cycle effective o = checkpointDecision issue state := by
  unfold evaluateSingle
  rw [h]
  rfl

theorem evaluateSingle_eq_gated {candidate : ProgressionAction} (h : determineTransition cfg state = some candidate)
    (hcheckpoint : candidate ≠ .checkpointNeeded) (hreset : candidate ≠ .resetStaleState)
    (hreview : state ≠ .inReview) :
    evaluateSingle cfg issue state cycle effective o =
      evaluateGated cfg issue candidate none cycle effective o := by
  unfold evaluateSingle
  rw [h]
  dsimp only
  rw [if_neg hcheckpoint, if_neg hreset, if_neg fun hboth => hreview hboth.1]

theorem evaluateSingle_eq_inReview (hflag : (cfg.autoIntegrate || cfg.autoAddressReview || cfg.autoReview) = true) :
    evaluateSingle cfg issue .inReview cycle effective o = evaluateInReview cfg issue cycle effective o := by
  unfold evaluateSingle determineTransition
  rw [if_pos hflag]
  rfl

/-- A state whose automation flag chooses between an action and a checkpoint. -/
theorem decided_of_flag {flag : Bool} {candidate : ProgressionAction} (hreview : state ≠ .inReview)
    (htransition : determineTransition cfg state = some (if flag then candidate else .checkpointNeeded))
    (hspawn : candidate.consumesSlot = true) (hoffered : flag = true → Offered cfg state candidate) (issue : Int) :
    Decided cfg state cycle effective o (evaluateSingle cfg issue state cycle effective o).action := by
  cases hflag : flag with
  | false =>
    rw [hflag] at htransition
    rw [evaluateSingle_eq_checkpoint htransition]
    exact .inl rfl
  | true =>
    rw [hflag, if_pos rfl] at htransition
    have hcheckpoint : candidate ≠ .checkpointNeeded := by
      rintro rfl
      cases hspawn
    have hreset : candidate ≠ .resetStaleState := by
      rintro rfl
      cases hspawn
    rw [evaluateSingle_eq_gated htransition hcheckpoint hreset hreview]
    exact decided_evaluateGated (hoffered hflag) issue none

/-- What a visit can decide to do, and what it found of the gates. -/
theorem evaluateSingle_cases (cfg : ProgressionConfig) (issue : Int) (state : TaskState) (cycle : CycleOutcomes)
    (effective : EffectiveGates) (o : VisitOutcomes) :
    Decided cfg state cycle effective o (evaluateSingle cfg issue state cycle effective o).action := by
  cases state with
  | triaged =>
    have hoffered : cfg.autoResearch = true → Offered cfg .triaged .spawnResearcher := fun h => ⟨h, rfl⟩
    exact decided_of_flag (by decide) rfl rfl hoffered issue
  | researched =>
    have hoffered : cfg.autoDevelop = true → Offered cfg .researched .spawnDeveloper := fun _ => rfl
    exact decided_of_flag (by decide) rfl rfl hoffered issue
  | backlog =>
    have hoffered : cfg.autoTriage = true → Offered cfg .backlog .spawnTriage := fun h => ⟨h, rfl⟩
    exact decided_of_flag (by decide) rfl rfl hoffered issue
  | inReview =>
    cases hflag : cfg.autoIntegrate || cfg.autoAddressReview || cfg.autoReview with
    | false =>
      have htransition : determineTransition cfg .inReview = some .checkpointNeeded := by
        unfold determineTransition
        rw [hflag]
        rfl
      rw [evaluateSingle_eq_checkpoint htransition]
      exact .inl rfl
    | true =>
      rw [evaluateSingle_eq_inReview hflag]
      exact decided_evaluateInReview hflag issue
  | inProgress =>
    have heq : evaluateSingle cfg issue .inProgress cycle effective o = evaluateInProgress cfg issue cycle o := rfl
    rw [heq]
    rcases evaluateInProgress_cases cfg issue cycle o with h | ⟨h, hrunning⟩
    · exact .inl h
    · exact .inr ⟨hrunning, .inl ⟨rfl, h⟩⟩
  | onQa => exact .inl rfl
  | done => exact .inl rfl
  | needsSpec => exact .inl rfl
  | humanOnly => exact .inl rfl

theorem issueNumber_evaluateSingle (cfg : ProgressionConfig) (issue : Int) (state : TaskState) (cycle : CycleOutcomes)
    (effective : EffectiveGates) (o : VisitOutcomes) :
    (evaluateSingle cfg issue state cycle effective o).issueNumber = issue := by
  have hgated : ∀ candidate pr, (evaluateGated cfg issue candidate pr cycle effective o).issueNumber = issue := by
    intro candidate pr
    unfold evaluateGated
    dsimp only
    split <;> rfl
  unfold evaluateSingle
  split
  · rfl
  · split
    · rfl
    · split
      · unfold evaluateInProgress
        dsimp only
        repeat' split
        all_goals rfl
      · split
        · unfold evaluateInReview
          dsimp only
          split
          · rfl
          · split
            · rfl
            · exact hgated _ _
        · exact hgated _ _

/-! ## Capacity -/

theorem isActionable_of_consumesSlot {action : ProgressionAction} (h : action.consumesSlot = true) :
    action.isActionable = true := by
  cases action <;> first | rfl | cases h

theorem Decided.passed {action : ProgressionAction} (h : Decided cfg state cycle effective o action)
    (hslot : action.consumesSlot = true) : Passed cycle effective action := by
  rcases h with h | ⟨-, ⟨-, h⟩ | ⟨-, h⟩⟩
  · rw [isActionable_of_consumesSlot hslot] at h
    cases h
  · rw [hslot] at h
    cases h
  · exact h

theorem slots_of_passed {action : ProgressionAction}
    (h : Passed cycle (effectiveGates cfg cycle slots quota) action) :
    0 < slots ∧ cycle.alive < cfg.maxParallelAgents := by
  have hslots := h.slots
  unfold effectiveGates effectiveGate globalSlots at hslots
  dsimp only at hslots
  by_cases hglobal : cycle.alive ≥ cfg.maxParallelAgents
  · rw [if_pos hglobal] at hslots
    cases hslots
  · rw [if_neg hglobal] at hslots
    by_cases hexhausted : slots ≤ 0
    · rw [decide_eq_true hexhausted, if_pos rfl] at hslots
      cases hslots
    · exact ⟨not_le.mp hexhausted, not_le.mp hglobal⟩

theorem quota_of_passed (h : Passed cycle (effectiveGates cfg cycle slots quota) .spawnDeveloper) :
    quota = true ∧ cycle.quota = none ∧ cycle.ciBudget = none := by
  obtain ⟨hquota, hci⟩ := h.developer rfl
  unfold effectiveGates effectiveGate at hquota
  dsimp only at hquota
  cases hglobal : cycle.quota with
  | some block =>
    rw [hglobal] at hquota
    cases hquota
  | none =>
    rw [hglobal] at hquota
    cases quota with
    | false => cases hquota
    | true => exact ⟨rfl, rfl, hci⟩

variable {visits : Nat → Int → VisitOutcomes} {visit : Nat} {tasks : List (Int × Task)}

theorem evaluateTasks_cons (task : Task) (rest : List (Int × Task)) :
    evaluateTasks cfg cycle visits visit slots quota ((issue, task) :: rest) =
      if (visits visit issue).rateLimit.isSome then []
      else
        let decision := evaluateSingle cfg issue task.state cycle (effectiveGates cfg cycle slots quota)
          (visits visit issue)
        decision :: evaluateTasks cfg cycle visits (visit + 1) (updateRemainingCapacity decision slots quota).1
          (updateRemainingCapacity decision slots quota).2 rest := rfl

/-- Every decision of a cycle was made by one visit of a task. -/
theorem mem_evaluateTasks (h : d ∈ evaluateTasks cfg cycle visits visit slots quota tasks) :
    ∃ task visit' slots' quota', (d.issueNumber, task) ∈ tasks ∧
      Decided cfg task.state cycle (effectiveGates cfg cycle slots' quota') (visits visit' d.issueNumber) d.action := by
  induction tasks generalizing visit slots quota with
  | nil => cases h
  | cons t rest ih =>
    obtain ⟨issue, task⟩ := t
    rw [evaluateTasks_cons] at h
    split at h
    · cases h
    · rcases List.mem_cons.mp h with rfl | h
      · refine ⟨task, visit, slots, quota, ?_, ?_⟩
        · rw [issueNumber_evaluateSingle]
          exact List.mem_cons_self
        · rw [issueNumber_evaluateSingle]
          exact evaluateSingle_cases cfg issue task.state cycle _ _
      · obtain ⟨task', visit', slots', quota', hmem, hdecided⟩ := ih h
        exact ⟨task', visit', slots', quota', List.mem_cons_of_mem _ hmem, hdecided⟩

/-- The loop gives out no more slots than there are. -/
theorem countP_consumesSlot_evaluateTasks (cfg : ProgressionConfig) (cycle : CycleOutcomes)
    (visits : Nat → Int → VisitOutcomes) (tasks : List (Int × Task)) (visit : Nat) (slots : Int) (quota : Bool) :
    ((evaluateTasks cfg cycle visits visit slots quota tasks).countP fun d => d.action.consumesSlot : Int) ≤
      max 0 slots := by
  induction tasks generalizing visit slots quota with
  | nil => exact le_max_left 0 slots
  | cons t rest ih =>
    obtain ⟨issue, task⟩ := t
    rw [evaluateTasks_cons]
    split
    · exact le_max_left 0 slots
    · dsimp only
      have hdecided := evaluateSingle_cases cfg issue task.state cycle (effectiveGates cfg cycle slots quota)
        (visits visit issue)
      generalize evaluateSingle cfg issue task.state cycle (effectiveGates cfg cycle slots quota)
        (visits visit issue) = d at hdecided
      unfold updateRemainingCapacity
      cases hslot : d.action.consumesSlot with
      | true =>
        have hpos := (slots_of_passed (hdecided.passed hslot)).1
        rw [List.countP_cons]
        rw [if_pos hslot, if_pos rfl]
        have hrest := ih (visit + 1) (slots - 1) (if d.action = .spawnDeveloper then false else quota)
        push_cast
        omega
      | false =>
        rw [List.countP_cons]
        rw [hslot, if_neg Bool.false_ne_true, Nat.add_zero]
        exact ih (visit + 1) slots quota

/-- A developer takes the quota with it. -/
theorem countP_developer_evaluateTasks (cfg : ProgressionConfig) (cycle : CycleOutcomes)
    (visits : Nat → Int → VisitOutcomes) (tasks : List (Int × Task)) (visit : Nat) (slots : Int) (quota : Bool) :
    (evaluateTasks cfg cycle visits visit slots quota tasks).countP (fun d => d.action = .spawnDeveloper) ≤
      if quota then 1 else 0 := by
  induction tasks generalizing visit slots quota with
  | nil => exact Nat.zero_le _
  | cons t rest ih =>
    obtain ⟨issue, task⟩ := t
    rw [evaluateTasks_cons]
    split
    · exact Nat.zero_le _
    · dsimp only
      have hdecided := evaluateSingle_cases cfg issue task.state cycle (effectiveGates cfg cycle slots quota)
        (visits visit issue)
      generalize evaluateSingle cfg issue task.state cycle (effectiveGates cfg cycle slots quota)
        (visits visit issue) = d at hdecided
      unfold updateRemainingCapacity
      by_cases hdeveloper : d.action = .spawnDeveloper
      · have hslot : d.action.consumesSlot = true := by
          rw [hdeveloper]
          rfl
        obtain ⟨rfl, -, -⟩ := quota_of_passed (hdeveloper ▸ hdecided.passed hslot)
        rw [List.countP_cons]
        rw [if_pos (decide_eq_true hdeveloper), if_pos hslot, if_pos hdeveloper]
        have hrest := ih (visit + 1) (slots - 1) false
        rw [if_neg Bool.false_ne_true] at hrest
        rw [if_pos rfl, Nat.le_zero.mp hrest]
      · rw [List.countP_cons]
        rw [decide_eq_false hdeveloper, if_neg hdeveloper, if_neg Bool.false_ne_true, Nat.add_zero]
        split
        · exact ih (visit + 1) (slots - 1) quota
        · exact ih (visit + 1) slots quota

/-! ## The plan -/

/-- A plan leaves each decision as it is, or turns it into waiting. -/
theorem applyPlan_eq_map (decisions : List ProgressionDecision) (actions : List PlannedAction) :
    ∃ f : ProgressionDecision → ProgressionDecision, applyPlan decisions actions = decisions.map f ∧
      ∀ d, f d = d ∨ ((f d).action = .wait ∧ (f d).issueNumber = d.issueNumber) := by
  rcases applyPlan_cases decisions actions with h | h
  · exact ⟨id, h.trans (List.map_id decisions).symm, fun d => .inl rfl⟩
  · refine ⟨filtered actions, h, fun d => ?_⟩
    have hsubtracted := subtracted_filtered actions d
    exact hsubtracted.stands_or_waits.imp_right fun hwaits => ⟨hwaits.2, hsubtracted.issueNumber⟩

/-- Either nothing is decided, or the decisions are those of the loop, some of them turned into waiting. -/
theorem evaluateAll_cases (cfg : ProgressionConfig) (graph : Option DependencyGraph) (cycle : CycleOutcomes)
    (visits : Nat → Int → VisitOutcomes) (plan : Option (List PlannedAction)) :
    evaluateAll cfg graph cycle visits plan = [] ∨
      ∃ g f, graph = some g ∧
        evaluateAll cfg graph cycle visits plan = (evaluateTasks cfg cycle visits 0
          (cfg.maxParallelAgents - cycle.alive) (!cycle.quota.isSome) (resolveTasks cfg g)).map f ∧
        ∀ d, f d = d ∨ ((f d).action = .wait ∧ (f d).issueNumber = d.issueNumber) := by
  unfold evaluateAll
  split
  · exact .inl rfl
  · cases graph with
    | none => exact .inl rfl
    | some g =>
      right
      cases plan with
      | none => exact ⟨g, id, rfl, (List.map_id _).symm, fun d => .inl rfl⟩
      | some actions =>
        obtain ⟨f, hmap, hf⟩ := applyPlan_eq_map (evaluateTasks cfg cycle visits 0
          (cfg.maxParallelAgents - cycle.alive) (!cycle.quota.isSome) (resolveTasks cfg g)) actions
        exact ⟨g, f, rfl, hmap, hf⟩

/-- What a bound counts does not wait, so a plan does not add to it. -/
theorem countP_map_le {p : ProgressionDecision → Bool} {f : ProgressionDecision → ProgressionDecision}
    (hwait : ∀ d, d.action = .wait → p d = false)
    (hf : ∀ d, f d = d ∨ ((f d).action = .wait ∧ (f d).issueNumber = d.issueNumber))
    (decisions : List ProgressionDecision) : (decisions.map f).countP p ≤ decisions.countP p := by
  rw [List.countP_map]
  refine List.countP_mono_left fun d _ hp => ?_
  rcases hf d with h | ⟨h, -⟩
  · rw [Function.comp_apply, h] at hp
    exact hp
  · rw [Function.comp_apply, hwait (f d) h] at hp
    cases hp

/-! ## The cycle -/

/-- A bound on the loop is a bound on the cycle. -/
theorem countP_evaluateAll_le {p : ProgressionDecision → Bool} {bound : Nat}
    (hwait : ∀ d, d.action = .wait → p d = false) (graph : Option DependencyGraph)
    (plan : Option (List PlannedAction))
    (hloop : ∀ g, graph = some g → (evaluateTasks cfg cycle visits 0 (cfg.maxParallelAgents - cycle.alive)
      (!cycle.quota.isSome) (resolveTasks cfg g)).countP p ≤ bound) :
    (evaluateAll cfg graph cycle visits plan).countP p ≤ bound := by
  rcases evaluateAll_cases cfg graph cycle visits plan with h | ⟨g, f, hg, h, hf⟩
  · rw [h]
    exact Nat.zero_le bound
  · rw [h]
    exact (countP_map_le hwait hf _).trans (hloop g hg)

/-- A decision of a cycle that does not wait was made by one visit of a queued task. -/
theorem mem_evaluateAll {graph : Option DependencyGraph} {plan : Option (List PlannedAction)}
    (h : d ∈ evaluateAll cfg graph cycle visits plan) (hwait : d.action ≠ .wait) :
    ∃ g task visit slots quota, graph = some g ∧ (d.issueNumber, task) ∈ resolveTasks cfg g ∧
      Decided cfg task.state cycle (effectiveGates cfg cycle slots quota) (visits visit d.issueNumber) d.action := by
  rcases evaluateAll_cases cfg graph cycle visits plan with hnil | ⟨g, f, hg, hmap, hf⟩
  · rw [hnil] at h
    cases h
  · rw [hmap] at h
    obtain ⟨d', hd', rfl⟩ := List.mem_map.mp h
    rcases hf d' with hsame | ⟨hwaits, -⟩
    · rw [hsame] at hwait ⊢
      obtain ⟨task, visit, slots, quota, hmem, hdecided⟩ := mem_evaluateTasks hd'
      exact ⟨g, task, visit, slots, quota, hg, hmem, hdecided⟩
    · exact absurd hwaits hwait

/-- A cycle starts no more agents than there are free slots, and at most one developer. It starts none under
memory pressure, and no developer while the quota or the CI budget is exhausted. -/
theorem evaluateAll_capacity (cfg : ProgressionConfig) (graph : Option DependencyGraph) (cycle : CycleOutcomes)
    (visits : Nat → Int → VisitOutcomes) (plan : Option (List PlannedAction)) :
    ((evaluateAll cfg graph cycle visits plan).countP fun d => d.action.consumesSlot : Int) ≤
        max 0 (cfg.maxParallelAgents - cycle.alive) ∧
      (evaluateAll cfg graph cycle visits plan).countP (fun d => d.action = .spawnDeveloper) ≤ 1 ∧
      ∀ d ∈ evaluateAll cfg graph cycle visits plan,
        (d.action.consumesSlot = true → cycle.memory = none) ∧
        (d.action = .spawnDeveloper → cycle.quota = none ∧ cycle.ciBudget = none) := by
  have hpassed : ∀ d ∈ evaluateAll cfg graph cycle visits plan, d.action.consumesSlot = true →
      ∃ slots quota, Passed cycle (effectiveGates cfg cycle slots quota) d.action := by
    intro d hd hslot
    have hwait : d.action ≠ .wait := by
      intro h
      rw [h] at hslot
      cases hslot
    obtain ⟨-, task, visit, slots, quota, -, -, hdecided⟩ := mem_evaluateAll hd hwait
    exact ⟨slots, quota, hdecided.passed hslot⟩
  refine ⟨?_, ?_, fun d hd => ⟨fun hslot => ?_, fun hdeveloper => ?_⟩⟩
  · have hbound : (evaluateAll cfg graph cycle visits plan).countP (fun d => d.action.consumesSlot) ≤
        (max 0 (cfg.maxParallelAgents - cycle.alive)).toNat := by
      refine countP_evaluateAll_le (fun d h => by rw [h]; rfl) graph plan fun g _ => ?_
      have hloop := countP_consumesSlot_evaluateTasks cfg cycle visits (resolveTasks cfg g) 0
        (cfg.maxParallelAgents - cycle.alive) (!cycle.quota.isSome)
      omega
    omega
  · refine countP_evaluateAll_le (fun d h => by rw [h]; rfl) graph plan fun g _ => ?_
    refine (countP_developer_evaluateTasks cfg cycle visits (resolveTasks cfg g) 0 _ _).trans ?_
    split <;> omega
  · obtain ⟨slots, quota, h⟩ := hpassed d hd hslot
    exact h.memory
  · have hslot : d.action.consumesSlot = true := by
      rw [hdeveloper]
      rfl
    obtain ⟨slots, quota, h⟩ := hpassed d hd hslot
    exact (quota_of_passed (hdeveloper ▸ h)).2

/-- The quota and the CI budget stop developers only: a researcher is started while both are exhausted. -/
theorem evaluateAll_spawns_under_quota_block :
    let cfg : ProgressionConfig := { autoResearch := true, taskQueue := [7] }
    let graph : DependencyGraph := ⟨[(7, { number := some 7, state := .triaged })], []⟩
    let cycle : CycleOutcomes :=
      { quota := some ⟨"quota".toList, "CodeRabbit quota exhausted".toList⟩
        ciBudget := some ⟨"ci_budget".toList, "CI minutes low: 3 remaining (threshold: 50)".toList⟩ }
    ∃ d ∈ evaluateAll cfg (some graph) cycle (fun _ _ => {}) none,
      d.action = .spawnResearcher ∧ d.action.consumesSlot = true := by
  intro cfg graph cycle
  exact ⟨_, List.mem_cons_self, rfl, rfl⟩

end Supervisor

import Mathlib.Data.Nat.Cast.Order.Ring
import SovaVerified.Core.Workflow
import SovaVerified.Core.Proofs.WorkflowProofs

/-!
# What the budget of an issue holds back

The check leaves out the runs that wait for an approval, which have ended as well. So the steps of a run are
held back by what the issue has cost exactly when the runs that wait make no difference.
-/

namespace Core

open Dashboard (RunStatus)

/-! ## The runs that have ended -/

/-- What all other runs of an issue that have ended have cost. -/
def endedCost (rows : List Dashboard.TaskRun) (issue : Text) (runId : Nat) : ℚ :=
  costOfOthers Dashboard.taskRunTerminal rows issue runId

/-- What the other runs of an issue that wait for an approval have cost. -/
def waitingCost (rows : List Dashboard.TaskRun) (issue : Text) (runId : Nat) : ℚ :=
  costOfOthers [.awaitingApproval] rows issue runId

theorem taskRunTerminal_contains (status : RunStatus) :
    Dashboard.taskRunTerminal.contains status =
      (budgetTerminal.contains status || [RunStatus.awaitingApproval].contains status) := by
  cases status <;> rfl

theorem budgetTerminal_not_waiting {status : RunStatus} (h : budgetTerminal.contains status = true) :
    [RunStatus.awaitingApproval].contains status = false := by
  revert h
  cases status <;> decide

/-- The check counts the runs that have ended and do not wait. -/
theorem endedCost_eq (rows : List Dashboard.TaskRun) (issue : Text) (runId : Nat) :
    endedCost rows issue runId = priorCost rows issue runId + waitingCost rows issue runId := by
  unfold endedCost priorCost waitingCost costOfOthers
  induction rows with
  | nil => simp [Tables.sumWhere]
  | cons r rows ih =>
    rw [Tables.sumWhere_cons, Tables.sumWhere_cons, Tables.sumWhere_cons, ih, taskRunTerminal_contains]
    generalize (r.issueNumber == some issue && r.id != runId) = other
    cases other with
    | false =>
      simp only [Bool.false_and, Bool.false_eq_true, if_false]
      ring
    | true =>
      simp only [Bool.true_and]
      by_cases hbudget : budgetTerminal.contains r.status = true
      · rw [hbudget, budgetTerminal_not_waiting hbudget]
        simp only [Bool.or_false, Bool.false_eq_true, if_true, if_false]
        ring
      · rw [Bool.not_eq_true] at hbudget
        rw [hbudget]
        simp only [Bool.false_or, Bool.false_eq_true, if_false]
        ring

/-! ## The steps that are executed -/

/-- The run comes to the execution of a step: its row names one. -/
def RunOutcome.executesStep (outcome : RunOutcome) : Prop := outcome.state.taskRun.currentStep ≠ none

def StepOutcome.state : StepOutcome → EngineState
  | .goOn s => s
  | .abort s => s
  | .raised s => s

/-- What follows an executed step does not change which step the row names. -/
theorem afterStep_currentStep (s : EngineState) (outcome : TryOutcome) (record : StepRecord) :
    (afterStep s outcome record).state.taskRun.currentStep = s.taskRun.currentStep := by
  unfold afterStep
  split
  · rfl
  · dsimp only
    split
    · rfl
    · split
      · rfl
      · split <;> rfl

/-- A step that nothing holds back but the budget of the run. -/
def freeStep : Step where
  name := "develop".toList
  attempt _ := .ran (.returned { success := true, summary := [] }) 0
    (.returned { passed := true }) (.returned { passed := true }) 0

/-- At the start of a run no runaway limit is reached. -/
theorem checkRunawayGuard_start (cfg : EngineConfig) : checkRunawayGuard cfg {} 0 = none := by
  have hclock : ¬ (cfg.maxRunWallClockSeconds ≠ 0 ∧ (cfg.maxRunWallClockSeconds : ℚ) * 1 < 0) := by
    rintro ⟨-, hneg⟩
    rw [mul_one] at hneg
    exact absurd hneg (not_lt.mpr (Nat.cast_nonneg _))
  have hlimit (n : Nat) : ¬ (n ≠ 0 ∧ n ≤ 0) := by omega
  unfold checkRunawayGuard
  dsimp only
  rw [if_neg hclock, if_neg (hlimit _), if_neg (hlimit _)]

theorem executeStep_freeStep {cfg : EngineConfig} {s : EngineState} (hcost : s.ctx.costUsd ≤ cfg.maxBudget)
    (hsteps : s.result.stepsCompleted = 0) :
    (executeStep cfg s freeStep).state.taskRun.currentStep = some freeStep.name := by
  have hguard : checkRunawayGuard cfg freeStep.before s.result.stepsCompleted = none := by
    rw [hsteps]
    exact checkRunawayGuard_start cfg
  have hexec : executeStep cfg s freeStep =
      afterStep (leaveStep s freeStep.name (executeWithRetries cfg freeStep s.ctx).2.1)
        (executeWithRetries cfg freeStep s.ctx).1 (executeWithRetries cfg freeStep s.ctx).2.2 := by
    unfold executeStep
    simp only [hguard, if_neg (not_lt.mpr hcost)]
    rfl
  rw [hexec, afterStep_currentStep]
  rfl

/-- A pipeline of one step leaves the row with the step that the execution left. -/
theorem runSteps_singleton_currentStep (cfg : EngineConfig) (s : EngineState) (step : Step) :
    (runSteps cfg s [step]).state.taskRun.currentStep =
      (executeStep cfg s step).state.taskRun.currentStep := by
  unfold runSteps
  cases executeStep cfg s step with
  | goOn s' => rfl
  | abort s' => rfl
  | raised s' => rfl

/-- A run whose budget allows a step comes to a step that nothing else holds back. -/
theorem runSteps_freeStep {cfg : EngineConfig} {s : EngineState} (hcost : s.ctx.costUsd ≤ cfg.maxBudget)
    (hsteps : s.result.stepsCompleted = 0) : (runSteps cfg s [freeStep]).executesStep := by
  unfold RunOutcome.executesStep
  rw [runSteps_singleton_currentStep, executeStep_freeStep hcost hsteps]
  exact Option.some_ne_none _

/-- A run whose budget is spent comes to no step. -/
theorem runSteps_overBudget {cfg : EngineConfig} {s : EngineState} (hcost : cfg.maxBudget < s.ctx.costUsd)
    (hcurrent : s.taskRun.currentStep = none) (steps : List Step) :
    ¬ (runSteps cfg s steps).executesStep := by
  unfold RunOutcome.executesStep
  rw [not_not]
  cases steps with
  | nil => exact hcurrent
  | cons step steps =>
    unfold runSteps executeStep
    cases step.before.missingWorktree with
    | some path => exact hcurrent
    | none =>
      dsimp only
      rw [if_pos hcost]
      exact hcurrent

/-! ## The check -/

/-- Whatever its steps are, a run without an override comes to one only below the budget of its issue, exactly
when the runs that wait for an approval do not make the difference or the run has no budget for a step. -/
theorem issue_budget_iff (cfg : EngineConfig) (rows : List Dashboard.TaskRun) (runId : Nat)
    {inputs : RunInputs} (hissue : inputs.issueNumber.isEmpty = false)
    (hoverride : inputs.budgetOverride = false) :
    (∀ steps, (runOnTable cfg rows runId inputs steps).executesStep →
        endedCost rows inputs.issueNumber runId < cfg.maxIssueBudget) ↔
      ¬ (priorCost rows inputs.issueNumber runId < cfg.maxIssueBudget ∧
          cfg.maxIssueBudget ≤
            priorCost rows inputs.issueNumber runId + waitingCost rows inputs.issueNumber runId) ∨
        cfg.maxBudget < inputs.ctx.costUsd := by
  rw [← endedCost_eq]
  generalize hprior : priorCost rows inputs.issueNumber runId = prior
  generalize endedCost rows inputs.issueNumber runId = ended
  have hexceeded : perIssueBudgetExceeded cfg { inputs with priorCost := prior } =
      decide (cfg.maxIssueBudget ≤ prior) := by
    simp [perIssueBudgetExceeded, hissue, hoverride]
  constructor
  · intro h
    by_contra hnot
    obtain ⟨⟨hbelow, hreached⟩, hcost⟩ : (prior < cfg.maxIssueBudget ∧ cfg.maxIssueBudget ≤ ended) ∧
        inputs.ctx.costUsd ≤ cfg.maxBudget := by simpa using hnot
    refine absurd (h [freeStep] ?_) (not_lt.mpr hreached)
    unfold runOnTable run
    rw [hprior, hexceeded, decide_eq_false (not_le.mpr hbelow)]
    exact runSteps_freeStep hcost rfl
  · intro h steps hexec
    by_contra hreached
    rw [not_lt] at hreached
    unfold runOnTable run at hexec
    rw [hprior, hexceeded] at hexec
    rcases h with h | hcost
    · have hstop : cfg.maxIssueBudget ≤ prior := by
        by_contra hbelow
        exact h ⟨not_le.mp hbelow, hreached⟩
      rw [decide_eq_true hstop] at hexec
      exact hexec rfl
    · split at hexec
      · exact hexec rfl
      · exact runSteps_overBudget hcost rfl steps hexec

/-- An issue on which a failed run has spent its budget. -/
theorem issue_budget_spent :
    let failed : Dashboard.TaskRun :=
      { id := 1, issueNumber := some "42".toList, status := .failed, totalCostUsd := 12, startedAt := 0 }
    let rows := [failed]
    let inputs : RunInputs := { issueNumber := "42".toList }
    ∀ steps, (runOnTable plainConfig rows 2 inputs steps).executesStep →
      endedCost rows "42".toList 2 < plainConfig.maxIssueBudget := by
  intro failed rows inputs
  have hissue : inputs.issueNumber.isEmpty = false := rfl
  refine (issue_budget_iff plainConfig rows 2 hissue rfl).mpr (.inl ?_)
  have hcost : priorCost rows "42".toList 2 = 12 := by
    simp [priorCost, costOfOthers, Tables.sumWhere, budgetTerminal, rows, failed]
  rintro ⟨hbelow, -⟩
  rw [show priorCost rows inputs.issueNumber 2 = 12 from hcost] at hbelow
  exact absurd hbelow (by decide)

/-- An issue on which a run that waits for an approval has spent its budget: a step is executed. -/
theorem issue_budget_waiting_run_ignored :
    let waiting : Dashboard.TaskRun := { id := 1, issueNumber := some "42".toList,
                                         status := .awaitingApproval, totalCostUsd := 12, startedAt := 0 }
    let rows := [waiting]
    let inputs : RunInputs := { issueNumber := "42".toList }
    (runOnTable plainConfig rows 2 inputs [freeStep]).executesStep ∧
      ¬ endedCost rows "42".toList 2 < plainConfig.maxIssueBudget := by
  intro waiting rows inputs
  constructor
  · exact runSteps_freeStep (by decide) rfl
  · have hcost : endedCost rows "42".toList 2 = 12 := by
      simp [endedCost, costOfOthers, Tables.sumWhere, Dashboard.taskRunTerminal, rows, waiting]
    rw [hcost]
    decide

end Core

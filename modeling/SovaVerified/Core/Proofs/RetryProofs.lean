import Mathlib.Tactic.Ring
import SovaVerified.Core.Workflow

/-!
# What the retry loop leaves in a step's record

The record is shared by all attempts at a step. Its result is the one of the last attempt; its gate is
the one of the last attempt that came as far as its gates, which need not be the last attempt.
-/

namespace Core

/-- The gate in the record after the first attempts at a step. -/
def gateAfter (step : Step) : Nat → Option GateCheckResult
  | 0 => none
  | n + 1 => (step.attempt n).gate.or (gateAfter step n)

theorem gateAfter_eq_none {step : Step} {n : Nat} (h : gateAfter step n = none) :
    ∀ k < n, (step.attempt k).gate = none := by
  induction n with
  | zero =>
    intro k hk
    omega
  | succ n ih =>
    intro k hk
    have hor : (step.attempt n).gate = none ∧ gateAfter step n = none := Option.or_eq_none_iff.mp h
    by_cases hkn : k = n
    · exact hkn ▸ hor.1
    · exact ih hor.2 k (by omega)

theorem gateAfter_eq_some {step : Step} {n : Nat} {gate : GateCheckResult}
    (h : gateAfter step n = some gate) : ∃ k < n, (step.attempt k).gate = some gate := by
  induction n with
  | zero => cases h
  | succ n ih =>
    unfold gateAfter at h
    cases hgate : (step.attempt n).gate with
    | some g =>
      rw [hgate] at h
      exact ⟨n, by omega, hgate.trans h⟩
    | none =>
      rw [hgate] at h
      obtain ⟨k, hk, hkgate⟩ := ih h
      exact ⟨k, by omega, hkgate⟩

/-- The record says what the attempts counted in it left behind, none of which passed its gate. -/
structure Describes (step : Step) (record : StepRecord) : Prop where
  name : record.stepName = step.name
  result : ∀ n, record.totalAttempts = n + 1 → record.result = (step.attempt n).result step.name
  gate : record.gate = gateAfter step record.totalAttempts
  unpassed : ∀ k < record.totalAttempts, ∀ g, (step.attempt k).gate = some g → g.passed = false

theorem Describes.start (step : Step) : Describes step { stepName := step.name, status := .pending } := by
  refine ⟨rfl, ?_, rfl, ?_⟩
  · intro n hn
    cases hn
  · intro k hk
    cases hk

theorem runStepWithTimeout_success (name : Text) (execution : Execution) (spent : ℚ) :
    (runStepWithTimeout name execution spent).success = execution.succeeds := by
  cases execution with
  | returned result => rfl
  | raised error => rfl
  | timedOut seconds runawayDeadline partialWork => cases runawayDeadline <;> rfl

/-! ## One attempt -/

/-- What one attempt changes in the record, unless it is cancelled. -/
structure AttemptEffect (name : Text) (a : Attempt) (before : StepRecord) (verdict : AttemptVerdict)
    (after : StepRecord) : Prop where
  stepName : after.stepName = before.stepName
  totalAttempts : after.totalAttempts = before.totalAttempts
  result : verdict ≠ .cancelled → after.result = a.result name
  gate : verdict ≠ .cancelled → after.gate = a.gate.or before.gate
  unpassed : verdict ≠ .done → ∀ g, a.gate = some g → g.passed = false

theorem executeSingleAttempt_effect (cfg : EngineConfig) (name : Text) (a : Attempt) (ctx : Context)
    (record : StepRecord) :
    AttemptEffect name a record (executeSingleAttempt cfg name a ctx record).1
      (executeSingleAttempt cfg name a ctx record).2.2 := by
  cases a with
  | cancelled =>
    exact ⟨rfl, rfl, fun h => absurd rfl h, fun h => absurd rfl h, fun _ g hg => by cases hg⟩
  | createFailed error =>
    exact ⟨rfl, rfl, fun _ => rfl, fun _ => rfl, fun _ g hg => by cases hg⟩
  | ran execution spent validate verify gateSpent =>
    have hsuccess := runStepWithTimeout_success name execution spent
    unfold executeSingleAttempt
    dsimp only
    rw [hsuccess]
    cases hsucceeds : execution.succeeds with
    | false =>
      have hgate : (Attempt.ran execution spent validate verify gateSpent).gate = none := by
        simp [Attempt.gate, hsucceeds]
      refine ⟨rfl, rfl, fun _ => rfl, fun _ => ?_, fun _ g hg => ?_⟩
      · rw [hgate]
        rfl
      · rw [hgate] at hg
        cases hg
    | true =>
      have hgate : (Attempt.ran execution spent validate verify gateSpent).gate =
          some (finalGate validate verify) := by
        simp [Attempt.gate, hsucceeds]
      refine ⟨rfl, rfl, fun _ => rfl, fun _ => ?_, fun hverdict g hg => ?_⟩
      · rw [hgate]
        rfl
      · rw [hgate] at hg
        cases hg
        -- a gate that passed would have ended the loop
        by_contra hpassed
        have hp : (finalGate validate verify).passed = true := by simpa using hpassed
        exact hverdict (by simp [hp])

/-- An attempt that does not end the step leaves a record that describes the attempts so far. -/
theorem Describes.attempt {step : Step} {record : StepRecord} (cfg : EngineConfig) (ctx : Context)
    (retries : Nat) (hrec : Describes step record)
    (hdone : (executeSingleAttempt cfg step.name (step.attempt record.totalAttempts) ctx
      { record with totalAttempts := record.totalAttempts + 1 }).1 ≠ .done)
    (hcancelled : (executeSingleAttempt cfg step.name (step.attempt record.totalAttempts) ctx
      { record with totalAttempts := record.totalAttempts + 1 }).1 ≠ .cancelled) :
    Describes step
      { (executeSingleAttempt cfg step.name (step.attempt record.totalAttempts) ctx
        { record with totalAttempts := record.totalAttempts + 1 }).2.2 with retries := retries } := by
  have heffect := executeSingleAttempt_effect cfg step.name (step.attempt record.totalAttempts) ctx
    { record with totalAttempts := record.totalAttempts + 1 }
  have htotal := heffect.totalAttempts
  dsimp only at htotal
  refine ⟨heffect.stepName.trans hrec.name, ?_, ?_, ?_⟩
  · intro n hn
    dsimp only at hn
    have hlast : n = record.totalAttempts := by omega
    rw [hlast]
    exact heffect.result hcancelled
  · dsimp only
    rw [htotal, heffect.gate hcancelled]
    dsimp only
    rw [hrec.gate]
    rfl
  · intro k hk g hg
    dsimp only at hk
    by_cases hlast : k = record.totalAttempts
    · exact heffect.unpassed hdone g (hlast ▸ hg)
    · exact hrec.unpassed k (by omega) g hg

theorem Describes.withStatus {step : Step} {record : StepRecord} (h : Describes step record)
    (status : RecordStatus) : Describes step { record with status := status } :=
  ⟨h.name, h.result, h.gate, h.unpassed⟩

/-! ## The loop -/

/-- What a loop over attempts ends with: a record that says how it ended, and that describes the
attempts when it failed. -/
structure LoopEnd (step : Step) (outcome : TryOutcome) (record : StepRecord) : Prop where
  name : record.stepName = step.name
  done : outcome = .done → record.status = .done
  runaway : outcome = .runaway → record.status = .runaway
  failed : outcome = .failed ∨ outcome = .billingExhausted →
    record.status = .failed ∧ 0 < record.totalAttempts ∧ Describes step record

theorem LoopEnd.of_failed {step : Step} {outcome : TryOutcome} {record : StepRecord}
    (hrec : Describes step record) (hpos : 0 < record.totalAttempts)
    (houtcome : outcome = .failed ∨ outcome = .billingExhausted) :
    LoopEnd step outcome { record with status := .failed } := by
  refine ⟨hrec.name, ?_, ?_, fun _ => ⟨rfl, hpos, hrec.withStatus _⟩⟩
  · intro h
    rcases houtcome with ho | ho <;> rw [ho] at h <;> cases h
  · intro h
    rcases houtcome with ho | ho <;> rw [ho] at h <;> cases h

theorem tryStepWithRetries_end (cfg : EngineConfig) (step : Step) (remaining attempts : Nat)
    (lastWasBilling : Bool) (ctx : Context) (record : StepRecord) (hrec : Describes step record)
    (hpos : 0 < record.totalAttempts ∨ 0 < remaining) :
    LoopEnd step (tryStepWithRetries cfg step remaining attempts lastWasBilling ctx record).1
      (tryStepWithRetries cfg step remaining attempts lastWasBilling ctx record).2.2 := by
  induction remaining generalizing attempts lastWasBilling ctx record with
  | zero =>
    unfold tryStepWithRetries
    refine LoopEnd.of_failed hrec (by omega) ?_
    by_cases hbilling : (lastWasBilling && hasFallbackModels cfg ctx) = true
    · exact .inr (if_pos hbilling)
    · exact .inl (if_neg hbilling)
  | succ remaining ih =>
    unfold tryStepWithRetries
    by_cases hlimit : cfg.maxStepAttempts ≠ 0 ∧ cfg.maxStepAttempts ≤ record.totalAttempts
    · rw [if_pos hlimit]
      exact ⟨hrec.name, fun h => (by cases h), fun _ => rfl, fun h => by rcases h with h | h <;> cases h⟩
    · rw [if_neg hlimit]
      have heffect := executeSingleAttempt_effect cfg step.name (step.attempt record.totalAttempts) ctx
        { record with totalAttempts := record.totalAttempts + 1 }
      have hnext := Describes.attempt cfg ctx attempts hrec
      dsimp only
      generalize executeSingleAttempt cfg step.name (step.attempt record.totalAttempts) ctx
        { record with totalAttempts := record.totalAttempts + 1 } = ran at heffect hnext
      obtain ⟨verdict, ctx', record'⟩ := ran
      have hname : record'.stepName = step.name := heffect.stepName.trans hrec.name
      have htotal : record'.totalAttempts = record.totalAttempts + 1 := heffect.totalAttempts
      have hpos' : 0 < record'.totalAttempts := by omega
      cases verdict with
      | retry =>
        exact ih (attempts + 1) lastWasBilling _ _ (hnext (by simp) (by simp)) (.inl hpos')
      | failed =>
        dsimp only
        by_cases hmore : remaining ≠ 0
        · rw [if_pos hmore]
          exact ih (attempts + 1) false _ _ (hnext (by simp) (by simp)) (.inl hpos')
        · rw [if_neg hmore]
          exact LoopEnd.of_failed (hnext (by simp) (by simp)) hpos' (.inl rfl)
      | billingExhausted => exact LoopEnd.of_failed (hnext (by simp) (by simp)) hpos' (.inr rfl)
      | nonRetryable => exact LoopEnd.of_failed (hnext (by simp) (by simp)) hpos' (.inl rfl)
      | runaway =>
        exact ⟨hname, fun h => (by cases h), fun _ => rfl, fun h => by rcases h with h | h <;> cases h⟩
      | done =>
        exact ⟨hname, fun _ => rfl, fun h => (by cases h), fun h => by rcases h with h | h <;> cases h⟩
      | cancelled =>
        exact ⟨hname, fun h => (by cases h), fun h => (by cases h),
          fun h => by rcases h with h | h <;> cases h⟩

theorem tryFallbacks_end (cfg : EngineConfig) (step : Step) (chain : List Text) (ctx : Context)
    (record : StepRecord) (hrec : Describes step record) (hpos : 0 < record.totalAttempts) :
    LoopEnd step (tryFallbacks cfg step chain ctx record).1
      (tryFallbacks cfg step chain ctx record).2.2 := by
  induction chain generalizing ctx record with
  | nil => exact LoopEnd.of_failed hrec hpos (.inl rfl)
  | cons candidate rest ih =>
    unfold tryFallbacks
    dsimp only
    split
    · exact ih _ record hrec hpos
    · have hend := tryStepWithRetries_end cfg step (step.maxRetries + 1) 0 false
        { ctx with fallbackModelIndex := ctx.fallbackModelIndex + 1, resolvedModel := candidate } record
        hrec (.inl hpos)
      split
      · next ctx' record' heq =>
        rw [heq] at hend
        obtain ⟨-, hpos', hrec'⟩ := hend.failed (.inr rfl)
        exact ih ctx' record' hrec' hpos'
      · exact hend

theorem executeWithRetries_end (cfg : EngineConfig) (step : Step) (ctx : Context) :
    LoopEnd step (executeWithRetries cfg step ctx).1 (executeWithRetries cfg step ctx).2.2 := by
  unfold executeWithRetries
  dsimp only
  have hrec := Describes.start step
  have hend := tryStepWithRetries_end cfg step (step.maxRetries + 1) 0 false ctx _ hrec (.inr (by omega))
  split
  · next ctx' record' heq =>
    rw [heq] at hend
    obtain ⟨-, hpos', hrec'⟩ := hend.failed (.inr rfl)
    exact tryFallbacks_end cfg step _ ctx' record' hrec' hpos'
  · exact hend

end Core

/-!
# How far the retry loop goes

The retry counter starts again with every model, and `_advance_fallback` runs over the models that are
skipped. The measure of the whole loop is the part of the chain behind `fallback_model_index`: every
round but the last moves the index into it.
-/

namespace Core

/-! ## One attempt -/

/-- What one attempt does to the context, and what its verdict says about it. -/
structure ContextEffect (a : Attempt) (before : Context) (verdict : AttemptVerdict) (after : Context) :
    Prop where
  index : after.fallbackModelIndex = before.fallbackModelIndex
  cost : after.costUsd = before.costUsd + a.executionCost + a.gateCost
  done : verdict = .done ↔ a.passes = true
  cancelled : verdict = .cancelled ↔ a = .cancelled

theorem handleStepFailureResult_ne (cfg : EngineConfig) (ctx : Context) (result : StepResult) :
    handleStepFailureResult cfg ctx result ≠ .done ∧
      handleStepFailureResult cfg ctx result ≠ .cancelled := by
  unfold handleStepFailureResult
  dsimp only
  split
  · simp
  · split
    · simp
    · split <;> simp
    · simp

theorem executeSingleAttempt_context (cfg : EngineConfig) (name : Text) (a : Attempt) (ctx : Context)
    (record : StepRecord) :
    ContextEffect a ctx (executeSingleAttempt cfg name a ctx record).1
      (executeSingleAttempt cfg name a ctx record).2.1 := by
  cases a with
  | cancelled =>
    refine ⟨rfl, ?_, ?_, ?_⟩
    · simp [executeSingleAttempt, Attempt.executionCost, Attempt.gateCost]
    · simp [executeSingleAttempt, Attempt.passes, Attempt.gate]
    · simp [executeSingleAttempt]
  | createFailed error =>
    refine ⟨rfl, ?_, ?_, ?_⟩
    · simp [executeSingleAttempt, Attempt.executionCost, Attempt.gateCost]
    · simp [executeSingleAttempt, Attempt.passes, Attempt.gate]
    · simp [executeSingleAttempt]
  | ran execution spent validate verify gateSpent =>
    have hsuccess := runStepWithTimeout_success name execution spent
    unfold executeSingleAttempt
    dsimp only
    rw [hsuccess]
    cases hsucceeds : execution.succeeds with
    | false =>
      have hne := handleStepFailureResult_ne cfg { ctx with costUsd := ctx.costUsd + spent }
        (runStepWithTimeout name execution spent)
      refine ⟨rfl, ?_, ?_, ?_⟩
      · simp [Attempt.executionCost, Attempt.gateCost, hsucceeds]
      · simp only [Bool.not_false, if_true, Attempt.passes, Attempt.gate, hsucceeds]
        split <;> simp [hne.1]
      · simp only [Bool.not_false, if_true]
        split <;> simp [hne.2]
    | true =>
      refine ⟨rfl, ?_, ?_, ?_⟩
      · simp [Attempt.executionCost, Attempt.gateCost, hsucceeds]
      · simp [Attempt.passes, Attempt.gate, hsucceeds]
      · simp only [Bool.not_true, Bool.false_eq_true, if_false]
        split <;> simp

/-! ## The attempts with one model -/

/-- The attempts between two points of the loop: what they cost, and which of them passed. -/
structure AttemptsMade (step : Step) (ctx : Context) (record : StepRecord) (outcome : TryOutcome)
    (ctx' : Context) (record' : StepRecord) : Prop where
  le_attempts : record.totalAttempts ≤ record'.totalAttempts
  cost : ctx'.costUsd = ctx.costUsd + (spentBy step record'.totalAttempts - spentBy step record.totalAttempts)
  unpassed : outcome ≠ .done →
    ∀ k, record.totalAttempts ≤ k → k < record'.totalAttempts → (step.attempt k).passes = false
  done : outcome = .done → ∃ n, record.totalAttempts ≤ n ∧ record'.totalAttempts = n + 1 ∧
    (step.attempt n).passes = true ∧ record'.result = (step.attempt n).result step.name ∧
    ∀ k, record.totalAttempts ≤ k → k < n → (step.attempt k).passes = false

/-- No attempt is made. -/
theorem AttemptsMade.none {step : Step} {ctx ctx' : Context} {record record' : StepRecord}
    {outcome : TryOutcome} (htotal : record'.totalAttempts = record.totalAttempts)
    (hcost : ctx'.costUsd = ctx.costUsd) (hdone : outcome ≠ .done) :
    AttemptsMade step ctx record outcome ctx' record' := by
  refine ⟨by omega, ?_, ?_, fun h => absurd h hdone⟩
  · rw [htotal, hcost]
    ring
  · intro _ k hk hlt
    omega

/-- Attempts that did not pass, followed by others. -/
theorem AttemptsMade.trans {step : Step} {ctx ctx' ctx'' : Context} {record record' record'' : StepRecord}
    {outcome outcome' : TryOutcome} (hfirst : AttemptsMade step ctx record outcome ctx' record')
    (houtcome : outcome ≠ .done) (hrest : AttemptsMade step ctx' record' outcome' ctx'' record'') :
    AttemptsMade step ctx record outcome' ctx'' record'' := by
  have hle := hfirst.le_attempts
  have hle' := hrest.le_attempts
  refine ⟨by omega, ?_, ?_, ?_⟩
  · rw [hrest.cost, hfirst.cost]
    ring
  · intro hout k hk hlt
    by_cases hbefore : k < record'.totalAttempts
    · exact hfirst.unpassed houtcome k hk hbefore
    · exact hrest.unpassed hout k (by omega) hlt
  · intro hout
    obtain ⟨n, hn, hlast, hpassed, hresult, hbefore⟩ := hrest.done hout
    refine ⟨n, by omega, hlast, hpassed, hresult, ?_⟩
    intro k hk hlt
    by_cases hearly : k < record'.totalAttempts
    · exact hfirst.unpassed houtcome k hk hearly
    · exact hbefore k (by omega) hlt

/-- What the attempts with one model do. -/
structure TryEffect (cfg : EngineConfig) (step : Step) (remaining : Nat) (ctx : Context)
    (record : StepRecord) (outcome : TryOutcome) (ctx' : Context) (record' : StepRecord) : Prop where
  made : AttemptsMade step ctx record outcome ctx' record'
  index : ctx'.fallbackModelIndex = ctx.fallbackModelIndex
  attempts_le : record'.totalAttempts ≤ record.totalAttempts + remaining
  limit : cfg.maxStepAttempts ≠ 0 → record'.totalAttempts ≤ max record.totalAttempts cfg.maxStepAttempts
  cancelled : outcome = .cancelled → ∃ n, record'.totalAttempts = n + 1 ∧ step.attempt n = .cancelled

/-- A loop that stops before another attempt. -/
theorem TryEffect.stop {cfg : EngineConfig} {step : Step} {remaining : Nat} {ctx : Context}
    {record record' : StepRecord} {outcome : TryOutcome}
    (htotal : record'.totalAttempts = record.totalAttempts) (hdone : outcome ≠ .done)
    (hcancelled : outcome ≠ .cancelled) :
    TryEffect cfg step remaining ctx record outcome ctx record' := by
  exact ⟨AttemptsMade.none htotal rfl hdone, rfl, by omega, fun _ => by omega,
    fun h => absurd h hcancelled⟩

section Attempt

variable {cfg : EngineConfig} {step : Step} {ctx ctx' : Context} {record record' : StepRecord}
  {verdict : AttemptVerdict}

/-- One attempt, whatever comes after it. -/
theorem AttemptsMade.one {outcome : TryOutcome} (model : Option Text) (retries : Nat)
    (status : RecordStatus) (hctx : ContextEffect (step.attempt record.totalAttempts) ctx verdict ctx')
    (hrec : AttemptEffect step.name (step.attempt record.totalAttempts)
      { record with totalAttempts := record.totalAttempts + 1 } verdict record')
    (hdone : outcome = .done ↔ verdict = .done) :
    AttemptsMade step ctx record outcome (resolveModel model ctx')
      { record' with
        retries := retries
        status := status } := by
  have htotal : record'.totalAttempts = record.totalAttempts + 1 := hrec.totalAttempts
  refine ⟨by dsimp only; omega, ?_, ?_, ?_⟩
  · dsimp only [resolveModel]
    rw [htotal, hctx.cost]
    show _ = ctx.costUsd + (spentBy step record.totalAttempts + _ + _ - spentBy step record.totalAttempts)
    ring
  · intro hout k hk hlt
    dsimp only at hlt
    have hlast : k = record.totalAttempts := by omega
    rw [hlast]
    have hpass : (step.attempt record.totalAttempts).passes ≠ true := by
      intro h
      exact hout (hdone.mpr (hctx.done.mpr h))
    simpa using hpass
  · intro hout
    have hverdict : verdict = .done := hdone.mp hout
    refine ⟨record.totalAttempts, le_rfl, htotal, hctx.done.mp hverdict, ?_, ?_⟩
    · exact hrec.result (by rw [hverdict]; simp)
    · intro k hk hlt
      omega

theorem attempts_lt_limit (hlimit : ¬ (cfg.maxStepAttempts ≠ 0 ∧ cfg.maxStepAttempts ≤ record.totalAttempts))
    (hmax : cfg.maxStepAttempts ≠ 0) : record.totalAttempts < cfg.maxStepAttempts := by
  by_contra hle
  exact hlimit ⟨hmax, by omega⟩

/-- An attempt that ends the loop. -/
theorem TryEffect.last {outcome : TryOutcome} {model : Option Text} {retries : Nat} (remaining : Nat)
    (status : RecordStatus)
    (hlimit : ¬ (cfg.maxStepAttempts ≠ 0 ∧ cfg.maxStepAttempts ≤ record.totalAttempts))
    (hctx : ContextEffect (step.attempt record.totalAttempts) ctx verdict ctx')
    (hrec : AttemptEffect step.name (step.attempt record.totalAttempts)
      { record with totalAttempts := record.totalAttempts + 1 } verdict record')
    (hdone : outcome = .done ↔ verdict = .done) (hcancelled : outcome = .cancelled ↔ verdict = .cancelled) :
    TryEffect cfg step (remaining + 1) ctx record outcome (resolveModel model ctx')
      { record' with
        retries := retries
        status := status } := by
  have htotal : record'.totalAttempts = record.totalAttempts + 1 := hrec.totalAttempts
  refine ⟨AttemptsMade.one model retries status hctx hrec hdone, hctx.index, ?_, ?_, ?_⟩
  · dsimp only
    omega
  · intro hmax
    have hlt := attempts_lt_limit hlimit hmax
    dsimp only
    omega
  · intro hout
    exact ⟨record.totalAttempts, htotal, hctx.cancelled.mp (hcancelled.mp hout)⟩

/-- An attempt after which the loop goes on. -/
theorem TryEffect.more {remaining : Nat} {outcome : TryOutcome} {model : Option Text} {retries : Nat}
    {ctx'' : Context} {record'' : StepRecord}
    (hlimit : ¬ (cfg.maxStepAttempts ≠ 0 ∧ cfg.maxStepAttempts ≤ record.totalAttempts))
    (hctx : ContextEffect (step.attempt record.totalAttempts) ctx verdict ctx')
    (hrec : AttemptEffect step.name (step.attempt record.totalAttempts)
      { record with totalAttempts := record.totalAttempts + 1 } verdict record')
    (hverdict : verdict ≠ .done)
    (hrest : TryEffect cfg step remaining (resolveModel model ctx') { record' with retries := retries }
      outcome ctx'' record'') :
    TryEffect cfg step (remaining + 1) ctx record outcome ctx'' record'' := by
  have htotal : record'.totalAttempts = record.totalAttempts + 1 := hrec.totalAttempts
  have hmade : AttemptsMade step ctx record .failed (resolveModel model ctx')
      { record' with retries := retries } :=
    AttemptsMade.one model retries record'.status hctx hrec (by simp [hverdict])
  have hle := hrest.attempts_le
  dsimp only at hle
  refine ⟨hmade.trans (by simp) hrest.made, hrest.index.trans hctx.index, by omega, ?_, hrest.cancelled⟩
  intro hmax
  have hlt := attempts_lt_limit hlimit hmax
  have hbound := hrest.limit hmax
  dsimp only at hbound
  omega

end Attempt

theorem tryStepWithRetries_effect (cfg : EngineConfig) (step : Step) (remaining attempts : Nat)
    (lastWasBilling : Bool) (ctx : Context) (record : StepRecord) :
    TryEffect cfg step remaining ctx record
      (tryStepWithRetries cfg step remaining attempts lastWasBilling ctx record).1
      (tryStepWithRetries cfg step remaining attempts lastWasBilling ctx record).2.1
      (tryStepWithRetries cfg step remaining attempts lastWasBilling ctx record).2.2 := by
  induction remaining generalizing attempts lastWasBilling ctx record with
  | zero =>
    unfold tryStepWithRetries
    refine TryEffect.stop rfl ?_ ?_ <;> split <;> simp
  | succ remaining ih =>
    unfold tryStepWithRetries
    by_cases hlimit : cfg.maxStepAttempts ≠ 0 ∧ cfg.maxStepAttempts ≤ record.totalAttempts
    · rw [if_pos hlimit]
      exact TryEffect.stop rfl (by simp) (by simp)
    · rw [if_neg hlimit]
      have hrec := executeSingleAttempt_effect cfg step.name (step.attempt record.totalAttempts) ctx
        { record with totalAttempts := record.totalAttempts + 1 }
      have hctx := executeSingleAttempt_context cfg step.name (step.attempt record.totalAttempts) ctx
        { record with totalAttempts := record.totalAttempts + 1 }
      dsimp only
      generalize executeSingleAttempt cfg step.name (step.attempt record.totalAttempts) ctx
        { record with totalAttempts := record.totalAttempts + 1 } = ran at hrec hctx
      obtain ⟨verdict, ctx', record'⟩ := ran
      cases verdict with
      | retry => exact TryEffect.more hlimit hctx hrec (by simp) (ih _ _ _ _)
      | failed =>
        dsimp only
        by_cases hmore : remaining ≠ 0
        · rw [if_pos hmore]
          exact TryEffect.more hlimit hctx hrec (by simp) (ih _ _ _ _)
        · rw [if_neg hmore]
          exact TryEffect.last remaining _ hlimit hctx hrec (by simp) (by simp)
      | billingExhausted =>
        exact TryEffect.last remaining _ hlimit hctx hrec (by simp) (by simp)
      | nonRetryable => exact TryEffect.last remaining _ hlimit hctx hrec (by simp) (by simp)
      | runaway => exact TryEffect.last remaining _ hlimit hctx hrec (by simp) (by simp)
      | done => exact TryEffect.last remaining _ hlimit hctx hrec (by simp) (by simp)
      | cancelled =>
        exact TryEffect.last remaining record'.status hlimit hctx hrec (by simp) (by simp)

/-! ## The loop over the models -/

/-- How many models of the chain are left. -/
def remainingModels (cfg : EngineConfig) (ctx : Context) : Nat :=
  cfg.fallbackModels.length - ctx.fallbackModelIndex

/-- The rounds that are left from a context and a record on, as one function. -/
def tryModels (cfg : EngineConfig) (step : Step) (ctx : Context) (record : StepRecord) :
    TryOutcome × Context × StepRecord :=
  match tryStepWithRetries cfg step (step.maxRetries + 1) 0 false ctx record with
  | (.billingExhausted, ctx, record) =>
    tryFallbacks cfg step (cfg.fallbackModels.drop ctx.fallbackModelIndex) ctx record
  | outcome => outcome

theorem advanceFrom_none {current : Text} {chain : List Text} {index index' : Nat}
    (h : advanceFrom current chain index = (none, index')) : index' = index + chain.length := by
  induction chain generalizing index with
  | nil =>
    cases h
    rfl
  | cons candidate rest ih =>
    unfold advanceFrom at h
    split at h
    · cases h
    · rw [ih h, List.length_cons]
      omega

theorem advanceFrom_some {current model : Text} {chain : List Text} {index index' : Nat}
    (h : advanceFrom current chain index = (some model, index')) :
    model ≠ current ∧ index < index' ∧ index' ≤ index + chain.length := by
  induction chain generalizing index with
  | nil => cases h
  | cons candidate rest ih =>
    unfold advanceFrom at h
    rw [List.length_cons]
    split at h
    · next hne =>
      cases h
      exact ⟨hne, by omega, by omega⟩
    · obtain ⟨hmodel, hlt, hle⟩ := ih h
      exact ⟨hmodel, by omega, by omega⟩

theorem advanceFallback_none {cfg : EngineConfig} {ctx advanced : Context}
    (h : advanceFallback cfg ctx = (none, advanced)) :
    advanced.fallbackModelIndex = max ctx.fallbackModelIndex cfg.fallbackModels.length := by
  unfold advanceFallback at h
  cases hfound : advanceFrom (currentModel cfg ctx) (cfg.fallbackModels.drop ctx.fallbackModelIndex)
    ctx.fallbackModelIndex with
  | mk found index =>
    rw [hfound] at h
    obtain ⟨rfl, rfl⟩ := Prod.mk.inj h
    have hindex := advanceFrom_none hfound
    rw [List.length_drop] at hindex
    dsimp only
    omega

theorem advanceFallback_some {cfg : EngineConfig} {ctx advanced : Context} {model : Text}
    (h : advanceFallback cfg ctx = (some model, advanced)) :
    model ≠ currentModel cfg ctx ∧ ctx.fallbackModelIndex < advanced.fallbackModelIndex ∧
      advanced.fallbackModelIndex ≤ cfg.fallbackModels.length := by
  unfold advanceFallback at h
  cases hfound : advanceFrom (currentModel cfg ctx) (cfg.fallbackModels.drop ctx.fallbackModelIndex)
    ctx.fallbackModelIndex with
  | mk found index =>
    rw [hfound] at h
    obtain ⟨rfl, rfl⟩ := Prod.mk.inj h
    obtain ⟨hne, hlt, hle⟩ := advanceFrom_some hfound
    rw [List.length_drop] at hle
    refine ⟨hne, hlt, ?_⟩
    dsimp only
    omega

/-- The recursion over the rest of the chain is one call of `_advance_fallback` and the rounds after
it. -/
theorem tryFallbacks_advance (cfg : EngineConfig) (step : Step) (chain : List Text) (ctx : Context)
    (record : StepRecord) (hchain : cfg.fallbackModels.drop ctx.fallbackModelIndex = chain) :
    tryFallbacks cfg step chain ctx record =
      match advanceFallback cfg ctx with
      | (none, advanced) => (.failed, advanced, { record with status := .failed })
      | (some model, advanced) =>
        tryModels cfg step { advanced with resolvedModel := model } record := by
  induction chain generalizing ctx with
  | nil =>
    unfold advanceFallback
    rw [hchain]
    rfl
  | cons candidate rest ih =>
    have hrest : cfg.fallbackModels.drop (ctx.fallbackModelIndex + 1) = rest := by
      rw [← List.tail_drop, hchain]
      rfl
    unfold tryFallbacks
    change (if candidate = currentModel cfg ctx then _ else _) = _
    by_cases hsame : candidate = currentModel cfg ctx
    · -- a model that is skipped moves the index only
      have hadvance : advanceFallback cfg ctx =
          advanceFallback cfg { ctx with fallbackModelIndex := ctx.fallbackModelIndex + 1 } := by
        unfold advanceFallback
        dsimp only
        rw [hchain, hrest, advanceFrom, if_neg (not_not.mpr hsame)]
        rfl
      rw [if_pos hsame, hadvance]
      exact ih _ hrest
    · have hadvance : advanceFallback cfg ctx =
          (some candidate, { ctx with fallbackModelIndex := ctx.fallbackModelIndex + 1 }) := by
        unfold advanceFallback
        rw [hchain, advanceFrom, if_pos hsame]
      rw [if_neg hsame, hadvance]
      unfold tryModels
      have heffect := tryStepWithRetries_effect cfg step (step.maxRetries + 1) 0 false
        { ctx with
          fallbackModelIndex := ctx.fallbackModelIndex + 1
          resolvedModel := candidate } record
      dsimp only
      generalize tryStepWithRetries cfg step (step.maxRetries + 1) 0 false
        { ctx with
          fallbackModelIndex := ctx.fallbackModelIndex + 1
          resolvedModel := candidate } record = tried at heffect
      obtain ⟨outcome, ctx', record'⟩ := tried
      have hindex : ctx'.fallbackModelIndex = ctx.fallbackModelIndex + 1 := heffect.index
      cases outcome with
      | billingExhausted =>
        dsimp only
        rw [hindex, hrest]
      | done => rfl
      | failed => rfl
      | runaway => rfl
      | cancelled => rfl

/-! ## One round of the loop -/

section Round

variable {cfg : EngineConfig} {step : Step} {ctx ctx' advanced : Context} {record record' : StepRecord}

/-- A round that the billing does not stop is the last one. -/
theorem retryLoop_ends {outcome : TryOutcome}
    (htried : tryStepWithRetries cfg step (step.maxRetries + 1) 0 false ctx record =
      (outcome, ctx', record')) (hbilling : outcome ≠ .billingExhausted) (fuel : Nat)
    (switches : List ModelSwitch) :
    retryLoop cfg step (fuel + 1) ctx record switches = some ⟨outcome, ctx', record', switches⟩ ∧
      tryModels cfg step ctx record = (outcome, ctx', record') := by
  unfold retryLoop tryModels
  rw [htried]
  cases outcome with
  | billingExhausted => exact absurd rfl hbilling
  | done | failed | runaway | cancelled => exact ⟨rfl, rfl⟩

/-- A round that the billing stops goes on with the next model. -/
theorem tryModels_advance
    (htried : tryStepWithRetries cfg step (step.maxRetries + 1) 0 false ctx record =
      (.billingExhausted, ctx', record')) :
    tryModels cfg step ctx record =
      match advanceFallback cfg ctx' with
      | (none, advanced) => (.failed, advanced, { record' with status := .failed })
      | (some model, advanced) =>
        tryModels cfg step { advanced with resolvedModel := model } record' := by
  rw [← tryFallbacks_advance cfg step _ ctx' record' rfl]
  unfold tryModels
  rw [htried]

/-- There is no next model. -/
theorem retryLoop_exhausted
    (htried : tryStepWithRetries cfg step (step.maxRetries + 1) 0 false ctx record =
      (.billingExhausted, ctx', record')) (hadvance : advanceFallback cfg ctx' = (none, advanced))
    (fuel : Nat) (switches : List ModelSwitch) :
    retryLoop cfg step (fuel + 1) ctx record switches =
        some ⟨.failed, advanced, { record' with status := .failed }, switches⟩ ∧
      tryModels cfg step ctx record = (.failed, advanced, { record' with status := .failed }) := by
  constructor
  · unfold retryLoop
    rw [htried]
    dsimp only
    rw [hadvance]
  · rw [tryModels_advance htried, hadvance]

/-- The loop switches to the next model. -/
theorem retryLoop_switches {model : Text}
    (htried : tryStepWithRetries cfg step (step.maxRetries + 1) 0 false ctx record =
      (.billingExhausted, ctx', record')) (hadvance : advanceFallback cfg ctx' = (some model, advanced))
    (fuel : Nat) (switches : List ModelSwitch) :
    retryLoop cfg step (fuel + 1) ctx record switches =
        retryLoop cfg step fuel { advanced with resolvedModel := model } record'
          (switches ++ [⟨currentModel cfg ctx', model, advanced.fallbackModelIndex⟩]) ∧
      tryModels cfg step ctx record =
        tryModels cfg step { advanced with resolvedModel := model } record' := by
  constructor
  · rw [retryLoop, htried]
    dsimp only
    rw [hadvance]
  · rw [tryModels_advance htried, hadvance]

end Round

/-! ## The whole loop -/

/-- The switches so far, in a loop that started at an index and has come to another. -/
structure SwitchesInv (start index : Nat) (switches : List ModelSwitch) : Prop where
  distinct : ∀ switch ∈ switches, switch.installed ≠ switch.failed
  ordered : (start :: (switches.map ModelSwitch.index ++ [index])).Pairwise (· ≤ ·)

theorem SwitchesInv.le {start index : Nat} {switches : List ModelSwitch}
    (h : SwitchesInv start index switches) {index' : Nat} (hle : index ≤ index') :
    SwitchesInv start index' switches := by
  refine ⟨h.distinct, ?_⟩
  have hordered := h.ordered
  rw [← List.cons_append, List.pairwise_append] at hordered ⊢
  refine ⟨hordered.1, List.pairwise_singleton _ _, ?_⟩
  intro a ha b hb
  have hai : a ≤ index := hordered.2.2 a ha index (by simp)
  rw [List.mem_singleton.mp hb]
  omega

theorem SwitchesInv.switch {start index : Nat} {switches : List ModelSwitch}
    (h : SwitchesInv start index switches) (s : ModelSwitch) (hne : s.installed ≠ s.failed)
    (hle : index ≤ s.index) : SwitchesInv start s.index (switches ++ [s]) := by
  refine ⟨?_, ?_⟩
  · intro switch hmem
    rcases List.mem_append.mp hmem with hold | hnew
    · exact h.distinct switch hold
    · rw [List.mem_singleton.mp hnew]
      exact hne
  · have hordered := (h.le hle).ordered
    rw [List.map_append, List.map_singleton, ← List.cons_append, ← List.cons_append,
      List.pairwise_append]
    rw [← List.cons_append] at hordered
    refine ⟨hordered, List.pairwise_singleton _ _, ?_⟩
    intro a ha b hb
    rw [List.mem_singleton.mp hb]
    rcases List.mem_append.mp ha with hold | hlast
    · exact (List.pairwise_append.mp hordered).2.2 a hold s.index (by simp)
    · rw [List.mem_singleton.mp hlast]

/-- What the loop over the models ends with. -/
structure LoopBound (cfg : EngineConfig) (step : Step) (start : Nat) (ctx : Context)
    (record : StepRecord) (e : RetryEnd) : Prop where
  status : (e.outcome = .cancelled ∧
      ∃ n, e.record.totalAttempts = n + 1 ∧ step.attempt n = .cancelled) ∨
    e.record.status ∈ [RecordStatus.done, .failed, .runaway]
  attempts : e.record.totalAttempts ≤
    record.totalAttempts + (step.maxRetries + 1) * (1 + remainingModels cfg ctx)
  limit : cfg.maxStepAttempts ≠ 0 →
    e.record.totalAttempts ≤ max record.totalAttempts cfg.maxStepAttempts
  index : e.ctx.fallbackModelIndex ≤ max ctx.fallbackModelIndex cfg.fallbackModels.length
  switches : SwitchesInv start e.ctx.fallbackModelIndex e.switches

/-- A round that ends the loop. -/
theorem LoopBound.of_round {cfg : EngineConfig} {step : Step} {start : Nat} {ctx ctx' : Context}
    {record record' : StepRecord} {outcome : TryOutcome} {e : RetryEnd}
    (heffect : TryEffect cfg step (step.maxRetries + 1) ctx record outcome ctx' record')
    (htotal : e.record.totalAttempts = record'.totalAttempts)
    (hstatus : (e.outcome = .cancelled ∧ outcome = .cancelled) ∨
      e.record.status ∈ [RecordStatus.done, .failed, .runaway])
    (hindex : e.ctx.fallbackModelIndex = ctx.fallbackModelIndex ∨
      e.ctx.fallbackModelIndex = max ctx.fallbackModelIndex cfg.fallbackModels.length)
    (hswitches : SwitchesInv start ctx.fallbackModelIndex e.switches) :
    LoopBound cfg step start ctx record e := by
  refine ⟨?_, ?_, ?_, by omega, hswitches.le (by omega)⟩
  · rw [htotal]
    rcases hstatus with ⟨he, hcancelled⟩ | hdecided
    · exact .inl ⟨he, heffect.cancelled hcancelled⟩
    · exact .inr hdecided
  · rw [htotal, Nat.mul_add, Nat.mul_one, ← Nat.add_assoc]
    exact heffect.attempts_le.trans (Nat.le_add_right _ _)
  · intro hmax
    rw [htotal]
    exact heffect.limit hmax

/-- A round that ends in a switch, and what the rounds after it end with. -/
theorem LoopBound.of_switch {cfg : EngineConfig} {step : Step} {start : Nat} {ctx ctx' : Context}
    {record record' : StepRecord} {outcome : TryOutcome} {e : RetryEnd}
    (next : Context) (heffect : TryEffect cfg step (step.maxRetries + 1) ctx record outcome ctx' record')
    (hlt : ctx.fallbackModelIndex < next.fallbackModelIndex)
    (hle : next.fallbackModelIndex ≤ cfg.fallbackModels.length)
    (hrest : LoopBound cfg step start next record' e) : LoopBound cfg step start ctx record e := by
  refine ⟨hrest.status, ?_, ?_, ?_, hrest.switches⟩
  · have hround := heffect.attempts_le
    have hrounds := hrest.attempts
    -- the switch uses up at least one model of the chain
    have hfewer : 1 + remainingModels cfg next ≤ remainingModels cfg ctx := by
      unfold remainingModels
      omega
    have hmul := Nat.mul_le_mul_left (step.maxRetries + 1) hfewer
    rw [Nat.mul_add (step.maxRetries + 1) 1 (remainingModels cfg ctx), Nat.mul_one]
    omega
  · intro hmax
    have hround := heffect.limit hmax
    have hrounds := hrest.limit hmax
    omega
  · have hindex := hrest.index
    omega

theorem retryLoop_bound (cfg : EngineConfig) (step : Step) (start : Nat) (ctx : Context)
    (record : StepRecord) (switches : List ModelSwitch) (hrec : Describes step record)
    (hswitches : SwitchesInv start ctx.fallbackModelIndex switches) :
    ∃ e : RetryEnd,
      (∀ fuel, remainingModels cfg ctx < fuel →
        retryLoop cfg step fuel ctx record switches = some e) ∧
      tryModels cfg step ctx record = (e.outcome, e.ctx, e.record) ∧
      LoopBound cfg step start ctx record e := by
  -- the induction is on the models that are left, which every switch makes fewer
  induction hleft : remainingModels cfg ctx using Nat.strong_induction_on generalizing ctx record switches
    with
  | _ left ih =>
    have hsome : ∀ fuel, left < fuel → ∃ f, fuel = f + 1 := fun fuel hfuel => ⟨fuel - 1, by omega⟩
    have heffect := tryStepWithRetries_effect cfg step (step.maxRetries + 1) 0 false ctx record
    have hend := tryStepWithRetries_end cfg step (step.maxRetries + 1) 0 false ctx record hrec
      (.inr (by omega))
    cases htried : tryStepWithRetries cfg step (step.maxRetries + 1) 0 false ctx record with
    | mk outcome rest =>
      obtain ⟨ctx', record'⟩ := rest
      rw [htried] at heffect hend
      have hsame : ctx'.fallbackModelIndex = ctx.fallbackModelIndex := heffect.index
      by_cases hbilling : outcome = .billingExhausted
      · obtain ⟨hstatus, hpos, hrec'⟩ := hend.failed (.inr hbilling)
        dsimp only at hstatus hpos hrec'
        rw [hbilling] at htried
        cases hadvance : advanceFallback cfg ctx' with
        | mk model advanced =>
          cases model with
          | none =>
            refine ⟨⟨.failed, advanced, { record' with status := .failed }, switches⟩, ?_,
              (retryLoop_exhausted htried hadvance 0 switches).2, ?_⟩
            · intro fuel hfuel
              obtain ⟨f, rfl⟩ := hsome fuel hfuel
              exact (retryLoop_exhausted htried hadvance f switches).1
            · have hindex := advanceFallback_none hadvance
              rw [hsame] at hindex
              exact LoopBound.of_round heffect rfl (.inr (by simp)) (.inr hindex) hswitches
          | some model =>
            obtain ⟨hne, hlt, hle⟩ := advanceFallback_some hadvance
            rw [hsame] at hlt
            have hfewer : remainingModels cfg { advanced with resolvedModel := model } < left := by
              unfold remainingModels at hleft ⊢
              dsimp only
              omega
            obtain ⟨e, hloop, htry, hbound⟩ := ih
              (remainingModels cfg { advanced with resolvedModel := model }) hfewer
              { advanced with resolvedModel := model } record'
              (switches ++ [⟨currentModel cfg ctx', model, advanced.fallbackModelIndex⟩]) hrec'
              (hswitches.switch ⟨currentModel cfg ctx', model, advanced.fallbackModelIndex⟩ hne hlt.le) rfl
            refine ⟨e, ?_, (retryLoop_switches htried hadvance 0 switches).2.trans htry,
              LoopBound.of_switch { advanced with resolvedModel := model } heffect hlt hle hbound⟩
            intro fuel hfuel
            obtain ⟨f, rfl⟩ := hsome fuel hfuel
            rw [(retryLoop_switches htried hadvance f switches).1]
            exact hloop f (by omega)
      · refine ⟨⟨outcome, ctx', record', switches⟩, ?_, (retryLoop_ends htried hbilling 0 switches).2, ?_⟩
        · intro fuel hfuel
          obtain ⟨f, rfl⟩ := hsome fuel hfuel
          exact (retryLoop_ends htried hbilling f switches).1
        · refine LoopBound.of_round heffect rfl ?_ (.inl hsame) hswitches
          cases outcome with
          | done => exact .inr (by rw [hend.done rfl]; simp)
          | failed => exact .inr (by rw [(hend.failed (.inl rfl)).1]; simp)
          | billingExhausted => exact absurd rfl hbilling
          | runaway => exact .inr (by rw [hend.runaway rfl]; simp)
          | cancelled => exact .inl ⟨rfl, rfl⟩

/-- `_execute_with_retries` ends: with as many rounds as there are models left the loop has come to its
result, a decided record unless the task was cancelled. Every attempt is counted in the record, which
stays below both limits, the index only moves on and within the chain, and no switch goes to the model
that failed. -/
theorem executeWithRetries_bounded (cfg : EngineConfig) (step : Step) (ctx : Context) :
    ∃ e : RetryEnd,
      (∀ fuel, cfg.fallbackModels.length - ctx.fallbackModelIndex < fuel →
        retryLoop cfg step fuel ctx { stepName := step.name, status := .pending } [] = some e) ∧
      executeWithRetries cfg step ctx = (e.outcome, e.ctx, e.record) ∧
      ((e.outcome = .cancelled ∧ ∃ n, e.record.totalAttempts = n + 1 ∧ step.attempt n = .cancelled) ∨
        e.record.status ∈ [RecordStatus.done, .failed, .runaway]) ∧
      e.record.totalAttempts ≤
        (step.maxRetries + 1) * (1 + (cfg.fallbackModels.length - ctx.fallbackModelIndex)) ∧
      (cfg.maxStepAttempts ≠ 0 → e.record.totalAttempts ≤ cfg.maxStepAttempts) ∧
      (ctx.fallbackModelIndex :: (e.switches.map ModelSwitch.index ++
        [e.ctx.fallbackModelIndex])).Pairwise (· ≤ ·) ∧
      e.ctx.fallbackModelIndex ≤ max ctx.fallbackModelIndex cfg.fallbackModels.length ∧
      ∀ switch ∈ e.switches, switch.installed ≠ switch.failed := by
  have hswitches : SwitchesInv ctx.fallbackModelIndex ctx.fallbackModelIndex [] := ⟨by simp, by simp⟩
  obtain ⟨e, hloop, htry, hbound⟩ := retryLoop_bound cfg step ctx.fallbackModelIndex ctx _ []
    (Describes.start step) hswitches
  refine ⟨e, hloop, htry, hbound.status, ?_, ?_, hbound.switches.ordered, hbound.index,
    hbound.switches.distinct⟩
  · simpa [remainingModels] using hbound.attempts
  · intro hmax
    simpa using hbound.limit hmax

end Core

import SovaVerified.Core.Proofs.RetryProofs

/-!
# The shape of a run, and what it reports

`executeStep_effect` says once what a step of the pipeline does to the records, the result and the row
of the run; the shape of a run follows from it by induction over the steps. A run that ends at a failed
step reports what the step's record says, which is about the last attempt only as long as the record's
gate is.
-/

namespace Core

/-- The step was skipped, or completed without asking for an approval. -/
def StepRecord.Passed (r : StepRecord) : Prop :=
  r.status = .skipped ∨ (r.status = .done ∧ r.result.any StepResult.awaitingApproval = false)

/-- The result ends the run with a status of its own, and the row of the run has the same. -/
structure Persisted (s : EngineState) : Prop where
  status : s.taskRun.status = s.result.finalStatus
  terminal : s.result.finalStatus ∈ [TaskStatus.done, .failed, .paused, .awaitingApproval]

/-! ## One step -/

/-- The engine handles the failure of a step whose record describes the attempts at it. -/
def FailureOf (step : Step) (record : StepRecord) (s : EngineState) : Prop :=
  (∃ s₀, s = handleStepFailure s₀ record) ∧ 0 < record.totalAttempts ∧ Describes step record

/-- What a step of the pipeline does. -/
inductive StepEffect (s : EngineState) (step : Step) : StepOutcome → Prop
  | goOn {s' : EngineState} {r : StepRecord} (hname : r.stepName = step.name) (hpassed : r.Passed)
      (hhandled : s'.handled = s.handled ++ [step.name])
      (hrecords : s'.result.stepRecords = s.result.stepRecords ++ [r])
      (hsuccess : s'.result.success = s.result.success) : StepEffect s step (.goOn s')
  /-- The run stops before the step is begun. -/
  | stopBefore {s' : EngineState} (hhandled : s'.handled = s.handled)
      (hrecords : s'.result.stepRecords = s.result.stepRecords)
      (hsuccess : s'.result.success = s.result.success) (hpersisted : Persisted s') :
      StepEffect s step (.abort s')
  /-- The run stops at what the step came to. -/
  | stopAfter {s' : EngineState} {r : StepRecord} (hname : r.stepName = step.name)
      (hpassed : ¬ r.Passed) (hhandled : s'.handled = s.handled ++ [step.name])
      (hrecords : s'.result.stepRecords = s.result.stepRecords ++ [r])
      (hsuccess : s'.result.success = s.result.success) (hpersisted : Persisted s')
      (hfailure : r.status = .failed → FailureOf step r s') : StepEffect s step (.abort s')
  | raisedBefore : StepEffect s step (.raised s)
  | raisedDuring {s' : EngineState} (hhandled : s'.handled = s.handled ++ [step.name]) :
      StepEffect s step (.raised s')

theorem persisted_stopRun (s : EngineState) (name : Text) {status : TaskStatus}
    (failureType : FailureType) (message : Text) (hstatus : status = .failed ∨ status = .paused) :
    Persisted (stopRun s name status failureType message) := by
  refine ⟨rfl, ?_⟩
  show status ∈ _
  rcases hstatus with h | h
  · simp [h]
  · simp [h]

/-- The step counts as a gate failure where the record's gate did not pass. -/
theorem handleStepFailure_finalStatus (s : EngineState) (record : StepRecord) :
    (handleStepFailure s record).result.finalStatus = .failed ∨
      (handleStepFailure s record).result.finalStatus = .paused := by
  unfold handleStepFailure
  cases hgate : record.gate with
  | none => exact .inl rfl
  | some gate =>
    cases hpassed : gate.passed with
    | true =>
      left
      simp [hpassed, updateTaskRunStatus, recordFailure]
    | false =>
      right
      simp [hpassed, updateTaskRunStatus, recordFailure]

theorem persisted_handleStepFailure (s : EngineState) (record : StepRecord) :
    Persisted (handleStepFailure s record) := by
  refine ⟨rfl, ?_⟩
  rcases handleStepFailure_finalStatus s record with h | h
  · simp [h]
  · simp [h]

theorem afterStep_effect {s s₁ : EngineState} {step : Step} {outcome : TryOutcome}
    {record : StepRecord} (hend : LoopEnd step outcome record)
    (hhandled : s₁.handled = s.handled ++ [step.name]) (hresult : s₁.result = s.result) :
    StepEffect s step (afterStep s₁ outcome record) := by
  have hrecords : s₁.result.stepRecords = s.result.stepRecords := by rw [hresult]
  have hsuccess : s₁.result.success = s.result.success := by rw [hresult]
  unfold afterStep
  by_cases hcancelled : outcome = .cancelled
  · rw [if_pos hcancelled]
    exact .raisedDuring hhandled
  · rw [if_neg hcancelled]
    dsimp only
    by_cases hrunaway : record.status = .runaway
    · rw [if_pos hrunaway]
      have hnot : ¬ record.Passed := by simp [StepRecord.Passed, hrunaway]
      exact .stopAfter hend.name hnot hhandled (congrArg (· ++ [record]) hrecords) hsuccess
        (persisted_stopRun _ _ _ _ (.inr rfl)) (fun h => absurd (hrunaway.symm.trans h) (by simp))
    · rw [if_neg hrunaway]
      by_cases hfailed : record.status = .failed
      · rw [if_pos hfailed]
        have hnot : ¬ record.Passed := by simp [StepRecord.Passed, hfailed]
        have hfailure : 0 < record.totalAttempts ∧ Describes step record := by
          cases outcome with
          | done => exact absurd ((hend.done rfl).symm.trans hfailed) (by simp)
          | runaway => exact absurd (hend.runaway rfl) hrunaway
          | failed => exact (hend.failed (.inl rfl)).2
          | billingExhausted => exact (hend.failed (.inr rfl)).2
          | cancelled => exact absurd rfl hcancelled
        exact .stopAfter hend.name hnot hhandled (congrArg (· ++ [record]) hrecords) hsuccess
          (persisted_handleStepFailure _ _) (fun _ => ⟨⟨_, rfl⟩, hfailure⟩)
      · rw [if_neg hfailed]
        have hdone : record.status = .done := by
          cases outcome with
          | done => exact hend.done rfl
          | runaway => exact absurd (hend.runaway rfl) hrunaway
          | failed => exact absurd (hend.failed (.inl rfl)).1 hfailed
          | billingExhausted => exact absurd (hend.failed (.inr rfl)).1 hfailed
          | cancelled => exact absurd rfl hcancelled
        by_cases happroval : record.result.any StepResult.awaitingApproval = true
        · rw [if_pos happroval]
          have hnot : ¬ record.Passed := by simp [StepRecord.Passed, hdone, happroval]
          exact .stopAfter hend.name hnot hhandled (congrArg (· ++ [record]) hrecords) hsuccess
            ⟨rfl, by simp [handleStepApproval, updateTaskRunStatus]⟩
            (fun h => absurd (hdone.symm.trans h) (by simp))
        · rw [if_neg happroval]
          have hpassed : record.Passed := .inr ⟨hdone, by simpa using happroval⟩
          exact .goOn hend.name hpassed hhandled (congrArg (· ++ [record]) hrecords) hsuccess

theorem executeStep_effect (cfg : EngineConfig) (s : EngineState) (step : Step) :
    StepEffect s step (executeStep cfg s step) := by
  unfold executeStep
  split
  · exact .stopBefore rfl rfl rfl (persisted_stopRun _ _ _ _ (.inl rfl))
  · split
    · exact .stopBefore rfl rfl rfl (persisted_stopRun _ _ _ _ (.inr rfl))
    · split
      · exact .stopBefore rfl rfl rfl (persisted_stopRun _ _ _ _ (.inr rfl))
      · split
        · exact .raisedBefore
        · exact .goOn rfl (.inl rfl) rfl rfl rfl
        · exact afterStep_effect (executeWithRetries_end cfg step s.ctx) rfl rfl

/-! ## The whole run -/

/-- The steps so far all passed, each with its record. -/
structure UnderWay (s : EngineState) : Prop where
  records : s.result.stepRecords.map StepRecord.stepName = s.handled
  passed : ∀ r ∈ s.result.stepRecords, r.Passed
  unfinished : s.result.success = false

theorem UnderWay.next {s s' : EngineState} {name : Text} {r : StepRecord} (hs : UnderWay s)
    (hname : r.stepName = name) (hpassed : r.Passed) (hhandled : s'.handled = s.handled ++ [name])
    (hrecords : s'.result.stepRecords = s.result.stepRecords ++ [r])
    (hsuccess : s'.result.success = s.result.success) : UnderWay s' := by
  refine ⟨?_, ?_, hsuccess.trans hs.unfinished⟩
  · rw [hrecords, hhandled, List.map_append, hs.records, ← hname]
    rfl
  · intro x hx
    rw [hrecords, List.mem_append, List.mem_singleton] at hx
    rcases hx with hx | hx
    · exact hs.passed x hx
    · exact hx ▸ hpassed

/-- What the engine has done when it returns: the result is a success exactly when every step was
handled and passed. -/
structure Finished (all : List Text) (s : EngineState) : Prop where
  records : s.result.stepRecords.map StepRecord.stepName = s.handled
  success : s.result.success = true ↔ s.handled = all ∧ ∀ r ∈ s.result.stepRecords, r.Passed
  persisted : Persisted s

theorem runSteps_handled (cfg : EngineConfig) (s : EngineState) (steps : List Step) :
    (runSteps cfg s steps).state.handled <+: s.handled ++ steps.map Step.name := by
  induction steps generalizing s with
  | nil => simp [runSteps, RunOutcome.state, finalize, updateTaskRunStatus]
  | cons step steps ih =>
    have heffect := executeStep_effect cfg s step
    have hone : s.handled ++ [step.name] <+: s.handled ++ (step :: steps).map Step.name := by
      refine (List.prefix_append_right_inj _).mpr ?_
      exact ⟨steps.map Step.name, rfl⟩
    unfold runSteps
    generalize executeStep cfg s step = outcome at heffect
    cases heffect with
    | @goOn s₁ r hname hpassed hhandled hrecords hsuccess =>
      have hrest := ih s₁
      rw [hhandled, List.append_assoc] at hrest
      exact hrest
    | stopBefore hhandled hrecords hsuccess hpersisted =>
      simp [RunOutcome.state, hhandled]
    | stopAfter hname hpassed hhandled hrecords hsuccess hpersisted hfailure =>
      simp only [RunOutcome.state, hhandled]
      exact hone
    | raisedBefore => simp [RunOutcome.state]
    | raisedDuring hhandled =>
      simp only [RunOutcome.state, hhandled]
      exact hone

theorem runSteps_finished {cfg : EngineConfig} {s s' : EngineState} {steps : List Step}
    (hs : UnderWay s) (h : runSteps cfg s steps = .returned s') :
    Finished (s.handled ++ steps.map Step.name) s' := by
  induction steps generalizing s with
  | nil =>
    cases h
    refine ⟨hs.records, ?_, ⟨rfl, by simp [finalize, updateTaskRunStatus]⟩⟩
    refine ⟨fun _ => ⟨by simp [finalize, updateTaskRunStatus], hs.passed⟩, fun _ => rfl⟩
  | cons step steps ih =>
    have heffect := executeStep_effect cfg s step
    unfold runSteps at h
    generalize executeStep cfg s step = outcome at heffect h
    cases heffect with
    | goOn hname hpassed hhandled hrecords hsuccess =>
      have hrest := ih (hs.next hname hpassed hhandled hrecords hsuccess) h
      rw [hhandled, List.append_assoc] at hrest
      exact hrest
    | stopBefore hhandled hrecords hsuccess hpersisted =>
      cases h
      refine ⟨by rw [hrecords, hhandled, hs.records], ?_, hpersisted⟩
      rw [hsuccess, hs.unfinished]
      refine ⟨fun h => absurd h (by simp), fun h => ?_⟩
      -- the step that stopped the run was not handled
      have hlen := congrArg List.length h.1
      simp [hhandled] at hlen
    | stopAfter hname hpassed hhandled hrecords hsuccess hpersisted hfailure =>
      cases h
      refine ⟨?_, ?_, hpersisted⟩
      · rw [hrecords, hhandled, List.map_append, hs.records, ← hname]
        rfl
      · rw [hsuccess, hs.unfinished]
        refine ⟨fun h => absurd h (by simp), fun h => ?_⟩
        exact absurd (h.2 _ (by rw [hrecords]; simp)) hpassed
    | raisedBefore => cases h
    | raisedDuring hhandled => cases h

theorem underWay_initialState (inputs : RunInputs) : UnderWay (initialState inputs) := by
  refine ⟨rfl, ?_, rfl⟩
  intro r hr
  cases hr

/-- The steps that the engine skips or executes are a prefix of the list, in order. A run that returns
is a success exactly when the issue is within its budget and every step was skipped, or completed
without asking for an approval; and the status in its row is the one in its result, which is done,
failed, paused or awaiting approval. -/
theorem run_shape (cfg : EngineConfig) (inputs : RunInputs) (steps : List Step) :
    (run cfg inputs steps).state.handled <+: steps.map Step.name ∧
      ∀ s, run cfg inputs steps = .returned s →
        s.result.stepRecords.map StepRecord.stepName = s.handled ∧
        (s.result.success = true ↔ perIssueBudgetExceeded cfg inputs = false ∧
          s.handled = steps.map Step.name ∧ ∀ r ∈ s.result.stepRecords, r.Passed) ∧
        s.taskRun.status = s.result.finalStatus ∧
        s.result.finalStatus ∈ [TaskStatus.done, .failed, .paused, .awaitingApproval] := by
  have hunder := underWay_initialState inputs
  by_cases hbudget : perIssueBudgetExceeded cfg inputs = true
  · have hrun : run cfg inputs steps = _ := if_pos hbudget
    rw [hrun]
    refine ⟨List.nil_prefix, ?_⟩
    intro s hs
    cases hs
    have hpersisted := persisted_stopRun (initialState inputs) "budget_check".toList
      .perIssueBudgetExceeded
      ("Per-issue budget exceeded: $".toList ++ cfg.showCents inputs.priorCost ++
        " spent on issue #".toList ++ inputs.issueNumber ++ " (limit: $".toList ++
        cfg.showCost cfg.maxIssueBudget ++ ")".toList) (.inr rfl)
    refine ⟨rfl, ?_, hpersisted.status, hpersisted.terminal⟩
    rw [hbudget]
    exact ⟨fun h => (by cases h), fun h => by cases h.1⟩
  · have hwithin : perIssueBudgetExceeded cfg inputs = false := by simpa using hbudget
    have hrun : run cfg inputs steps = runSteps cfg (initialState inputs) steps := if_neg hbudget
    rw [hrun]
    refine ⟨runSteps_handled cfg (initialState inputs) steps, ?_⟩
    intro s hs
    obtain ⟨hrecords, hsuccess, hpersisted⟩ := runSteps_finished hunder hs
    refine ⟨hrecords, ?_, hpersisted.status, hpersisted.terminal⟩
    rw [hsuccess]
    exact ⟨fun h => ⟨hwithin, h⟩, fun h => h.2⟩

/-- An engine with a budget of 10 and no fallback models. -/
def plainConfig : EngineConfig where
  maxBudget := 10
  maxIssueBudget := 10
  model := "opus".toList
  classifyError := fun _ => .other
  showCost := fun _ => []
  showCents := fun _ => []
  showSeconds := fun _ => []

/-- A step that completes and asks for an approval. -/
def approvalStep : Step where
  name := "spec".toList
  attempt := fun _ => .ran (.returned { success := true, summary := [], awaitingApproval := true }) 0
    (.returned { passed := true }) (.returned { passed := true }) 0

theorem run_approvalStep : run plainConfig {} [approvalStep] =
    .returned (run plainConfig {} [approvalStep]).state := by
  decide +kernel

theorem run_shape_approval :
    (run plainConfig {} [approvalStep]).state.taskRun.status = .awaitingApproval ∧
      (run plainConfig {} [approvalStep]).state.result.finalStatus = .awaitingApproval := by
  have hshape := (run_shape plainConfig {} [approvalStep]).2 _ run_approvalStep
  have hstatus : (run plainConfig {} [approvalStep]).state.result.finalStatus = .awaitingApproval := by
    decide +kernel
  exact ⟨hshape.2.2.1.trans hstatus, hstatus⟩

/-- The only step of the run has completed, but the run waits for its approval. -/
theorem run_awaiting_not_success :
    ¬ ∀ (cfg : EngineConfig) (inputs : RunInputs) (steps : List Step) (s : EngineState),
      run cfg inputs steps = .returned s →
        (s.result.success = true ↔
          s.result.stepRecords.map StepRecord.stepName = steps.map Step.name ∧
            ∀ r ∈ s.result.stepRecords, r.status = .done ∨ r.status = .skipped) := by
  intro hclaim
  have hsuccess := (hclaim plainConfig {} [approvalStep] _ run_approvalStep).mpr (by decide +kernel)
  exact absurd hsuccess (by decide +kernel)

/-! ## Failure reports -/

/-- What a run reports about its failure: the status and the error of its result, and the type of the
failure record. -/
def EngineState.report (s : EngineState) : TaskStatus × Option FailureType × Option Text :=
  (s.result.finalStatus, s.failures.getLast?.map FailureRecord.failureType, s.result.error)

/-- What a run should report about an attempt that failed. -/
def Attempt.report (name : Text) (a : Attempt) : TaskStatus × Option FailureType × Option Text :=
  if a.failedAtGate then (.paused, some .gateCheck, a.gate.bind GateCheckResult.reason)
  else (.failed, some .exception, resultError (a.result name))

theorem report_handleStepFailure (s : EngineState) (record : StepRecord) :
    (handleStepFailure s record).report =
      if record.gate.any (fun gate => !gate.passed) then
        (.paused, some .gateCheck, record.gate.bind GateCheckResult.reason)
      else (.failed, some .exception, resultError record.result) := by
  unfold handleStepFailure EngineState.report
  cases hgate : record.gate with
  | none => simp [updateTaskRunStatus, recordFailure]
  | some gate =>
    cases hpassed : gate.passed with
    | true => simp [hpassed, updateTaskRunStatus, recordFailure]
    | false => simp [hpassed, updateTaskRunStatus, recordFailure]

/-- The report of a failed step is about its last attempt exactly when that attempt failed at its gate,
or no attempt did. -/
theorem report_iff {step : Step} {record : StepRecord} {n : Nat} (s : EngineState)
    (hrec : Describes step record) (hn : record.totalAttempts = n + 1) :
    (handleStepFailure s record).report = (step.attempt n).report step.name ↔
      (step.attempt n).failedAtGate = true ∨ ∀ k ≤ n, (step.attempt k).failedAtGate = false := by
  have hgate : record.gate = (step.attempt n).gate.or (gateAfter step n) := by rw [hrec.gate, hn]; rfl
  rw [report_handleStepFailure, hgate, hrec.result n hn]
  unfold Attempt.report
  cases hlast : (step.attempt n).gate with
  | some g =>
    have hfailed : g.passed = false := hrec.unpassed n (by omega) g hlast
    have hat : (step.attempt n).failedAtGate = true := by simp [Attempt.failedAtGate, hlast, hfailed]
    simp [hat, hfailed]
  | none =>
    have hat : (step.attempt n).failedAtGate = false := by simp [Attempt.failedAtGate, hlast]
    rw [Option.none_or, hat]
    cases hbefore : gateAfter step n with
    | none =>
      have hnone := gateAfter_eq_none hbefore
      have hall : ∀ k ≤ n, (step.attempt k).failedAtGate = false := by
        intro k hk
        by_cases hkn : k = n
        · exact hkn ▸ hat
        · simp [Attempt.failedAtGate, hnone k (by omega)]
      simpa using hall
    | some g =>
      -- the gate of an earlier attempt is still in the record
      obtain ⟨k, hk, hkgate⟩ := gateAfter_eq_some hbefore
      have hfailed : g.passed = false := hrec.unpassed k (by omega) g hkgate
      have hkat : (step.attempt k).failedAtGate = true := by
        simp [Attempt.failedAtGate, hkgate, hfailed]
      have hnot : ¬ ∀ k ≤ n, (step.attempt k).failedAtGate = false := by
        intro hall
        rw [hall k (by omega)] at hkat
        cases hkat
      simp [hfailed, hnot]

/-- A run whose last record failed ends with the failure of the step of that record. -/
theorem runSteps_failed {cfg : EngineConfig} {s s' : EngineState} {steps : List Step}
    {record : StepRecord} (hs : UnderWay s) (h : runSteps cfg s steps = .returned s')
    (hlast : s'.result.stepRecords.getLast? = some record) (hfailed : record.status = .failed) :
    ∃ pre step post, steps = pre ++ step :: post ∧
      s'.result.stepRecords.length = s.result.stepRecords.length + pre.length + 1 ∧
      FailureOf step record s' := by
  have hnot : ¬ record.Passed := by simp [StepRecord.Passed, hfailed]
  induction steps generalizing s with
  | nil =>
    cases h
    exact absurd (hs.passed record (List.mem_of_getLast? hlast)) hnot
  | cons step steps ih =>
    have heffect := executeStep_effect cfg s step
    unfold runSteps at h
    generalize executeStep cfg s step = outcome at heffect h
    cases heffect with
    | goOn hname hpassed hhandled hrecords hsuccess =>
      obtain ⟨pre, step', post, hsteps, hlen, hfailure⟩ :=
        ih (hs.next hname hpassed hhandled hrecords hsuccess) h
      refine ⟨step :: pre, step', post, by rw [hsteps]; rfl, ?_, hfailure⟩
      rw [hlen, hrecords]
      simp
      omega
    | stopBefore hhandled hrecords hsuccess hpersisted =>
      cases h
      rw [hrecords] at hlast
      exact absurd (hs.passed record (List.mem_of_getLast? hlast)) hnot
    | stopAfter hname hpassed hhandled hrecords hsuccess hpersisted hfailure =>
      cases h
      rw [hrecords, List.getLast?_concat] at hlast
      cases hlast
      refine ⟨[], step, steps, rfl, ?_, hfailure hfailed⟩
      rw [hrecords]
      simp
    | raisedBefore => cases h
    | raisedDuring hhandled => cases h

theorem run_failed {cfg : EngineConfig} {inputs : RunInputs} {steps : List Step} {s : EngineState}
    {record : StepRecord} {step : Step} (h : run cfg inputs steps = .returned s)
    (hlast : s.result.stepRecords.getLast? = some record) (hfailed : record.status = .failed)
    (hstep : steps[s.result.stepRecords.length - 1]? = some step) : FailureOf step record s := by
  unfold run at h
  dsimp only at h
  by_cases hbudget : perIssueBudgetExceeded cfg inputs = true
  · rw [if_pos hbudget] at h
    cases h
    cases hlast
  · rw [if_neg hbudget] at h
    obtain ⟨pre, step', post, hsteps, hlen, hfailure⟩ :=
      runSteps_failed (underWay_initialState inputs) h hlast hfailed
    have hzero : (initialState inputs).result.stepRecords.length = 0 := rfl
    have hindex : s.result.stepRecords.length - 1 = pre.length := by omega
    have hget : steps[pre.length]? = some step' := by simp [hsteps]
    rw [hindex, hget] at hstep
    cases hstep
    exact hfailure

/-- A run reports a failure as a gate failure. -/
def EngineState.reportsGateFailure (s : EngineState) : Prop :=
  s.result.finalStatus = .paused ∧ s.failures.getLast?.map FailureRecord.failureType = some .gateCheck

/-- The report is the one of the given attempt; in particular it is a gate failure exactly when the
attempt failed at its gate. -/
def ReportsAttempt (s : EngineState) (name : Text) (a : Attempt) : Prop :=
  s.report = a.report name ∧ (s.reportsGateFailure ↔ a.failedAtGate = true)

theorem reportsAttempt_iff (s : EngineState) (name : Text) (a : Attempt) :
    ReportsAttempt s name a ↔ s.report = a.report name := by
  refine ⟨fun h => h.1, fun h => ⟨h, ?_⟩⟩
  unfold EngineState.reportsGateFailure
  have hstatus : s.result.finalStatus = (a.report name).1 := congrArg Prod.fst h
  have htype : s.failures.getLast?.map FailureRecord.failureType = (a.report name).2.1 :=
    congrArg (fun r => r.2.1) h
  rw [hstatus, htype]
  unfold Attempt.report
  by_cases hat : a.failedAtGate = true
  · simp [hat]
  · simp [hat]

/-- The report of a run that ends at a failed step is the one of the step's last attempt exactly when
that attempt failed at its gate, or no attempt at the step did. -/
theorem failure_report_last_attempt {cfg : EngineConfig} {inputs : RunInputs} {steps : List Step}
    {s : EngineState} {record : StepRecord} {step : Step}
    (h : run cfg inputs steps = .returned s)
    (hlast : s.result.stepRecords.getLast? = some record) (hfailed : record.status = .failed)
    (hstep : steps[s.result.stepRecords.length - 1]? = some step) :
    ReportsAttempt s step.name (step.attempt (record.totalAttempts - 1)) ↔
      (step.attempt (record.totalAttempts - 1)).failedAtGate = true ∨
        ∀ k < record.totalAttempts, (step.attempt k).failedAtGate = false := by
  obtain ⟨⟨s₀, hs₀⟩, hpos, hrec⟩ := run_failed h hlast hfailed hstep
  obtain ⟨n, hn⟩ : ∃ n, record.totalAttempts = n + 1 := ⟨record.totalAttempts - 1, by omega⟩
  have hindex : record.totalAttempts - 1 = n := by omega
  rw [reportsAttempt_iff, hindex, hs₀, report_iff s₀ hrec hn, hn]
  simp only [Nat.lt_succ_iff]

/-- An attempt whose step returns an error. -/
def erringAttempt : Attempt :=
  .ran (.returned { success := false, summary := [], error := some "tests fail".toList }) 0
    (.returned { passed := true }) (.returned { passed := true }) 0

/-- An attempt whose step succeeds and whose structural gate does not pass. -/
def gatedAttempt : Attempt :=
  .ran (.returned { success := true, summary := [] }) 0
    (.returned { passed := false, reason := some "no commits".toList }) (.returned { passed := true }) 0

/-- A step with one retry whose first attempt is the given one and whose second returns an error. -/
def retriedStep (first : Attempt) : Step where
  name := "develop".toList
  maxRetries := 1
  attempt := fun n => if n = 0 then first else erringAttempt

/-- The record of the step at the end of a run. -/
def retriedRecord (gate : Option GateCheckResult) : StepRecord where
  stepName := "develop".toList
  status := .failed
  result := some { success := false, summary := [], error := some "tests fail".toList }
  gate := gate
  retries := 1
  totalAttempts := 2

/-- Both attempts return an error, and the run reports it. -/
theorem failure_report_last_attempt_erring :
    ReportsAttempt (run plainConfig {} [retriedStep erringAttempt]).state "develop".toList
      erringAttempt := by
  have hiff := @failure_report_last_attempt plainConfig {} [retriedStep erringAttempt]
    (run plainConfig {} [retriedStep erringAttempt]).state (retriedRecord none)
    (retriedStep erringAttempt) (by decide +kernel) (by decide +kernel) rfl
    (by
      have hlen : (run plainConfig {} [retriedStep erringAttempt]).state.result.stepRecords.length
          = 1 := by decide +kernel
      rw [hlen]
      rfl)
  exact hiff.mpr (.inr (by decide +kernel))

/-- The second and last attempt returns an error, but the run is reported as the gate failure of the
first. -/
theorem failure_report_stale_gate :
    ¬ ∀ (cfg : EngineConfig) (inputs : RunInputs) (steps : List Step) (s : EngineState)
      (record : StepRecord) (step : Step), run cfg inputs steps = .returned s →
      s.result.stepRecords.getLast? = some record → record.status = .failed →
      steps[s.result.stepRecords.length - 1]? = some step →
      ReportsAttempt s step.name (step.attempt (record.totalAttempts - 1)) := by
  intro hclaim
  have hlen : (run plainConfig {} [retriedStep gatedAttempt]).state.result.stepRecords.length = 1 := by
    decide +kernel
  have hreport := hclaim plainConfig {} [retriedStep gatedAttempt]
    (run plainConfig {} [retriedStep gatedAttempt]).state
    (retriedRecord (some { passed := false, reason := some "no commits".toList }))
    (retriedStep gatedAttempt) (by decide +kernel) (by decide +kernel) rfl (by rw [hlen]; rfl)
  have hstatus := congrArg Prod.fst hreport.1
  exact absurd hstatus (by decide +kernel)

end Core

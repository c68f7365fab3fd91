import SovaVerified.Dashboard.Finalize
import SovaVerified.Dashboard.Proofs.StartAgentProofs

/-!
# When the end of an agent gives its slot back

An exception that no handler catches ends `_wait_and_finalize` before the agent is taken out of the pool. The
removal is reached exactly when none of the calls on the way raises such an exception, and the run is finished
exactly when its row was finished already or the transaction that finishes it is committed.
-/

namespace Dashboard

open Exceptions

variable {o : FinalizeOutside} {agent : ExitingAgent} {code : Int} {c : Control} {runId : Nat}

/-! ## The calls before the row is written -/

/-- The role names the merge of a pull request. -/
def IsMergeRole (role : Text) : Prop := ∃ name ∈ (roleParts role).head?, mergeRoles.contains name = true

/-- The checks of a merge do not raise: neither the configuration nor the state of the pull request. -/
def MergedCheckReturns (o : FinalizeOutside) : Prop :=
  ¬ Escapes PyException.isOsOrRuntime o.mergedRepo ∧
    ∀ repo, o.mergedRepo = .ok repo → repo ≠ [] → ¬ Escapes PyException.isOsOrRuntime o.prState

/-- The run counts as a success: by its exit code, or because its merge went through or is queued. -/
def CountsAsSuccess (o : FinalizeOutside) (agent : ExitingAgent) (code : Int) : Prop :=
  streamExitCode o code = 0 ∨
    agent.prNumber.isSome = true ∧ IsMergeRole agent.role ∧
      (checkPrMergedOnFailure o = .ok true ∨ checkMergeQueueOnFailure o = true)

theorem checkPrMergedOnFailure_returns_iff : Returns (checkPrMergedOnFailure o) ↔ MergedCheckReturns o := by
  unfold checkPrMergedOnFailure
  rw [returns_handling_iff]
  unfold MergedCheckReturns
  cases hrepo : o.mergedRepo with
  | error e => simp [Escapes, bind, Except.bind]
  | ok repo =>
    cases repo with
    | nil => simp [Escapes, bind, Except.bind, pure, Except.pure]
    | cons ch t =>
      cases hstate : o.prState with
      | error e => simp [Escapes, bind, Except.bind]
      | ok state => simp [Escapes, bind, Except.bind, pure, Except.pure]

theorem commandName_returns_iff {role : Text} : Returns (commandName role) ↔ roleParts role ≠ [] := by
  unfold commandName
  cases hparts : roleParts role with
  | nil => simp [Returns]
  | cons name rest => simp [Returns]

/-- The branches of the look at a failed merge. -/
theorem settleFailedMerge_cases (o : FinalizeOutside) (agent : ExitingAgent) (code : Int) :
    (¬ (code ≠ 0 ∧ agent.prNumber.isSome = true) ∧
      settleFailedMerge o agent code = .ok (if code = 0 then .done else .failed, code)) ∨
    (code ≠ 0 ∧ agent.prNumber.isSome = true ∧
      ((roleParts agent.role = [] ∧ settleFailedMerge o agent code = .error .indexError) ∨
       (roleParts agent.role ≠ [] ∧ ¬ IsMergeRole agent.role ∧
         settleFailedMerge o agent code = .ok (.failed, code)) ∨
       (IsMergeRole agent.role ∧
         settleFailedMerge o agent code = (do
           if ← checkPrMergedOnFailure o then return (.done, 0)
           else if checkMergeQueueOnFailure o then return (.done, 0)
           else return (.failed, code))))) := by
  by_cases hfailed : code ≠ 0 ∧ agent.prNumber.isSome = true
  · refine .inr ⟨hfailed.1, hfailed.2, ?_⟩
    have hcond : (code != 0 && agent.prNumber.isSome) = true := by simpa using hfailed
    unfold settleFailedMerge
    rw [if_pos hcond]
    unfold commandName IsMergeRole
    cases hparts : roleParts agent.role with
    | nil => exact .inl ⟨rfl, rfl⟩
    | cons name rest =>
      refine .inr ?_
      by_cases hmerge : mergeRoles.contains name = true
      · refine .inr ⟨⟨name, rfl, hmerge⟩, ?_⟩
        simp only [bind, Except.bind, hmerge, if_true]
      · refine .inl ⟨by simp, ?_, ?_⟩
        · rintro ⟨name', hname', hcontains⟩
          cases hname'
          exact hmerge hcontains
        · simp only [bind, Except.bind, hmerge, pure, Except.pure]
          rfl
  · refine .inl ⟨hfailed, ?_⟩
    have hcond : ¬ (code != 0 && agent.prNumber.isSome) = true := by simpa using hfailed
    unfold settleFailedMerge
    rw [if_neg hcond]

theorem IsMergeRole.roleParts_ne_nil {role : Text} (h : IsMergeRole role) : roleParts role ≠ [] := by
  intro hnil
  obtain ⟨name, hname, -⟩ := h
  rw [hnil] at hname
  cases hname

theorem settleFailedMerge_returns_iff :
    Returns (settleFailedMerge o agent code) ↔
      (code ≠ 0 → agent.prNumber.isSome = true →
        roleParts agent.role ≠ [] ∧ (IsMergeRole agent.role → MergedCheckReturns o)) := by
  rcases settleFailedMerge_cases o agent code with
    ⟨hnot, heq⟩ | ⟨hcode, hpr, ⟨hnil, heq⟩ | ⟨hne, hmerge, heq⟩ | ⟨hmerge, heq⟩⟩
  · rw [heq]
    exact ⟨fun _ hcode hpr => absurd ⟨hcode, hpr⟩ hnot, fun _ => returns_ok _⟩
  · rw [heq]
    exact ⟨fun h => absurd h (not_returns_error _), fun h => absurd hnil (h hcode hpr).1⟩
  · rw [heq]
    exact ⟨fun _ _ _ => ⟨hne, fun h => absurd h hmerge⟩, fun _ => returns_ok _⟩
  · rw [heq, returns_bind_iff]
    constructor
    · rintro ⟨merged, hmerged, -⟩ - -
      exact ⟨hmerge.roleParts_ne_nil, fun _ => checkPrMergedOnFailure_returns_iff.mp ⟨merged, hmerged⟩⟩
    · intro h
      obtain ⟨merged, hmerged⟩ := checkPrMergedOnFailure_returns_iff.mpr ((h hcode hpr).2 hmerge)
      refine ⟨merged, hmerged, ?_⟩
      cases merged with
      | true => exact returns_ok _
      | false =>
        cases hqueue : checkMergeQueueOnFailure o with
        | true => exact returns_ok _
        | false => exact returns_ok _

/-- The exit code after the look at a failed merge is 0 when the run counts as a success. -/
theorem settleFailedMerge_code {settled : RunStatus × Int}
    (h : settleFailedMerge o agent (streamExitCode o code) = .ok settled) :
    settled.2 = 0 ↔ CountsAsSuccess o agent code := by
  unfold CountsAsSuccess
  rcases settleFailedMerge_cases o agent (streamExitCode o code) with
    ⟨hnot, heq⟩ | ⟨hcode, hpr, ⟨hnil, heq⟩ | ⟨hne, hmerge, heq⟩ | ⟨hmerge, heq⟩⟩
  · rw [heq] at h
    cases h
    constructor
    · exact fun hzero => .inl hzero
    · rintro (hzero | ⟨hpr, -, -⟩)
      · exact hzero
      · by_contra hcode
        exact hnot ⟨hcode, hpr⟩
  · rw [heq] at h
    cases h
  · rw [heq] at h
    cases h
    constructor
    · exact fun hzero => absurd hzero hcode
    · rintro (hzero | ⟨-, hmerge', -⟩)
      · exact absurd hzero hcode
      · exact absurd hmerge' hmerge
  · rw [heq] at h
    cases hmerged : checkPrMergedOnFailure o with
    | error e =>
      rw [hmerged] at h
      cases h
    | ok merged =>
      cases merged with
      | true =>
        rw [hmerged] at h
        cases h
        exact ⟨fun _ => .inr ⟨hpr, hmerge, .inl rfl⟩, fun _ => rfl⟩
      | false =>
        cases hqueue : checkMergeQueueOnFailure o with
        | true =>
          rw [hmerged, hqueue] at h
          cases h
          exact ⟨fun _ => .inr ⟨hpr, hmerge, .inr rfl⟩, fun _ => rfl⟩
        | false =>
          rw [hmerged, hqueue] at h
          cases h
          constructor
          · exact fun hzero => absurd hzero hcode
          · rintro (hzero | ⟨-, -, hok | htrue⟩)
            · exact absurd hzero hcode
            · cases hok
            · cases htrue

/-- No call between the exit of the process and the write of the row raises what is not caught. -/
structure CallsReturn (o : FinalizeOutside) (agent : ExitingAgent) (code : Int) : Prop where
  merge : streamExitCode o code ≠ 0 → agent.prNumber.isSome = true →
    roleParts agent.role ≠ [] ∧ (IsMergeRole agent.role → MergedCheckReturns o)
  markers : CountsAsSuccess o agent code → agent.prNumber.isSome = true → Returns o.markers
  writer : agent.outputWriter = true → ¬ Escapes PyException.isServiceError o.writerClose

theorem checkMergeQueueMarkerFile_returns_iff : Returns (checkMergeQueueMarkerFile o) ↔ Returns o.markers := by
  unfold checkMergeQueueMarkerFile
  cases o.markers with
  | ok files => exact ⟨fun _ => returns_ok files, fun _ => returns_ok ()⟩
  | error e => exact ⟨fun h => absurd h (not_returns_error e), fun h => absurd h (not_returns_error e)⟩

theorem beforeFinalize_eq_ok_iff {settled : RunStatus × Int} :
    beforeFinalize o agent code = .ok settled ↔
      settleFailedMerge o agent (streamExitCode o code) = .ok settled ∧
        (settled.2 = 0 ∧ agent.prNumber.isSome = true → Returns o.markers) ∧
        (agent.outputWriter = true → ¬ Escapes PyException.isServiceError o.writerClose) := by
  unfold beforeFinalize
  cases hsettle : settleFailedMerge o agent (streamExitCode o code) with
  | error e =>
    constructor
    · intro h
      cases h
    · rintro ⟨h, -⟩
      cases h
  | ok settled' =>
    show (if settled'.2 = 0 ∧ agent.prNumber.isSome = true then
        checkMergeQueueMarkerFile o >>= fun _ =>
          if agent.outputWriter = true then
            handling PyException.isServiceError () o.writerClose >>= fun _ => .ok settled'
          else .ok settled'
      else
        if agent.outputWriter = true then
          handling PyException.isServiceError () o.writerClose >>= fun _ => .ok settled'
        else .ok settled') = .ok settled ↔ _
    rw [ite_bind_eq_ok_iff fun _ => if agent.outputWriter = true then
        handling PyException.isServiceError () o.writerClose >>= fun _ => .ok settled'
      else .ok settled', ite_bind_eq_ok_iff fun _ => .ok settled', checkMergeQueueMarkerFile_returns_iff,
      returns_handling_iff]
    constructor
    · rintro ⟨hmarkers, hwriter, heq⟩
      cases heq
      exact ⟨rfl, hmarkers, hwriter⟩
    · rintro ⟨heq, hmarkers, hwriter⟩
      cases heq
      exact ⟨hmarkers, hwriter, rfl⟩

/-- The calls before the write of the row, and the exit code that they leave. -/
theorem beforeFinalize_returns_iff : Returns (beforeFinalize o agent code) ↔ CallsReturn o agent code := by
  constructor
  · rintro ⟨settled, h⟩
    obtain ⟨hsettle, hmarkers, hwriter⟩ := beforeFinalize_eq_ok_iff.mp h
    have hcode := settleFailedMerge_code hsettle
    exact
      { merge := settleFailedMerge_returns_iff.mp ⟨settled, hsettle⟩
        markers := fun hsuccess hpr => hmarkers ⟨hcode.mpr hsuccess, hpr⟩
        writer := hwriter }
  · intro h
    obtain ⟨settled, hsettle⟩ := settleFailedMerge_returns_iff.mpr h.merge
    have hcode := settleFailedMerge_code hsettle
    refine ⟨settled, beforeFinalize_eq_ok_iff.mpr ⟨hsettle, ?_, h.writer⟩⟩
    exact fun ⟨hzero, hpr⟩ => h.markers (hcode.mp hzero) hpr

/-! ## The row of the run -/

/-- The run has a row, and it is finished. -/
def IsFinished (runId : Nat) (c : Control) : Prop := ∃ run, c.run runId = some run ∧ run.isTerminal = true

/-- The transaction that finishes the row is committed. -/
def Commits (o : FinalizeOutside) : Prop :=
  ¬ Escapes PyException.isFileError o.readHandoff ∧ Returns o.session ∧ Returns o.commit

theorem openRow_returns_iff :
    Returns (openRow o) ↔ ¬ Escapes PyException.isFileError o.readHandoff ∧ Returns o.session := by
  have hhandling : Returns (handling PyException.isFileError () o.readHandoff) ↔
      ¬ Escapes PyException.isFileError o.readHandoff := returns_handling_iff
  unfold openRow
  rw [returns_bind_iff, ← hhandling]
  constructor
  · rintro ⟨a, hhandoff, hsession⟩
    exact ⟨⟨a, hhandoff⟩, hsession⟩
  · rintro ⟨⟨a, hhandoff⟩, hsession⟩
    exact ⟨a, hhandoff, hsession⟩

@[simp] theorem recordedCost_id (cost : Option ℚ) (run : TaskRun) : (recordedCost cost run).id = run.id := by
  unfold recordedCost
  split_ifs <;> rfl

@[simp] theorem recordedCost_status (cost : Option ℚ) (run : TaskRun) :
    (recordedCost cost run).status = run.status := by
  unfold recordedCost
  split_ifs <;> rfl

@[simp] theorem finalizedRun_id (o : FinalizeOutside) (agent : ExitingAgent) (code : Int) (run : TaskRun) :
    (finalizedRun o agent code run).id = run.id := by
  unfold finalizedRun
  split_ifs <;> simp

/-- Every status that an exit is classified as is terminal. -/
theorem classifyExitStatus_mem (o : FinalizeOutside) (code : Int) :
    (classifyExitStatus o code).1 ∈ taskRunTerminal := by
  unfold classifyExitStatus
  cases o.terminationRecord with
  | some cause => simp [taskRunTerminal]
  | none =>
    show (if (normalizeSignalExit code).isSome = true then
      (RunStatus.interrupted, some "external_signal".toList) else (RunStatus.failed, none)).1 ∈ taskRunTerminal
    split_ifs
    · decide
    · decide

theorem finalizedRun_isTerminal (o : FinalizeOutside) (agent : ExitingAgent) (code : Int) (run : TaskRun) :
    (finalizedRun o agent code run).isTerminal = true := by
  unfold finalizedRun TaskRun.isTerminal
  split_ifs
  · rfl
  · exact List.contains_iff_mem.mpr (classifyExitStatus_mem o code)

@[simp] theorem downgradedRun_id (reason : Text) (status : RunStatus) (run : TaskRun) :
    (downgradedRun reason status run).id = run.id := by
  unfold downgradedRun
  split_ifs <;> rfl

/-- An update that keeps the id of a row and whether it is finished. -/
theorem isFinished_setRun_iff {f : TaskRun → TaskRun} (hid : ∀ r, (f r).id = r.id)
    (hterminal : ∀ r, (f r).isTerminal = r.isTerminal) :
    IsFinished runId (c.setRun runId f) ↔ IsFinished runId c := by
  unfold IsFinished
  rw [Control.run_setRun hid, if_pos rfl]
  constructor
  · rintro ⟨run, hrun, hfinished⟩
    obtain ⟨run₀, hrun₀, rfl⟩ := Option.map_eq_some_iff.mp hrun
    exact ⟨run₀, hrun₀, by rwa [hterminal] at hfinished⟩
  · rintro ⟨run, hrun, hfinished⟩
    exact ⟨f run, by rw [hrun]; rfl, by rwa [hterminal]⟩

/-- After `_finalize_task_run` the run is finished when it was so before, or when it has a row and the
transaction is committed. -/
theorem isFinished_finalizeTaskRun_iff :
    IsFinished agent.runId (finalizeTaskRun o agent code c).2 ↔
      ∃ run, c.run agent.runId = some run ∧ (run.isTerminal = true ∨ Commits o) := by
  cases hrun : c.run agent.runId with
  | none =>
    have hstate : (finalizeTaskRun o agent code c).2 = c := by
      unfold finalizeTaskRun
      rw [hrun]
      cases openRow o <;> rfl
    rw [hstate]
    unfold IsFinished
    simp [hrun]
  | some run =>
    by_cases hcommits : Commits o
    · obtain ⟨⟨⟩, hopen⟩ := openRow_returns_iff.mpr ⟨hcommits.1, hcommits.2.1⟩
      obtain ⟨⟨⟩, hcommit⟩ := hcommits.2.2
      have hright : ∃ run', some run = some run' ∧ (run'.isTerminal = true ∨ Commits o) :=
        ⟨run, rfl, .inr hcommits⟩
      refine iff_of_true ?_ hright
      unfold finalizeTaskRun
      rw [hopen, hrun, hcommit]
      dsimp only
      split_ifs with hterminal
      · rw [isFinished_setRun_iff (recordedCost_id _) fun r => by simp [TaskRun.isTerminal]]
        exact ⟨run, hrun, hterminal⟩
      · exact ⟨_, Control.run_setRun_self (finalizedRun_id o agent code) hrun,
          finalizedRun_isTerminal o agent code run⟩
    · -- an exception before the commit leaves the row as it was
      have hstate : (finalizeTaskRun o agent code c).2 = c := by
        unfold finalizeTaskRun
        cases hopen : openRow o with
        | error e => rfl
        | ok u =>
          cases hcommit : o.commit with
          | error e => rw [hrun]
          | ok v =>
            have hreturns := openRow_returns_iff.mp ⟨u, hopen⟩
            exact absurd ⟨hreturns.1, hreturns.2, v, hcommit⟩ hcommits
      rw [hstate]
      unfold IsFinished
      simp [hrun, hcommits]

/-! ## The validation of the outcome -/

/-- The validator of the command or of the steps of the pipeline reports a failure. -/
def ReportsFailure (o : FinalizeOutside) (agent : ExitingAgent) : Prop :=
  (∃ name validation, "command:".toList.isPrefixOf agent.role = true ∧ commandName agent.role = .ok name ∧
    commandValidators.contains name = true ∧ o.validator = .ok validation ∧
    (truthyReason validation.failureReason).isSome = true) ∨
  ∃ reason, pipelineRoles.contains agent.role = true ∧ o.pipelineSteps = .ok reason ∧
    (truthyReason reason).isSome = true

/-- The validation does not raise: a command has a name, and what `except` names is all that the look at the
steps and the downgrade raise. -/
structure ValidationReturns (o : FinalizeOutside) (agent : ExitingAgent) : Prop where
  name : "command:".toList.isPrefixOf agent.role = true → roleParts agent.role ≠ []
  steps : pipelineRoles.contains agent.role = true → ¬ Escapes PyException.isServiceError o.pipelineSteps
  downgrade : ReportsFailure o agent → ¬ Escapes PyException.isServiceError o.downgrade

theorem pipelineRoles_not_command {role : Text} (h : pipelineRoles.contains role = true) :
    "command:".toList.isPrefixOf role = false := by
  have hmem : role ∈ pipelineRoles := List.contains_iff_mem.mp h
  have hall : ∀ r ∈ pipelineRoles, "command:".toList.isPrefixOf r = false := by decide
  exact hall role hmem

/-- A command is judged by its validator alone. -/
theorem outcomeFailure_command (hcommand : "command:".toList.isPrefixOf agent.role = true) :
    outcomeFailure o agent = (validateCommandOutcome o agent).map fun v =>
      (truthyReason v.failureReason).map fun r => (r, if v.networkBlocked then .interrupted else .failed) := by
  have hpipeline : validatePipelineOutcome o agent = .ok none := by
    unfold validatePipelineOutcome
    rw [if_neg]
    intro h
    rw [pipelineRoles_not_command h] at hcommand
    cases hcommand
  unfold outcomeFailure
  cases hvalidation : validateCommandOutcome o agent with
  | error e => rfl
  | ok v =>
    simp only [bind, Except.bind, Except.map]
    cases hreason : truthyReason v.failureReason with
    | some reason => rfl
    | none =>
      rw [hpipeline]
      rfl

/-- Any other run is judged by its steps alone. -/
theorem outcomeFailure_not_command (hcommand : "command:".toList.isPrefixOf agent.role = false) :
    outcomeFailure o agent = (validatePipelineOutcome o agent).map fun reason =>
      (truthyReason reason).map fun r => (r, .failed) := by
  have hvalidation : validateCommandOutcome o agent = .ok {} := by
    unfold validateCommandOutcome
    rw [hcommand]
    rfl
  unfold outcomeFailure
  rw [hvalidation]
  cases hreason : validatePipelineOutcome o agent with
  | error e => rfl
  | ok reason => rfl

/-- The validator of a command catches everything, so only the name of the command can raise. -/
theorem validateCommandOutcome_returns_iff (hcommand : "command:".toList.isPrefixOf agent.role = true) :
    Returns (validateCommandOutcome o agent) ↔ roleParts agent.role ≠ [] := by
  unfold validateCommandOutcome
  rw [if_pos hcommand, returns_bind_iff, ← commandName_returns_iff]
  constructor
  · rintro ⟨name, hname, -⟩
    exact ⟨name, hname⟩
  · rintro ⟨name, hname⟩
    refine ⟨name, hname, ?_⟩
    split_ifs
    · rw [returns_handling_iff]
      rintro ⟨e, -, h⟩
      cases h
    · exact returns_ok _

theorem validatePipelineOutcome_returns_iff :
    Returns (validatePipelineOutcome o agent) ↔
      (pipelineRoles.contains agent.role = true → ¬ Escapes PyException.isServiceError o.pipelineSteps) := by
  unfold validatePipelineOutcome
  split_ifs with hrole
  · rw [returns_handling_iff]
    exact ⟨fun h _ => h, fun h => h hrole⟩
  · exact ⟨fun _ h => absurd h hrole, fun _ => returns_ok none⟩

theorem outcomeFailure_returns_iff :
    Returns (outcomeFailure o agent) ↔
      ("command:".toList.isPrefixOf agent.role = true → roleParts agent.role ≠ []) ∧
      (pipelineRoles.contains agent.role = true → ¬ Escapes PyException.isServiceError o.pipelineSteps) := by
  cases hcommand : "command:".toList.isPrefixOf agent.role with
  | true =>
    rw [outcomeFailure_command hcommand, returns_map_iff, validateCommandOutcome_returns_iff hcommand]
    constructor
    · intro h
      refine ⟨fun _ => h, fun hrole => ?_⟩
      rw [pipelineRoles_not_command hrole] at hcommand
      cases hcommand
    · exact fun h => h.1 rfl
  | false =>
    rw [outcomeFailure_not_command hcommand, returns_map_iff, validatePipelineOutcome_returns_iff]
    constructor
    · intro h
      refine ⟨fun hfalse => ?_, h⟩
      cases hfalse
    · exact fun h => h.2

theorem reportsFailure_command_iff (hcommand : "command:".toList.isPrefixOf agent.role = true) :
    ReportsFailure o agent ↔ ∃ name validation, commandName agent.role = .ok name ∧
      commandValidators.contains name = true ∧ o.validator = .ok validation ∧
      (truthyReason validation.failureReason).isSome = true := by
  constructor
  · rintro (⟨name, validation, -, h⟩ | ⟨reason, hrole, -⟩)
    · exact ⟨name, validation, h⟩
    · rw [pipelineRoles_not_command hrole] at hcommand
      cases hcommand
  · rintro ⟨name, validation, h⟩
    exact .inl ⟨name, validation, hcommand, h⟩

theorem reportsFailure_not_command_iff (hcommand : "command:".toList.isPrefixOf agent.role = false) :
    ReportsFailure o agent ↔ ∃ reason, pipelineRoles.contains agent.role = true ∧
      o.pipelineSteps = .ok reason ∧ (truthyReason reason).isSome = true := by
  constructor
  · rintro (⟨name, validation, htrue, -⟩ | h)
    · rw [hcommand] at htrue
      cases htrue
    · exact h
  · exact fun h => .inr h

/-- What the validation finds is what a validator reports. -/
theorem outcomeFailure_isSome_iff {failure : Option (Text × RunStatus)}
    (h : outcomeFailure o agent = .ok failure) : failure.isSome = true ↔ ReportsFailure o agent := by
  cases hcommand : "command:".toList.isPrefixOf agent.role with
  | true =>
    rw [reportsFailure_command_iff hcommand]
    rw [outcomeFailure_command hcommand] at h
    unfold validateCommandOutcome at h
    rw [if_pos hcommand] at h
    cases hname : commandName agent.role with
    | error e =>
      rw [hname] at h
      cases h
    | ok name =>
      rw [hname] at h
      by_cases hvalidator : commandValidators.contains name = true
      · simp only [bind, Except.bind, hvalidator, if_true] at h
        cases hvalidation : o.validator with
        | error e =>
          rw [hvalidation] at h
          cases h
          simp [truthyReason]
        | ok validation =>
          rw [hvalidation] at h
          cases h
          simpa using fun _ => List.contains_iff_mem.mp hvalidator
      · simp only [bind, Except.bind, hvalidator] at h
        cases h
        have hmem : name ∉ commandValidators := fun hmem => hvalidator (List.contains_iff_mem.mpr hmem)
        simp [hmem, truthyReason]
  | false =>
    rw [reportsFailure_not_command_iff hcommand]
    rw [outcomeFailure_not_command hcommand] at h
    unfold validatePipelineOutcome at h
    split_ifs at h with hrole
    · cases hsteps : o.pipelineSteps with
      | error e =>
        rw [hsteps] at h
        unfold handling at h
        dsimp only at h
        split_ifs at h
        · cases h
          simp [truthyReason]
        · cases h
      | ok reason =>
        rw [hsteps] at h
        cases h
        simpa using fun _ => List.contains_iff_mem.mp hrole
    · cases h
      have hmem : agent.role ∉ pipelineRoles := fun hmem => hrole (List.contains_iff_mem.mpr hmem)
      simp [hmem, truthyReason]

/-- Every status that a run is downgraded to is terminal. -/
theorem outcomeFailure_mem {reason : Text} {status : RunStatus}
    (h : outcomeFailure o agent = .ok (some (reason, status))) : status ∈ taskRunTerminal := by
  have hmap : ∀ {r : Option Text} {s : RunStatus}, s ∈ taskRunTerminal →
      (truthyReason r).map (fun r => (r, s)) = some (reason, status) → status ∈ taskRunTerminal := by
    intro r s hs hr
    obtain ⟨_, -, heq⟩ := Option.map_eq_some_iff.mp hr
    cases heq
    exact hs
  cases hcommand : "command:".toList.isPrefixOf agent.role with
  | true =>
    rw [outcomeFailure_command hcommand] at h
    cases hvalidation : validateCommandOutcome o agent with
    | error e =>
      rw [hvalidation] at h
      cases h
    | ok v =>
      rw [hvalidation] at h
      have hstatus : (if v.networkBlocked then RunStatus.interrupted else .failed) ∈ taskRunTerminal := by
        split_ifs
        · decide
        · decide
      exact hmap hstatus (Except.ok.inj h)
  | false =>
    rw [outcomeFailure_not_command hcommand] at h
    cases hreason : validatePipelineOutcome o agent with
    | error e =>
      rw [hreason] at h
      cases h
    | ok r =>
      rw [hreason] at h
      exact hmap (by decide) (Except.ok.inj h)

theorem downgradeToFailed_returns_iff {reason : Text} {status : RunStatus} :
    Returns (downgradeToFailed o runId reason status c).1 ↔
      ¬ Escapes PyException.isServiceError o.downgrade := by
  unfold downgradeToFailed
  cases o.downgrade with
  | ok u => exact ⟨fun _ => not_escapes_ok u, fun _ => returns_ok ()⟩
  | error e =>
    have hhandling : Returns (handling PyException.isServiceError () (.error e)) ↔
        ¬ Escapes PyException.isServiceError (.error e : Except PyException Unit) := returns_handling_iff
    exact hhandling

theorem isFinished_downgradeToFailed_iff {reason : Text} {status : RunStatus}
    (hstatus : status ∈ taskRunTerminal) :
    IsFinished runId (downgradeToFailed o runId reason status c).2 ↔ IsFinished runId c := by
  unfold downgradeToFailed
  cases o.downgrade with
  | error e => rfl
  | ok u =>
    refine isFinished_setRun_iff (downgradedRun_id reason status) fun run => ?_
    unfold downgradedRun TaskRun.isTerminal
    split_ifs with hdone
    · rw [hdone, List.contains_iff_mem.mpr hstatus]
      rfl
    · rfl

/-- The validation by what it finds. -/
theorem validateOutcome_cases (o : FinalizeOutside) (agent : ExitingAgent) (status : RunStatus) (code : Int)
    (c : Control) :
    (¬ (code = 0 ∧ agent.runId ≠ 0) ∧ validateOutcome o agent status code c = (.ok status, c)) ∨
    (code = 0 ∧ agent.runId ≠ 0 ∧
      ((∃ e, outcomeFailure o agent = .error e ∧ validateOutcome o agent status code c = (.error e, c)) ∨
       (outcomeFailure o agent = .ok none ∧ validateOutcome o agent status code c = (.ok status, c)) ∨
       ∃ reason st, outcomeFailure o agent = .ok (some (reason, st)) ∧
         validateOutcome o agent status code c =
           ((downgradeToFailed o agent.runId reason st c).1.map fun _ => st,
             (downgradeToFailed o agent.runId reason st c).2))) := by
  unfold validateOutcome
  by_cases hcond : code = 0 ∧ agent.runId ≠ 0
  · refine .inr ⟨hcond.1, hcond.2, ?_⟩
    rw [if_pos hcond]
    cases hfailure : outcomeFailure o agent with
    | error e => exact .inl ⟨e, rfl, rfl⟩
    | ok failure =>
      cases failure with
      | none => exact .inr (.inl ⟨rfl, rfl⟩)
      | some found =>
        obtain ⟨reason, st⟩ := found
        refine .inr (.inr ⟨reason, st, rfl, ?_⟩)
        dsimp only
        cases hdowngrade : downgradeToFailed o agent.runId reason st c with
        | mk outcome c' => cases outcome <;> rfl
  · exact .inl ⟨hcond, by rw [if_neg hcond]⟩

theorem validateOutcome_returns_iff {status : RunStatus} :
    Returns (validateOutcome o agent status code c).1 ↔
      (code = 0 → agent.runId ≠ 0 → ValidationReturns o agent) := by
  rcases validateOutcome_cases o agent status code c with
    ⟨hcond, heq⟩ | ⟨hcode, hid, ⟨e, hfailure, heq⟩ | ⟨hfailure, heq⟩ | ⟨reason, st, hfailure, heq⟩⟩
  · rw [heq]
    exact ⟨fun _ hcode hid => absurd ⟨hcode, hid⟩ hcond, fun _ => returns_ok status⟩
  · rw [heq]
    constructor
    · exact fun h => absurd h (not_returns_error e)
    · intro h
      have hvalidation := h hcode hid
      obtain ⟨failure, hok⟩ := outcomeFailure_returns_iff.mpr ⟨hvalidation.name, hvalidation.steps⟩
      rw [hfailure] at hok
      cases hok
  · rw [heq]
    have hquiet : ¬ ReportsFailure o agent := by
      rw [← outcomeFailure_isSome_iff hfailure]
      simp
    obtain ⟨hname, hsteps⟩ := outcomeFailure_returns_iff.mp ⟨none, hfailure⟩
    exact ⟨fun _ _ _ => ⟨hname, hsteps, fun h => absurd h hquiet⟩, fun _ => returns_ok status⟩
  · rw [heq]
    have hreports : ReportsFailure o agent := (outcomeFailure_isSome_iff hfailure).mp rfl
    obtain ⟨hname, hsteps⟩ := outcomeFailure_returns_iff.mp ⟨_, hfailure⟩
    rw [returns_map_iff, downgradeToFailed_returns_iff]
    exact ⟨fun h _ _ => ⟨hname, hsteps, fun _ => h⟩, fun h => (h hcode hid).downgrade hreports⟩

/-- The validation leaves it as it is whether the run is finished. -/
theorem isFinished_validateOutcome_iff {status : RunStatus} :
    IsFinished agent.runId (validateOutcome o agent status code c).2 ↔ IsFinished agent.runId c := by
  rcases validateOutcome_cases o agent status code c with
    ⟨-, heq⟩ | ⟨-, -, ⟨e, -, heq⟩ | ⟨-, heq⟩ | ⟨reason, st, hfailure, heq⟩⟩
  · rw [heq]
  · rw [heq]
  · rw [heq]
  · rw [heq]
    exact isFinished_downgradeToFailed_iff (outcomeFailure_mem hfailure)

/-! ## The pool -/

theorem managedIds_finalizeTaskRun :
    (finalizeTaskRun o agent code c).2.managedIds = c.managedIds := by
  unfold finalizeTaskRun
  split
  · split_ifs <;> rfl
  · rfl

theorem managedIds_validateOutcome {status : RunStatus} :
    (validateOutcome o agent status code c).2.managedIds = c.managedIds := by
  rcases validateOutcome_cases o agent status code c with
    ⟨-, heq⟩ | ⟨-, -, ⟨e, -, heq⟩ | ⟨-, heq⟩ | ⟨reason, st, -, heq⟩⟩
  · rw [heq]
  · rw [heq]
  · rw [heq]
  · rw [heq]
    unfold downgradeToFailed
    cases o.downgrade with
    | ok u => rfl
    | error e => rfl

theorem not_mem_managedIds_unregister (c : Control) (runId : Nat) :
    runId ∉ (c.unregister runId).managedIds := by
  unfold Control.unregister Control.managedIds
  intro h
  obtain ⟨a, ha, hid⟩ := List.mem_map.mp h
  have hne := (List.mem_filter.mp ha).2
  simp [hid] at hne

/-- The agent has given its slot back, and its run is finished. -/
def SlotReleased (runId : Nat) (c : Control) : Prop := runId ∉ c.managedIds ∧ IsFinished runId c

/-- What the end of an agent asks of the calls after the wait. -/
structure ReachesPool (o : FinalizeOutside) (agent : ExitingAgent) (code : Int) : Prop where
  calls : CallsReturn o agent code
  validation : CountsAsSuccess o agent code → agent.runId ≠ 0 → ValidationReturns o agent

/-- The slot is given back exactly when no exception ends the calls before, and the run is finished exactly
when it was so or its transaction is committed. -/
theorem slotReleased_finalizeExit_iff (hpool : agent.runId ∈ c.managedIds) :
    SlotReleased agent.runId (finalizeExit o agent code c).2 ↔
      ReachesPool o agent code ∧
        ∃ run, c.run agent.runId = some run ∧ (run.isTerminal = true ∨ Commits o) := by
  unfold finalizeExit
  cases hbefore : beforeFinalize o agent code with
  | error e =>
    constructor
    · exact fun h => absurd hpool h.1
    · rintro ⟨hreaches, -⟩
      obtain ⟨settled, hok⟩ := beforeFinalize_returns_iff.mpr hreaches.calls
      rw [hbefore] at hok
      cases hok
  | ok settled =>
    obtain ⟨status, exitCode⟩ := settled
    have hcalls : CallsReturn o agent code := beforeFinalize_returns_iff.mp ⟨_, hbefore⟩
    have hcode : exitCode = 0 ↔ CountsAsSuccess o agent code :=
      settleFailedMerge_code (beforeFinalize_eq_ok_iff.mp hbefore).1
    have hreturns : Returns (validateOutcome o agent status exitCode (finalizeTaskRun o agent exitCode c).2).1 ↔
        (exitCode = 0 → agent.runId ≠ 0 → ValidationReturns o agent) := validateOutcome_returns_iff
    have hfinished : IsFinished agent.runId
        (validateOutcome o agent status exitCode (finalizeTaskRun o agent exitCode c).2).2 ↔
          ∃ run, c.run agent.runId = some run ∧ (run.isTerminal = true ∨ Commits o) := by
      rw [isFinished_validateOutcome_iff, isFinished_finalizeTaskRun_iff]
    have hmanaged : (validateOutcome o agent status exitCode
        (finalizeTaskRun o agent exitCode c).2).2.managedIds = c.managedIds := by
      rw [managedIds_validateOutcome, managedIds_finalizeTaskRun]
    dsimp only
    cases hvalidate : validateOutcome o agent status exitCode (finalizeTaskRun o agent exitCode c).2 with
    | mk outcome c' =>
      rw [hvalidate] at hreturns hfinished hmanaged
      cases outcome with
      | error e =>
        constructor
        · intro h
          rw [← hmanaged] at hpool
          exact absurd hpool h.1
        · rintro ⟨hreaches, -⟩
          have hok := hreturns.mpr fun hzero => hreaches.validation (hcode.mp hzero)
          exact absurd hok (not_returns_error e)
      | ok status' =>
        have hreaches : ReachesPool o agent code :=
          ⟨hcalls, fun hsuccess => hreturns.mp (returns_ok status') (hcode.mpr hsuccess)⟩
        constructor
        · exact fun h => ⟨hreaches, hfinished.mp h.2⟩
        · exact fun h => ⟨not_mem_managedIds_unregister c' agent.runId, hfinished.mpr h.2⟩

/-! ## The wait -/

/-- A process that hangs is stopped, or killed without an exception that is not caught. -/
def HangStops (s : Stopping) : Prop :=
  s.stop ≠ none →
    (∀ e, s.kill = some e → e.isOsError = true) ∧ (s.kill = none → ∀ e, s.wait = some e → e = .timeoutError)

/-- The process exits with a code, and what others have written to the row by then. -/
inductive Exits (runId : Nat) : Waiting → Control → Int → Control → Prop where
  | exits (written : Option RunStatus) (code : Int) (c : Control) :
      Exits runId (.exits written code) c code (c.written runId written)
  | stopped (written : Option RunStatus) (readFails : Bool) (stopping : Stopping) (rest : Waiting) (c : Control)
      (hdone : isRunTerminalInDb readFails runId (c.written runId written) = true)
      (hstops : HangStops stopping) :
      Exits runId (.timesOut written readFails stopping rest) c (stopping.returncode.getD (-1))
        (c.written runId written)
  | waits (written : Option RunStatus) (readFails : Bool) (stopping : Stopping) (rest : Waiting) (c : Control)
      (code : Int) (c' : Control)
      (hopen : isRunTerminalInDb readFails runId (c.written runId written) = false)
      (hrest : Exits runId rest (c.written runId written) code c') :
      Exits runId (.timesOut written readFails stopping rest) c code c'

theorem stopHanging_of_hangStops {s : Stopping} (h : HangStops s) :
    stopHanging s = .ok (s.returncode.getD (-1)) := by
  unfold stopHanging
  cases hstop : s.stop with
  | none => rfl
  | some e =>
    obtain ⟨hkilled, hwaited⟩ := h (by simp [hstop])
    cases hkill : s.kill with
    | some e' =>
      dsimp only
      rw [if_pos (hkilled e' hkill)]
    | none =>
      cases hwait : s.wait with
      | none => rfl
      | some e' =>
        dsimp only
        rw [if_pos (hwaited hkill e' hwait)]

theorem hangStops_of_stopHanging {s : Stopping} {code : Int} (h : stopHanging s = .ok code) : HangStops s := by
  intro hstop
  unfold stopHanging at h
  cases hs : s.stop with
  | none => exact absurd hs hstop
  | some e =>
    rw [hs] at h
    dsimp only at h
    constructor
    · intro e' hkill
      rw [hkill] at h
      dsimp only at h
      split_ifs at h with hos
      exact hos
    · intro hkill e' hwait
      rw [hkill, hwait] at h
      dsimp only at h
      split_ifs at h with htimeout
      exact htimeout

theorem stopHanging_eq_ok_iff {s : Stopping} {code : Int} :
    stopHanging s = .ok code ↔ HangStops s ∧ code = s.returncode.getD (-1) := by
  constructor
  · intro h
    have hstops := hangStops_of_stopHanging h
    rw [stopHanging_of_hangStops hstops] at h
    exact ⟨hstops, (Except.ok.inj h).symm⟩
  · rintro ⟨hstops, rfl⟩
    exact stopHanging_of_hangStops hstops

/-- The wait returns exactly when the process exits, with its code. -/
theorem waitWithTerminalCheck_eq_ok_iff (w : Waiting) (c : Control) (code : Int) (c' : Control) :
    waitWithTerminalCheck runId w c = (.ok code, c') ↔ Exits runId w c code c' := by
  induction w generalizing c with
  | exits written code' =>
    constructor
    · intro h
      cases h
      exact .exits written code c
    · intro h
      cases h
      rfl
  | raises written e notTimeout =>
    constructor
    · intro h
      cases h
    · intro h
      cases h
  | timesOut written readFails stopping rest ih =>
    unfold waitWithTerminalCheck
    dsimp only
    cases hdone : isRunTerminalInDb readFails runId (c.written runId written) with
    | true =>
      rw [if_pos rfl]
      constructor
      · intro h
        obtain ⟨hstop, rfl⟩ := Prod.mk.inj h
        obtain ⟨hstops, rfl⟩ := stopHanging_eq_ok_iff.mp hstop
        exact .stopped written readFails stopping rest c hdone hstops
      · intro h
        cases h with
        | stopped _ _ _ _ _ _ hstops => rw [stopHanging_eq_ok_iff.mpr ⟨hstops, rfl⟩]
        | waits _ _ _ _ _ _ _ hopen =>
          rw [hdone] at hopen
          cases hopen
    | false =>
      rw [if_neg Bool.false_ne_true, ih]
      constructor
      · exact fun h => .waits written readFails stopping rest c code c' hdone h
      · intro h
        cases h with
        | stopped _ _ _ _ _ hdone' _ =>
          rw [hdone] at hdone'
          cases hdone'
        | waits _ _ _ _ _ _ _ _ hrest => exact hrest

@[simp] theorem Control.managedIds_written (c : Control) (runId : Nat) (status : Option RunStatus) :
    (c.written runId status).managedIds = c.managedIds := by
  cases status <;> rfl

/-- The wait leaves the pool alone. -/
theorem managedIds_waitWithTerminalCheck (w : Waiting) (c : Control) :
    (waitWithTerminalCheck runId w c).2.managedIds = c.managedIds := by
  induction w generalizing c with
  | exits written code => exact Control.managedIds_written c runId written
  | raises written e notTimeout => exact Control.managedIds_written c runId written
  | timesOut written readFails stopping rest ih =>
    unfold waitWithTerminalCheck
    dsimp only
    split_ifs
    · exact Control.managedIds_written c runId written
    · rw [ih, Control.managedIds_written]

/-- The slot of an agent is given back, with its run finished, exactly when the process exits, no call up to the
removal from the pool raises an exception that its handler does not catch, and the row of the run is finished by
then or by a transaction that is committed. -/
theorem slot_released_iff (o : FinalizeOutside) (w : Waiting) (agent : ExitingAgent) (c : Control)
    (hpool : agent.runId ∈ c.managedIds) :
    SlotReleased agent.runId (waitAndFinalize o (some w) agent c).2 ↔
      ∃ code c', Exits agent.runId w c code c' ∧ ReachesPool o agent code ∧
        ∃ run, c'.run agent.runId = some run ∧ (run.isTerminal = true ∨ Commits o) := by
  unfold waitAndFinalize
  have hmanaged : (waitWithTerminalCheck agent.runId w c).2.managedIds = c.managedIds :=
    managedIds_waitWithTerminalCheck w c
  dsimp only
  cases hwait : waitWithTerminalCheck agent.runId w c with
  | mk outcome c₁ =>
    rw [hwait] at hmanaged
    have hpool₁ : agent.runId ∈ c₁.managedIds := by rwa [hmanaged]
    cases outcome with
    | error e =>
      constructor
      · exact fun h => absurd hpool₁ h.1
      · rintro ⟨code, c', hexits, -⟩
        rw [waitWithTerminalCheck_eq_ok_iff w c code c' |>.mpr hexits] at hwait
        cases hwait
    | ok code₁ =>
      have hexits₁ := (waitWithTerminalCheck_eq_ok_iff w c code₁ c₁).mp hwait
      rw [slotReleased_finalizeExit_iff hpool₁]
      constructor
      · exact fun h => ⟨code₁, c₁, hexits₁, h⟩
      · rintro ⟨code, c', hexits, h⟩
        rw [(waitWithTerminalCheck_eq_ok_iff w c code c').mpr hexits] at hwait
        cases hwait
        exact h

/-- An agent that merges a pull request, and its run. -/
def mergingAgent : ExitingAgent :=
  { runId := 1, issue := "42".toList, role := "command:/integrate-pr 7".toList, prNumber := some 7 }

def mergingControl : Control :=
  { runs := [{ id := 1, issueNumber := some "42".toList, role := mergingAgent.role, status := .running,
               prNumber := some 7, startedAt := 0 }]
    pool := { agents := [mergingAgent.toAgentState] } }

/-- A merge that crashed after the pull request was merged. -/
theorem slot_released_after_crash :
    SlotReleased 1 (waitAndFinalize
      { now := 5, mergedRepo := .ok "o/r".toList, prState := .ok "MERGED".toList }
      (some (.exits none 1)) mergingAgent mergingControl).2 := by
  have hcommits : Commits { now := 5, mergedRepo := .ok "o/r".toList, prState := .ok "MERGED".toList } :=
    ⟨not_escapes_ok (), returns_ok (), returns_ok ()⟩
  refine (slot_released_iff _ _ mergingAgent mergingControl (by decide)).mpr
    ⟨1, mergingControl, .exits none 1 mergingControl, ⟨⟨?_, ?_, ?_⟩, ?_⟩, _, rfl, .inr hcommits⟩
  · refine fun _ _ => ⟨by decide, fun _ => ⟨not_escapes_ok _, fun _ _ _ => not_escapes_ok _⟩⟩
  · exact fun _ _ => returns_ok []
  · exact fun h => by cases h
  · refine fun _ _ => ⟨fun _ => by decide, fun _ => not_escapes_ok _, fun _ => not_escapes_ok ()⟩

/-- A payload without the number of the pull request: its `KeyError` keeps the slot, and the run goes on. -/
theorem slot_leaked_on_key_error :
    let after := (waitAndFinalize
      { now := 5, mergedRepo := .ok "o/r".toList, prState := .error .keyError }
      (some (.exits none 1)) mergingAgent mergingControl).2
    1 ∈ after.managedIds ∧ (after.run 1).map TaskRun.status = some .running ∧ ¬ SlotReleased 1 after := by
  refine ⟨by decide, by decide, ?_⟩
  intro h
  exact h.1 (by decide)

end Dashboard

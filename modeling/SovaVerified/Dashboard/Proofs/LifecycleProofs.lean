import Mathlib.Data.List.Nodup
import SovaVerified.Dashboard.Lifecycle
import SovaVerified.Runs.Runs

/-!
# The records of a lifecycle

Every operation is put together from few changes of the tables: rows of lifecycles are rewritten, records
are closed, a record is added, and an active record is completed. Each of them keeps the invariant of the
records, and so does every run.
-/

namespace Dashboard

open Tables

/-- The completed records of a lifecycle. -/
def completedOf (lifecycleId : Nat) (r : LifecyclePhaseRecord) : Bool :=
  r.lifecycleId == lifecycleId && r.status == .completed

/-- Attempts are counted, at most one record of a phase is active, and the total of a lifecycle is what
its completed records cost. -/
structure RecordsInv (db : LifecycleDb) : Prop where
  lifecycleIds : db.lifecycles.map IssueLifecycle.id = List.range' 1 db.lifecycles.length
  phaseIds : db.phases.map LifecyclePhaseRecord.id = List.range' 1 db.phases.length
  owned : ∀ r ∈ db.phases, ∃ l ∈ db.lifecycles, l.id = r.lifecycleId
  attempts : ∀ id phase, (findPhaseRecords db id phase none).map LifecyclePhaseRecord.attempt =
    List.range' 1 (findPhaseRecords db id phase none).length
  active : ∀ id phase, (findPhaseRecords db id phase (some .active)).length ≤ 1
  cost : ∀ l ∈ db.lifecycles,
    l.totalCostUsd = sumWhere (completedOf l.id) LifecyclePhaseRecord.costUsd db.phases

theorem recordsInv_empty : RecordsInv {} := by
  refine ⟨rfl, rfl, ?_, fun _ _ => rfl, fun _ _ => by simp [findPhaseRecords], ?_⟩
  · intro r hr
    cases hr
  · intro l hl
    cases hl

/-! ## The changes of the tables -/

/-- Records whose lifecycle is in the table keep it when a lifecycle is rewritten. -/
theorem owned_setLifecycle {db : LifecycleDb} {phases : List LifecyclePhaseRecord}
    (h : ∀ r ∈ phases, ∃ l ∈ db.lifecycles, l.id = r.lifecycleId) (id : Nat)
    {f : IssueLifecycle → IssueLifecycle} (hid : ∀ l, (f l).id = l.id) :
    ∀ r ∈ phases, ∃ l ∈ (db.setLifecycle id f).lifecycles, l.id = r.lifecycleId := by
  intro r hr
  obtain ⟨l, hl, hlr⟩ := h r hr
  obtain ⟨l', hl', hid'⟩ := mem_key_updateWhere hid hl
  exact ⟨l', hl', hid'.trans hlr⟩

/-- A lifecycle is rewritten, its total apart. -/
theorem RecordsInv.setLifecycle {db : LifecycleDb} (h : RecordsInv db) (id : Nat)
    {f : IssueLifecycle → IssueLifecycle} (hid : ∀ l, (f l).id = l.id)
    (htotal : ∀ l, (f l).totalCostUsd = l.totalCostUsd) : RecordsInv (db.setLifecycle id f) := by
  refine ⟨Numbered.updateWhere h.lifecycleIds hid, h.phaseIds, owned_setLifecycle h.owned id hid,
    h.attempts, h.active, ?_⟩
  intro l hl
  rcases mem_updateWhere hl with ⟨hmem, -⟩ | ⟨l₀, hmem, -, rfl⟩
  · exact h.cost l hmem
  · rw [htotal, hid]
    exact h.cost l₀ hmem

/-- The identity of a record: what no operation changes. -/
structure SameRecord (r r' : LifecyclePhaseRecord) : Prop where
  id : r'.id = r.id
  lifecycleId : r'.lifecycleId = r.lifecycleId
  phase : r'.phase = r.phase
  attempt : r'.attempt = r.attempt

section Update

variable {db : LifecycleDb} {cond : LifecyclePhaseRecord → Bool}
  {f : LifecyclePhaseRecord → LifecyclePhaseRecord}

/-- Updates that keep the identity of the records keep how they are counted. -/
theorem findPhaseRecords_updatePhases (hsame : ∀ r, SameRecord r (f r)) (id : Nat) (phase : Text) :
    findPhaseRecords (db.updatePhases cond f) id phase none =
      updateWhere cond f (findPhaseRecords db id phase none) := by
  refine filter_updateWhere _ fun r => ?_
  rw [(hsame r).lifecycleId, (hsame r).phase]
  rfl

theorem attempts_updatePhases (h : RecordsInv db) (hsame : ∀ r, SameRecord r (f r)) (id : Nat)
    (phase : Text) :
    (findPhaseRecords (db.updatePhases cond f) id phase none).map LifecyclePhaseRecord.attempt =
      List.range' 1 (findPhaseRecords (db.updatePhases cond f) id phase none).length := by
  rw [findPhaseRecords_updatePhases hsame]
  exact Numbered.updateWhere (h.attempts id phase) fun r => (hsame r).attempt

theorem active_updatePhases (h : RecordsInv db) (hsame : ∀ r, SameRecord r (f r))
    (hactive : ∀ r, (f r).status = .active → r.status = .active) (id : Nat) (phase : Text) :
    (findPhaseRecords (db.updatePhases cond f) id phase (some .active)).length ≤ 1 := by
  refine (length_filter_updateWhere_le _ ?_).trans (h.active id phase)
  intro r _ hr
  rw [(hsame r).lifecycleId, (hsame r).phase] at hr
  simp only [Option.all_some, Bool.and_eq_true, beq_iff_eq] at hr ⊢
  exact ⟨hr.1, hactive r hr.2⟩

theorem owned_updatePhases (h : RecordsInv db) (hsame : ∀ r, SameRecord r (f r)) :
    ∀ r ∈ (db.updatePhases cond f).phases, ∃ l ∈ db.lifecycles, l.id = r.lifecycleId := by
  intro r hr
  rcases mem_updateWhere hr with ⟨hmem, -⟩ | ⟨r₀, hmem, -, rfl⟩
  · exact h.owned r hmem
  · rw [(hsame r₀).lifecycleId]
    exact h.owned r₀ hmem

/-- Records that are not completed are rewritten, without completing or activating one. -/
theorem RecordsInv.updatePhases (h : RecordsInv db) (hsame : ∀ r, SameRecord r (f r))
    (hactive : ∀ r, (f r).status = .active → r.status = .active)
    (hold : ∀ r ∈ db.phases, cond r = true → r.status ≠ .completed)
    (hnew : ∀ r ∈ db.phases, cond r = true → (f r).status ≠ .completed) :
    RecordsInv (db.updatePhases cond f) := by
  refine ⟨h.lifecycleIds, Numbered.updateWhere h.phaseIds fun r => (hsame r).id, owned_updatePhases h hsame,
    attempts_updatePhases h hsame, active_updatePhases h hsame hactive, ?_⟩
  intro l hl
  rw [h.cost l hl]
  symm
  refine sumWhere_updateWhere _ ?_ ?_
  · intro r hr hcond
    simp [completedOf, hold r hr hcond]
  · intro r hr hcond
    simp [completedOf, hnew r hr hcond]

end Update

theorem findPhaseRecords_addPhase (db : LifecycleDb) (record : LifecyclePhaseRecord) (id : Nat)
    (phase : Text) (status : Option PhaseStatus) :
    findPhaseRecords (db.addPhase record) id phase status =
      findPhaseRecords db id phase status ++
        (if record.lifecycleId = id ∧ record.phase = phase ∧ status.all (fun s => record.status == s)
          then [record] else []) := by
  unfold findPhaseRecords LifecycleDb.addPhase
  rw [List.filter_append, List.filter_cons, List.filter_nil]
  congr 1
  simp only [Bool.and_eq_true, beq_iff_eq, and_assoc]

/-- The next attempt at a phase is added, as an active record only when there is none. -/
theorem RecordsInv.addPhase {db : LifecycleDb} (h : RecordsInv db) {record : LifecyclePhaseRecord}
    {l : IssueLifecycle} (hl : db.lifecycle record.lifecycleId = some l)
    (hid : record.id = db.nextPhaseId)
    (hattempt : record.attempt = (findPhaseRecords db record.lifecycleId record.phase none).length + 1)
    (hstatus : record.status ≠ .completed)
    (hactive : record.status = .active →
      findPhaseRecords db record.lifecycleId record.phase (some .active) = []) :
    RecordsInv (db.addPhase record) := by
  refine ⟨h.lifecycleIds, Numbered.concat h.phaseIds hid, ?_, ?_, ?_, ?_⟩
  · intro r hr
    rcases List.mem_append.mp hr with hr | hr
    · exact h.owned r hr
    · rw [List.mem_singleton.mp hr]
      exact ⟨l, mem_of_get hl, get_key hl⟩
  · intro id phase
    rw [findPhaseRecords_addPhase]
    by_cases hsame : record.lifecycleId = id ∧ record.phase = phase
    · obtain ⟨rfl, rfl⟩ := hsame
      rw [if_pos ⟨rfl, rfl, rfl⟩]
      exact Numbered.concat (h.attempts _ _) hattempt
    · have hnot : ¬ (record.lifecycleId = id ∧ record.phase = phase ∧
          (none : Option PhaseStatus).all (fun s => record.status == s) = true) :=
        fun hx => hsame ⟨hx.1, hx.2.1⟩
      rw [if_neg hnot, List.append_nil]
      exact h.attempts id phase
  · intro id phase
    rw [findPhaseRecords_addPhase]
    by_cases hsame : record.lifecycleId = id ∧ record.phase = phase ∧
        (some PhaseStatus.active).all (fun s => record.status == s) = true
    · obtain ⟨rfl, rfl, hr⟩ := hsame
      rw [hactive (by simpa using hr)]
      simp only [List.nil_append]
      split <;> simp
    · rw [if_neg hsame, List.append_nil]
      exact h.active id phase
  · intro l hl
    show _ = sumWhere _ _ (db.phases ++ [record])
    rw [sumWhere_append, h.cost l hl]
    simp [sumWhere, completedOf, hstatus]

theorem RecordsInv.nodup {db : LifecycleDb} (h : RecordsInv db) :
    (db.phases.map LifecyclePhaseRecord.id).Nodup :=
  Numbered.nodup h.phaseIds

/-- An active record is completed, and its cost goes to the total of its lifecycle. -/
theorem RecordsInv.complete {db : LifecycleDb} (h : RecordsInv db) {record : LifecyclePhaseRecord}
    (hmem : record ∈ db.phases) (hactive : record.status = .active) (cost : ℚ) (now : Nat)
    {g : IssueLifecycle → IssueLifecycle} (hid : ∀ l, (g l).id = l.id)
    (htotal : ∀ l, (g l).totalCostUsd = l.totalCostUsd + cost) :
    RecordsInv ((db.updatePhases (fun r => r.id == record.id)
      (LifecyclePhaseRecord.complete cost now)).setLifecycle record.lifecycleId g) := by
  have hsame : ∀ r, SameRecord r (LifecyclePhaseRecord.complete cost now r) :=
    fun r => ⟨rfl, rfl, rfl, rfl⟩
  have hnone : ∀ r, (LifecyclePhaseRecord.complete cost now r).status = .active → r.status = .active := by
    intro r hr
    cases hr
  refine ⟨Numbered.updateWhere h.lifecycleIds hid, Numbered.updateWhere h.phaseIds fun r => (hsame r).id,
    owned_setLifecycle (owned_updatePhases h hsame) record.lifecycleId hid, attempts_updatePhases h hsame,
    active_updatePhases h hsame hnone, ?_⟩
  intro l hl
  have hsum : ∀ id, sumWhere (completedOf id) LifecyclePhaseRecord.costUsd
      (db.updatePhases (fun r => r.id == record.id) (LifecyclePhaseRecord.complete cost now)).phases =
      sumWhere (completedOf id) LifecyclePhaseRecord.costUsd db.phases +
        (if record.lifecycleId = id then cost else 0) := by
    intro id
    refine (sumWhere_update_one h.nodup hmem _ _).trans ?_
    simp [completedOf, hactive, LifecyclePhaseRecord.complete]
  show _ = sumWhere _ _ (db.updatePhases _ _).phases
  rw [hsum]
  rcases mem_updateWhere hl with ⟨hmem, hother⟩ | ⟨l₀, hmem, htarget, rfl⟩
  · have hne : ¬ record.lifecycleId = l.id := by
      intro heq
      simp [heq] at hother
    rw [if_neg hne, add_zero]
    exact h.cost l hmem
  · have heq : record.lifecycleId = l₀.id := by simpa using (beq_iff_eq.mp htarget).symm
    rw [hid, htotal, if_pos heq, h.cost l₀ hmem]

/-- A lifecycle without records is added. -/
theorem RecordsInv.addLifecycle {db : LifecycleDb} (h : RecordsInv db) {l : IssueLifecycle}
    (hid : l.id = db.lifecycles.length + 1) (htotal : l.totalCostUsd = 0) :
    RecordsInv { db with lifecycles := db.lifecycles ++ [l] } := by
  have hfresh : ∀ r ∈ db.phases, r.lifecycleId ≠ l.id := by
    intro r hr heq
    obtain ⟨l', hl', hlr⟩ := h.owned r hr
    have hle : l'.id ≤ db.lifecycles.length := Numbered.key_le h.lifecycleIds hl'
    omega
  refine ⟨Numbered.concat h.lifecycleIds hid, h.phaseIds, ?_, h.attempts, h.active, ?_⟩
  · intro r hr
    obtain ⟨l', hl', hlr⟩ := h.owned r hr
    exact ⟨l', List.mem_append_left _ hl', hlr⟩
  · intro l' hl'
    rcases List.mem_append.mp hl' with hl' | hl'
    · exact h.cost l' hl'
    · rw [List.mem_singleton.mp hl', htotal]
      have hnone : db.phases.filter (completedOf l.id) = [] := by
        rw [List.filter_eq_nil_iff]
        intro r hr
        simp [completedOf, hfresh r hr]
      simp [sumWhere, hnone]

/-! ## The operations -/

theorem foldl_max_range' (start n : Nat) : (List.range' (start + 1) n).foldl max start = start + n := by
  induction n generalizing start with
  | zero => rfl
  | succ n ih =>
    rw [List.range'_succ, List.foldl_cons, Nat.max_eq_right (by omega), ih]
    omega

/-- The highest attempt is the number of records. -/
theorem RecordsInv.maxAttempt_eq {db : LifecycleDb} (h : RecordsInv db) (id : Nat) (phase : Text) :
    maxAttempt db id phase = (findPhaseRecords db id phase none).length := by
  unfold maxAttempt
  rw [h.attempts]
  have hmax := foldl_max_range' 0 (findPhaseRecords db id phase none).length
  simpa using hmax

theorem mem_findActive {db : LifecycleDb} {id : Nat} {phase : Text} {record : LifecyclePhaseRecord}
    {rest : List LifecyclePhaseRecord}
    (h : findPhaseRecords db id phase (some .active) = record :: rest) :
    record ∈ db.phases ∧ record.lifecycleId = id ∧ record.phase = phase ∧ record.status = .active := by
  have hmem : record ∈ findPhaseRecords db id phase (some .active) := by simp [h]
  unfold findPhaseRecords at hmem
  rw [List.mem_filter] at hmem
  simp only [Option.all_some, Bool.and_eq_true, beq_iff_eq] at hmem
  exact ⟨hmem.1, hmem.2.1.1, hmem.2.1.2, hmem.2.2⟩

/-- The record of an id is the only one with it. -/
theorem RecordsInv.eq_of_id {db : LifecycleDb} (h : RecordsInv db) {r r' : LifecyclePhaseRecord}
    (hr : r ∈ db.phases) (hr' : r' ∈ db.phases) (hid : r.id = r'.id) : r = r' :=
  List.inj_on_of_nodup_map h.nodup hr hr' hid

theorem advanceLifecycle_id (l : IssueLifecycle) (phase : Text) (now : Nat) :
    (advanceLifecycle l phase now).id = l.id := by
  unfold advanceLifecycle
  dsimp only
  split
  · rfl
  · split <;> rfl

theorem advanceLifecycle_total (l : IssueLifecycle) (phase : Text) (now : Nat) :
    (advanceLifecycle l phase now).totalCostUsd = l.totalCostUsd := by
  unfold advanceLifecycle
  dsimp only
  split
  · rfl
  · split <;> rfl

theorem RecordsInv.skipOpen {db : LifecycleDb} (h : RecordsInv db) (id : Nat) (phase : Text) (now : Nat) :
    RecordsInv (skipOpen db id phase now) := by
  refine h.updatePhases (fun r => ⟨rfl, rfl, rfl, rfl⟩) ?_ ?_ ?_
  · intro r hr
    cases hr
  · intro r _ hcond hr
    simp [LifecyclePhaseRecord.isOpen, hr] at hcond
  · intro r _ _ hr
    cases hr

theorem recordsInv_start {db : LifecycleDb} (h : RecordsInv db) (id : Nat) (phase : Text)
    (taskRunId : Option Nat) (now : Nat) : RecordsInv (startPhase db id phase taskRunId now).2 := by
  unfold startPhase
  split
  · exact h
  · next l hl =>
    split
    · next record rest hfound =>
      split
      · -- the run of the active record is filled in
        obtain ⟨hmem, -, -, hactive⟩ := mem_findActive hfound
        have hcond : ∀ r ∈ db.phases, (r.id == record.id) = true → r.status = .active := by
          intro r hr hid
          rw [h.eq_of_id hr hmem (beq_iff_eq.mp hid)]
          exact hactive
        refine h.updatePhases (fun r => ⟨rfl, rfl, rfl, rfl⟩) (fun r hr => hr) ?_ ?_
        · intro r hr hid hcompleted
          rw [hcond r hr hid] at hcompleted
          cases hcompleted
        · intro r hr hid hcompleted
          exact absurd ((hcond r hr hid).symm.trans hcompleted) (by simp)
      · exact h
    · next hnone =>
      refine RecordsInv.setLifecycle ?_ id (fun _ => rfl) (fun _ => rfl)
      refine h.addPhase hl rfl ?_ (by simp) fun _ => hnone
      dsimp only
      rw [h.maxAttempt_eq]

theorem recordsInv_complete {db : LifecycleDb} (h : RecordsInv db) (id : Nat) (phase : Text) (cost : ℚ)
    (now : Nat) : RecordsInv (completePhase db id phase cost now).2 := by
  unfold completePhase
  split
  · exact h
  · split
    · exact h
    · next record rest hfound =>
      obtain ⟨hmem, rfl, -, hactive⟩ := mem_findActive hfound
      refine h.complete hmem hactive cost now ?_ ?_
      · intro l
        rw [advanceLifecycle_id]
      · intro l
        rw [advanceLifecycle_total]

theorem recordsInv_close {db : LifecycleDb} (h : RecordsInv db) {status : PhaseStatus}
    (hstatus : status ≠ .active ∧ status ≠ .completed) (id : Nat) (phase : Text) (error : Option Text)
    (now : Nat) : RecordsInv (closePhase status db id phase error now).2 := by
  unfold closePhase
  split
  · exact h
  · split
    · exact h
    · next record rest hfound =>
      obtain ⟨hmem, -, -, hactive⟩ := mem_findActive hfound
      refine RecordsInv.setLifecycle ?_ id (fun _ => rfl) (fun _ => rfl)
      refine h.updatePhases (fun r => ⟨rfl, rfl, rfl, rfl⟩) ?_ ?_ fun _ _ _ => hstatus.2
      · intro r hr
        exact absurd hr hstatus.1
      · intro r hr hid
        rw [h.eq_of_id hr hmem (beq_iff_eq.mp hid), hactive]
        simp

theorem recordsInv_skip {db : LifecycleDb} (h : RecordsInv db) (id : Nat) (phase : Text) (now : Nat) :
    RecordsInv (skipPhase db id phase now).2 := by
  unfold skipPhase
  split
  · exact h
  · next l hl =>
    dsimp only
    refine RecordsInv.setLifecycle ?_ id ?_ ?_
    · split
      · exact h.skipOpen id phase now
      · next hnone =>
        have hempty : findPhaseRecords db id phase none = [] := by simpa using hnone
        have hskipped : findPhaseRecords (skipOpen db id phase now) id phase none = [] := by
          have hsame : ∀ r, SameRecord r (LifecyclePhaseRecord.skip now r) := fun r => ⟨rfl, rfl, rfl, rfl⟩
          unfold skipOpen
          rw [findPhaseRecords_updatePhases hsame, hempty]
          rfl
        refine (h.skipOpen id phase now).addPhase (l := l) hl rfl ?_ (by simp) (by simp)
        dsimp only
        rw [hskipped]
        rfl
    · intro l
      exact advanceLifecycle_id l phase now
    · intro l
      exact advanceLifecycle_total l phase now

theorem recordsInv_restart {db : LifecycleDb} (h : RecordsInv db) (id : Nat) (phase : Text) (now : Nat) :
    RecordsInv (restartPhase db id phase now).2 := by
  unfold restartPhase
  split
  · exact h
  · split
    · exact h
    · exact h.setLifecycle id (fun _ => rfl) (fun _ => rfl)

theorem recordsInv_forceAdvance {db : LifecycleDb} (h : RecordsInv db) (id : Nat) (toPhase : Text)
    (now : Nat) : RecordsInv (forceAdvance db id toPhase now).2 := by
  unfold forceAdvance
  split
  · exact h
  · next l hl =>
    split
    · exact h
    · refine RecordsInv.setLifecycle ?_ id ?_ ?_
      · refine List.foldlRecOn (motive := RecordsInv) _ _ h fun db' h' phase _ => ?_
        exact h'.skipOpen id phase now
      · intro l
        split <;> rfl
      · intro l
        split <;> rfl

theorem recordsInv_abandon {db : LifecycleDb} (h : RecordsInv db) (id : Nat) (now : Nat) :
    RecordsInv (abandonLifecycle db id now).2 := by
  unfold abandonLifecycle
  split
  · exact h
  · have hset := h.setLifecycle id (f := fun l => { l with
        currentPhase := "abandoned".toList
        phaseStatus := .failed
        completedAt := some now
        updatedAt := now }) (fun _ => rfl) (fun _ => rfl)
    refine hset.updatePhases (fun r => ⟨rfl, rfl, rfl, rfl⟩) ?_ ?_ ?_
    · intro r hr
      cases hr
    · intro r _ hcond hr
      simp [LifecyclePhaseRecord.isOpen, hr] at hcond
    · intro r _ _ hr
      cases hr

theorem recordsInv_getOrCreate {db : LifecycleDb} (h : RecordsInv db) (issueNumber projectSlug : Text)
    (now : Nat) : RecordsInv (getOrCreateLifecycle db issueNumber projectSlug now).2 := by
  unfold getOrCreateLifecycle
  dsimp only
  split
  · exact h
  · exact h.addLifecycle rfl rfl

theorem recordsInv_apply {db : LifecycleDb} (h : RecordsInv db) (op : LifecycleOp) :
    RecordsInv (db.apply op) := by
  cases op with
  | getOrCreate issueNumber projectSlug now => exact recordsInv_getOrCreate h issueNumber projectSlug now
  | start id phase taskRunId now => exact recordsInv_start h id phase taskRunId now
  | complete id phase cost now => exact recordsInv_complete h id phase cost now
  | fail id phase error now => exact recordsInv_close h (by simp) id phase error now
  | stop id phase error now => exact recordsInv_close h (by simp) id phase error now
  | skip id phase now => exact recordsInv_skip h id phase now
  | restart id phase now => exact recordsInv_restart h id phase now
  | forceAdvance id toPhase now => exact recordsInv_forceAdvance h id toPhase now
  | abandon id now => exact recordsInv_abandon h id now

/-- After every sequence of operations the records of a phase are numbered from 1 in the order of their
creation, at most one of them is active, and the total of a lifecycle is the sum of the costs of its
completed records. -/
theorem lifecycle_records {ops : List LifecycleOp} {db : LifecycleDb}
    (h : Runs.exec lifecycleStep {} ops = some db) :
    (∀ lifecycleId phase,
      (findPhaseRecords db lifecycleId phase none).map LifecyclePhaseRecord.attempt =
        List.range' 1 (findPhaseRecords db lifecycleId phase none).length ∧
      (findPhaseRecords db lifecycleId phase (some .active)).length ≤ 1) ∧
    ∀ lifecycleId l, db.lifecycle lifecycleId = some l →
      l.totalCostUsd = ((db.phases.filter fun r =>
        r.lifecycleId == lifecycleId && r.status == .completed).map LifecyclePhaseRecord.costUsd).sum := by
  have hinv : RecordsInv db := by
    refine Runs.invariant ?_ recordsInv_empty h
    intro s op s' hs hstep
    cases hstep
    exact recordsInv_apply hs op
  refine ⟨fun lifecycleId phase => ⟨hinv.attempts lifecycleId phase, hinv.active lifecycleId phase⟩, ?_⟩
  intro lifecycleId l hl
  have hid : l.id = lifecycleId := get_key hl
  have hcost := hinv.cost l (mem_of_get hl)
  rw [hid] at hcost
  exact hcost

/-- A development that fails once, is completed at the second attempt and skipped at the review. -/
def retriedDevelopment : List LifecycleOp :=
  [.getOrCreate "#42".toList [] 0, .start 1 "development".toList none 1,
   .fail 1 "development".toList none 2, .restart 1 "development".toList 3,
   .start 1 "development".toList (some 7) 4, .complete 1 "development".toList 3 5,
   .skip 1 "review".toList 6]

theorem lifecycle_records_retried :
    ∃ db, Runs.exec lifecycleStep {} retriedDevelopment = some db ∧
      (findPhaseRecords db 1 "development".toList none).map LifecyclePhaseRecord.attempt = [1, 2] ∧
      ∀ l, db.lifecycle 1 = some l → l.totalCostUsd = 3 := by
  have hrun : Runs.exec lifecycleStep {} retriedDevelopment =
      some (retriedDevelopment.foldl LifecycleDb.apply {}) := by rfl
  refine ⟨_, hrun, ?_, ?_⟩
  · rw [((lifecycle_records hrun).1 1 "development".toList).1]
    decide +kernel
  · intro l hl
    rw [(lifecycle_records hrun).2 1 l hl]
    decide +kernel

end Dashboard

/-!
# Terminal lifecycles

No operation asks whether the lifecycle it works on is done or abandoned, and none takes `completed_at`
back. `Allowed` says for each operation when it leaves a terminal lifecycle where it is; a run keeps
lifecycles terminal exactly when all its operations are of that kind.
-/

namespace Dashboard

open Tables

/-- `completed_at` is set exactly for the terminal lifecycles. -/
def TerminalInv (db : LifecycleDb) : Prop :=
  ∀ id l, db.lifecycle id = some l → (l.completedAt.isSome = true ↔ l.isTerminal = true)

/-- The terminal lifecycles are still in the same phase. -/
def KeepsTerminal (db db' : LifecycleDb) : Prop :=
  ∀ id l, db.lifecycle id = some l → l.isTerminal = true →
    ∃ l', db'.lifecycle id = some l' ∧ l'.currentPhase = l.currentPhase

/-- The phase after another. -/
def phaseAfter (phase : Text) : Text := (nextPhase phase).getD "done".toList

/-- The operation does not move a terminal lifecycle, and makes none terminal by its name alone. -/
def Allowed (db : LifecycleDb) : LifecycleOp → Prop
  | .start id phase _ _ => ∀ l, db.lifecycle id = some l →
      findPhaseRecords db id phase (some .active) = [] →
      if l.isTerminal then phase = l.currentPhase else phase ∉ lifecycleTerminal
  | .complete id phase _ _ => ∀ l, db.lifecycle id = some l →
      findPhaseRecords db id phase (some .active) ≠ [] →
      l.isTerminal = true → phaseAfter phase = l.currentPhase
  | .skip id phase _ => ∀ l, db.lifecycle id = some l →
      l.isTerminal = true → phaseAfter phase = l.currentPhase
  | .restart id phase _ => ∀ l, db.lifecycle id = some l → failedRecords db id phase ≠ [] →
      if l.isTerminal then phase = l.currentPhase else phase ∉ lifecycleTerminal
  | .forceAdvance id toPhase _ => ∀ l, db.lifecycle id = some l →
      toPhase ∈ phaseOrder ++ ["done".toList] → l.isTerminal = true → toPhase = l.currentPhase
  | .abandon id _ => ∀ l, db.lifecycle id = some l →
      l.isTerminal = true → l.currentPhase = "abandoned".toList
  | .getOrCreate _ _ _ => True
  | .fail _ _ _ _ => True
  | .stop _ _ _ _ => True

/-! ## What an operation does to the lifecycles -/

theorem lifecycle_setLifecycle (db : LifecycleDb) (id k : Nat) {f : IssueLifecycle → IssueLifecycle}
    (hid : ∀ l, (f l).id = l.id) :
    (db.setLifecycle id f).lifecycle k = if k = id then (db.lifecycle id).map f else db.lifecycle k := by
  refine (get_updateWhere db.lifecycles hid k).trans ?_
  cases hl : Tables.get IssueLifecycle.id k db.lifecycles with
  | none =>
    split
    · next hk =>
      subst hk
      simp [LifecycleDb.lifecycle, hl]
    · simp [LifecycleDb.lifecycle, hl]
  | some l =>
    have hlk : l.id = k := get_key hl
    split
    · next hk =>
      subst hk
      simp [LifecycleDb.lifecycle, hl, hlk]
    · next hk => simp [LifecycleDb.lifecycle, hl, hlk, hk]

theorem isTerminal_iff (l : IssueLifecycle) : l.isTerminal = true ↔ l.currentPhase ∈ lifecycleTerminal := by
  simp [IssueLifecycle.isTerminal]

/-- Tables with the same lifecycles. -/
theorem terminal_same {db db' : LifecycleDb} (hinv : TerminalInv db)
    (h : ∀ k, db'.lifecycle k = db.lifecycle k) : TerminalInv db' ∧ KeepsTerminal db db' := by
  refine ⟨?_, ?_⟩
  · intro id l hl
    exact hinv id l ((h id).symm.trans hl)
  · intro id l hl _
    exact ⟨l, (h id).trans hl, rfl⟩

/-- The step is fine exactly when it is for the lifecycle that it writes. -/
theorem terminal_set_iff {db db' : LifecycleDb} {id : Nat} {l l' : IssueLifecycle}
    (hinv : TerminalInv db) (hl : db.lifecycle id = some l)
    (h : ∀ k, db'.lifecycle k = if k = id then some l' else db.lifecycle k) :
    (TerminalInv db' ∧ KeepsTerminal db db') ↔
      (l'.completedAt.isSome = true ↔ l'.isTerminal = true) ∧
        (l.isTerminal = true → l'.currentPhase = l.currentPhase) := by
  have hid : db'.lifecycle id = some l' := by rw [h, if_pos rfl]
  constructor
  · rintro ⟨hinv', hkeeps⟩
    refine ⟨hinv' id l' hid, ?_⟩
    intro hterminal
    obtain ⟨l'', hl'', hphase⟩ := hkeeps id l hl hterminal
    rw [hid] at hl''
    cases hl''
    exact hphase
  · rintro ⟨hset, hkept⟩
    refine ⟨?_, ?_⟩
    · intro k x hx
      rw [h] at hx
      split at hx
      · cases hx
        exact hset
      · exact hinv k x hx
    · intro k x hx hterminal
      by_cases hk : k = id
      · subst hk
        rw [hl] at hx
        cases hx
        exact ⟨l', hid, hkept hterminal⟩
      · exact ⟨x, by rw [h, if_neg hk, hx], rfl⟩

theorem lookup_phaseTransitions (phase : Text) :
    phaseTransitions.lookup phase = none ∨
      ∃ entry ∈ phaseTransitions, phaseTransitions.lookup phase = some entry.2 := by
  cases h : phaseTransitions.lookup phase with
  | none => exact .inl rfl
  | some transitions =>
    obtain ⟨l₁, l₂, hsplit, -⟩ := List.lookup_eq_some_iff.mp h
    exact .inr ⟨(phase, transitions), by rw [hsplit]; simp, rfl⟩

/-- The transitions of a phase lead to another phase of the order, or there are none. -/
theorem transitions_cases (phase : Text) :
    ((phaseTransitions.lookup phase).getD [] = [] ∧ nextPhase phase = none) ∨
      ((phaseTransitions.lookup phase).getD [] ≠ [] ∧
        ∃ p, nextPhase phase = some p ∧ p ∉ lifecycleTerminal) := by
  unfold nextPhase
  rcases lookup_phaseTransitions phase with h | ⟨entry, hmem, h⟩
  · rw [h]
    exact .inl ⟨rfl, by decide⟩
  · rw [h]
    have hall : ∀ entry ∈ phaseTransitions,
        (entry.2 = [] ∧ phaseOrder.find? (fun p => entry.2.contains p) = none) ∨
          (entry.2 ≠ [] ∧ ∃ p, phaseOrder.find? (fun p => entry.2.contains p) = some p ∧
            p ∉ lifecycleTerminal) := by
      intro entry hentry
      simp only [phaseTransitions, List.mem_cons, List.not_mem_nil, or_false] at hentry
      rcases hentry with rfl | rfl | rfl | rfl | rfl | rfl
      · exact .inr ⟨by decide, "post_pr".toList, by decide, by decide⟩
      · exact .inr ⟨by decide, "review".toList, by decide, by decide⟩
      · exact .inr ⟨by decide, "address_review".toList, by decide, by decide⟩
      · exact .inr ⟨by decide, "integrate".toList, by decide, by decide⟩
      · exact .inr ⟨by decide, "post_merge".toList, by decide, by decide⟩
      · exact .inl ⟨by decide, by decide⟩
    exact hall entry hmem

/-! ## The lifecycle that is written -/

/-- The lifecycle after the step is as it should be. -/
def LifecycleFine (l l' : IssueLifecycle) : Prop :=
  (l'.completedAt.isSome = true ↔ l'.isTerminal = true) ∧
    (l.isTerminal = true → l'.currentPhase = l.currentPhase)

section Written

variable {l l' : IssueLifecycle}

/-- The lifecycle is completed into a terminal phase. -/
theorem fine_terminal_iff {phase : Text} (hphase : phase ∈ lifecycleTerminal)
    (hcurrent : l'.currentPhase = phase) (hcompleted : l'.completedAt.isSome = true) :
    LifecycleFine l l' ↔ (l.isTerminal = true → phase = l.currentPhase) := by
  unfold LifecycleFine
  rw [isTerminal_iff l', hcurrent]
  simp [hphase, hcompleted]

/-- The lifecycle is moved to a phase, and its completion is left as it was. -/
theorem fine_moved_iff (hl : l.completedAt.isSome = true ↔ l.isTerminal = true) {phase : Text}
    (hcurrent : l'.currentPhase = phase) (hcompleted : l'.completedAt = l.completedAt) :
    LifecycleFine l l' ↔ if l.isTerminal then phase = l.currentPhase else phase ∉ lifecycleTerminal := by
  unfold LifecycleFine
  rw [isTerminal_iff l', hcurrent, hcompleted, hl]
  by_cases hterminal : l.isTerminal = true
  · have hmem : l.currentPhase ∈ lifecycleTerminal := (isTerminal_iff l).mp hterminal
    simp only [hterminal, if_true, true_iff, forall_const]
    exact ⟨fun h => h.2, fun h => ⟨h ▸ hmem, h⟩⟩
  · simp [hterminal]

/-- The same for a phase that is not terminal. -/
theorem fine_open_iff (hl : l.completedAt.isSome = true ↔ l.isTerminal = true) {phase : Text}
    (hphase : phase ∉ lifecycleTerminal) (hcurrent : l'.currentPhase = phase)
    (hcompleted : l'.completedAt = l.completedAt) :
    LifecycleFine l l' ↔ (l.isTerminal = true → phase = l.currentPhase) := by
  rw [fine_moved_iff hl hcurrent hcompleted]
  by_cases hterminal : l.isTerminal = true
  · simp [hterminal]
  · simp [hterminal, hphase]

theorem done_mem_terminal : "done".toList ∈ lifecycleTerminal := by decide

theorem abandoned_mem_terminal : "abandoned".toList ∈ lifecycleTerminal := by decide

theorem fine_advance_iff (hl : l.completedAt.isSome = true ↔ l.isTerminal = true) (l₁ : IssueLifecycle)
    {phase : Text} {now : Nat} (hsame : l₁.completedAt = l.completedAt)
    (hcurrent : l'.currentPhase = (advanceLifecycle l₁ phase now).currentPhase)
    (hcompleted : l'.completedAt = (advanceLifecycle l₁ phase now).completedAt) :
    LifecycleFine l l' ↔ (l.isTerminal = true → phaseAfter phase = l.currentPhase) := by
  unfold phaseAfter
  rcases transitions_cases phase with ⟨hnone, hnext⟩ | ⟨hsome, p, hnext, hp⟩
  · have hadvance : advanceLifecycle l₁ phase now =
        { l₁ with
          currentPhase := "done".toList
          phaseStatus := .completed
          completedAt := some now } := by
      unfold advanceLifecycle
      rw [hnone]
      rfl
    rw [hadvance] at hcurrent hcompleted
    rw [hnext]
    exact fine_terminal_iff done_mem_terminal hcurrent (by rw [hcompleted]; rfl)
  · have hadvance : advanceLifecycle l₁ phase now =
        { l₁ with
          currentPhase := p
          phaseStatus := .pending } := by
      unfold advanceLifecycle
      rw [hnext, if_neg (by simpa using hsome)]
    rw [hadvance] at hcurrent hcompleted
    rw [hnext]
    exact fine_open_iff hl hp hcurrent (hcompleted.trans hsame)

end Written

/-! ## The operations -/

section Operations

variable {db db' : LifecycleDb} {id : Nat} {l : IssueLifecycle} {P : IssueLifecycle → Prop}

/-- The step writes no lifecycle. -/
theorem allowed_iff_of_same (hinv : TerminalInv db) (hsame : db'.lifecycles = db.lifecycles)
    (hP : ∀ l, db.lifecycle id = some l → P l) :
    (∀ l, db.lifecycle id = some l → P l) ↔ TerminalInv db' ∧ KeepsTerminal db db' := by
  refine iff_of_true hP (terminal_same hinv fun k => ?_)
  unfold LifecycleDb.lifecycle
  rw [hsame]

/-- The step writes one lifecycle. -/
theorem allowed_iff_of_written {f : IssueLifecycle → IssueLifecycle} (hinv : TerminalInv db)
    (hl : db.lifecycle id = some l) (hdb' : db'.lifecycles = (db.setLifecycle id f).lifecycles)
    (hid : ∀ l, (f l).id = l.id) (hfine : LifecycleFine l (f l) ↔ P l) :
    (∀ l, db.lifecycle id = some l → P l) ↔ TerminalInv db' ∧ KeepsTerminal db db' := by
  have hset : (TerminalInv db' ∧ KeepsTerminal db db') ↔ LifecycleFine l (f l) := by
    refine terminal_set_iff hinv hl fun k => ?_
    have hrow : db'.lifecycle k = (db.setLifecycle id f).lifecycle k := by
      unfold LifecycleDb.lifecycle
      rw [hdb']
    rw [hrow, lifecycle_setLifecycle db id k hid, hl]
    rfl
  rw [hset, hfine]
  constructor
  · intro h
    exact h l hl
  · intro h x hx
    rw [hl] at hx
    cases hx
    exact h

theorem allowed_start_iff (hinv : TerminalInv db) (id : Nat) (phase : Text) (taskRunId : Option Nat)
    (now : Nat) :
    Allowed db (.start id phase taskRunId now) ↔
      TerminalInv (startPhase db id phase taskRunId now).2 ∧
        KeepsTerminal db (startPhase db id phase taskRunId now).2 := by
  unfold startPhase
  cases hl : db.lifecycle id with
  | none => exact allowed_iff_of_same hinv rfl fun l h => absurd (hl.symm.trans h) (by simp)
  | some l =>
    dsimp only
    cases hactive : findPhaseRecords db id phase (some .active) with
    | nil =>
      refine allowed_iff_of_written hinv hl rfl (fun _ => rfl) ?_
      refine Iff.trans (fine_moved_iff (hinv id l hl) rfl rfl) ?_
      simp [hactive]
    | cons record rest =>
      dsimp only
      split
      · exact allowed_iff_of_same hinv rfl fun l _ h => absurd (hactive.symm.trans h) (by simp)
      · exact allowed_iff_of_same hinv rfl fun l _ h => absurd (hactive.symm.trans h) (by simp)

theorem allowed_complete_iff (hinv : TerminalInv db) (id : Nat) (phase : Text) (cost : ℚ) (now : Nat) :
    Allowed db (.complete id phase cost now) ↔
      TerminalInv (completePhase db id phase cost now).2 ∧
        KeepsTerminal db (completePhase db id phase cost now).2 := by
  unfold completePhase
  cases hl : db.lifecycle id with
  | none => exact allowed_iff_of_same hinv rfl fun l h => absurd (hl.symm.trans h) (by simp)
  | some l =>
    dsimp only
    cases hactive : findPhaseRecords db id phase (some .active) with
    | nil => exact allowed_iff_of_same hinv rfl fun l _ h => absurd hactive h
    | cons record rest =>
      refine allowed_iff_of_written hinv hl rfl (fun l => advanceLifecycle_id _ phase now) ?_
      rw [fine_advance_iff (hinv id l hl) { l with
        totalCostUsd := l.totalCostUsd + cost
        phaseStatus := .completed
        updatedAt := now } rfl rfl rfl]
      simp [hactive]

theorem close_fine (hinv : TerminalInv db) (status : PhaseStatus) (id : Nat) (phase : Text)
    (error : Option Text) (now : Nat) :
    TerminalInv (closePhase status db id phase error now).2 ∧
      KeepsTerminal db (closePhase status db id phase error now).2 := by
  unfold closePhase
  cases hl : db.lifecycle id with
  | none => exact terminal_same hinv fun _ => rfl
  | some l =>
    dsimp only
    cases findPhaseRecords db id phase (some .active) with
    | nil => exact terminal_same hinv fun _ => rfl
    | cons record rest =>
      refine Iff.mp (allowed_iff_of_written (P := fun _ => True)
        (f := fun l => { l with phaseStatus := status, updatedAt := now }) hinv hl rfl (fun _ => rfl) ?_)
        fun _ _ => trivial
      exact iff_of_true ⟨hinv id l hl, fun _ => rfl⟩ trivial

theorem allowed_skip_iff (hinv : TerminalInv db) (id : Nat) (phase : Text) (now : Nat) :
    Allowed db (.skip id phase now) ↔
      TerminalInv (skipPhase db id phase now).2 ∧ KeepsTerminal db (skipPhase db id phase now).2 := by
  unfold skipPhase
  cases hl : db.lifecycle id with
  | none => exact allowed_iff_of_same hinv rfl fun l h => absurd (hl.symm.trans h) (by simp)
  | some l =>
    refine allowed_iff_of_written (f := fun l => { advanceLifecycle l phase now with updatedAt := now })
      hinv hl ?_ (fun l => advanceLifecycle_id l phase now) ?_
    · dsimp only
      split <;> rfl
    · exact fine_advance_iff (hinv id l hl) l rfl rfl rfl

theorem allowed_restart_iff (hinv : TerminalInv db) (id : Nat) (phase : Text) (now : Nat) :
    Allowed db (.restart id phase now) ↔
      TerminalInv (restartPhase db id phase now).2 ∧
        KeepsTerminal db (restartPhase db id phase now).2 := by
  unfold restartPhase
  cases hl : db.lifecycle id with
  | none => exact allowed_iff_of_same hinv rfl fun l h => absurd (hl.symm.trans h) (by simp)
  | some l =>
    dsimp only
    cases hfailed : (failedRecords db id phase).getLast? with
    | none =>
      have hnone : failedRecords db id phase = [] := List.getLast?_eq_none_iff.mp hfailed
      exact allowed_iff_of_same hinv rfl fun l _ h => absurd hnone h
    | some record =>
      have hne : failedRecords db id phase ≠ [] := by
        intro hempty
        rw [hempty] at hfailed
        cases hfailed
      refine allowed_iff_of_written hinv hl rfl (fun _ => rfl) ?_
      refine Iff.trans (fine_moved_iff (hinv id l hl) rfl rfl) ?_
      simp [hne]

theorem lifecycles_passed (db : LifecycleDb) (id now : Nat) (passed : List Text) :
    (passed.foldl (fun db phase => skipOpen db id phase now) db).lifecycles = db.lifecycles := by
  induction passed generalizing db with
  | nil => rfl
  | cons phase passed ih => exact ih (skipOpen db id phase now)

theorem allowed_forceAdvance_iff (hinv : TerminalInv db) (id : Nat) (toPhase : Text) (now : Nat) :
    Allowed db (.forceAdvance id toPhase now) ↔
      TerminalInv (forceAdvance db id toPhase now).2 ∧
        KeepsTerminal db (forceAdvance db id toPhase now).2 := by
  unfold forceAdvance
  cases hl : db.lifecycle id with
  | none => exact allowed_iff_of_same hinv rfl fun l h => absurd (hl.symm.trans h) (by simp)
  | some l =>
    dsimp only
    by_cases hvalid : toPhase ∈ phaseOrder ++ ["done".toList]
    · have hcontains := List.contains_iff_mem.mpr hvalid
      rw [if_neg (by rw [hcontains]; simp)]
      refine allowed_iff_of_written (f := fun l =>
        if toPhase = "done".toList then
          { l with
            currentPhase := "done".toList
            phaseStatus := .completed
            completedAt := some now
            updatedAt := now }
        else { l with currentPhase := toPhase, phaseStatus := .pending, updatedAt := now }) hinv hl ?_
        (by intro l; split <;> rfl) ?_
      · exact congrArg (Tables.updateWhere (fun l => l.id == id) _) (lifecycles_passed db id now _)
      · by_cases hdone : toPhase = "done".toList
        · rw [if_pos hdone, fine_terminal_iff done_mem_terminal rfl rfl, hdone]
          simp
        · have hopen : toPhase ∉ lifecycleTerminal := by
            have hall : ∀ p ∈ phaseOrder, p ∉ lifecycleTerminal := by decide
            rcases List.mem_append.mp hvalid with h | h
            · exact hall toPhase h
            · exact absurd (List.mem_singleton.mp h) hdone
          rw [if_neg hdone]
          refine Iff.trans (fine_open_iff (hinv id l hl) hopen rfl rfl) ?_
          exact ⟨fun h _ => h, fun h => h hvalid⟩
    · have hcontains : (phaseOrder ++ ["done".toList]).contains toPhase = false :=
        Bool.eq_false_iff.mpr fun h => hvalid (List.contains_iff_mem.mp h)
      rw [if_pos (by rw [hcontains]; rfl)]
      exact allowed_iff_of_same hinv rfl fun l _ h => absurd h hvalid

theorem allowed_abandon_iff (hinv : TerminalInv db) (id : Nat) (now : Nat) :
    Allowed db (.abandon id now) ↔
      TerminalInv (abandonLifecycle db id now).2 ∧ KeepsTerminal db (abandonLifecycle db id now).2 := by
  unfold abandonLifecycle
  cases hl : db.lifecycle id with
  | none => exact allowed_iff_of_same hinv rfl fun l h => absurd (hl.symm.trans h) (by simp)
  | some l =>
    refine allowed_iff_of_written hinv hl rfl (fun _ => rfl) ?_
    rw [fine_terminal_iff abandoned_mem_terminal rfl rfl]
    exact ⟨fun h ht => (h ht).symm, fun h ht => (h ht).symm⟩

theorem getOrCreate_fine (hinv : TerminalInv db) (issueNumber projectSlug : Text) (now : Nat) :
    TerminalInv (getOrCreateLifecycle db issueNumber projectSlug now).2 ∧
      KeepsTerminal db (getOrCreateLifecycle db issueNumber projectSlug now).2 := by
  unfold getOrCreateLifecycle
  dsimp only
  split
  · exact terminal_same hinv fun _ => rfl
  · refine ⟨?_, ?_⟩
    · intro id l hl
      have hfound := (get_append IssueLifecycle.id id db.lifecycles _).symm.trans hl
      cases hold : Tables.get IssueLifecycle.id id db.lifecycles with
      | some l₀ =>
        rw [hold] at hfound
        cases hfound
        exact hinv id l hold
      | none =>
        rw [hold] at hfound
        have hnew := List.mem_singleton.mp (mem_of_get hfound)
        rw [hnew]
        show false = true ↔ lifecycleTerminal.contains "development".toList = true
        decide
    · intro id l hl _
      refine ⟨l, ?_, rfl⟩
      refine (get_append IssueLifecycle.id id db.lifecycles _).trans ?_
      have hold : Tables.get IssueLifecycle.id id db.lifecycles = some l := hl
      rw [hold]
      rfl

theorem allowed_iff (hinv : TerminalInv db) (op : LifecycleOp) :
    Allowed db op ↔ TerminalInv (db.apply op) ∧ KeepsTerminal db (db.apply op) := by
  cases op with
  | getOrCreate issueNumber projectSlug now =>
    exact iff_of_true trivial (getOrCreate_fine hinv issueNumber projectSlug now)
  | start id phase taskRunId now => exact allowed_start_iff hinv id phase taskRunId now
  | complete id phase cost now => exact allowed_complete_iff hinv id phase cost now
  | fail id phase error now => exact iff_of_true trivial (close_fine hinv .failed id phase error now)
  | stop id phase error now => exact iff_of_true trivial (close_fine hinv .stopped id phase error now)
  | skip id phase now => exact allowed_skip_iff hinv id phase now
  | restart id phase now => exact allowed_restart_iff hinv id phase now
  | forceAdvance id toPhase now => exact allowed_forceAdvance_iff hinv id toPhase now
  | abandon id now => exact allowed_abandon_iff hinv id now

end Operations

/-! ## Runs -/

theorem terminalInv_empty : TerminalInv {} := by
  intro id l hl
  cases hl

theorem KeepsTerminal.trans {db db' db'' : LifecycleDb} (h : KeepsTerminal db db')
    (h' : KeepsTerminal db' db'') : KeepsTerminal db db'' := by
  intro id l hl hterminal
  obtain ⟨l', hl', hphase⟩ := h id l hl hterminal
  have hterminal' : l'.isTerminal = true := by
    rw [isTerminal_iff, hphase, ← isTerminal_iff]
    exact hterminal
  obtain ⟨l'', hl'', hphase'⟩ := h' id l' hl' hterminal'
  exact ⟨l'', hl'', hphase'.trans hphase⟩

/-- A run of allowed operations, from where the invariant holds. -/
theorem terminal_run {db db' : LifecycleDb} {ops : List LifecycleOp} (hinv : TerminalInv db)
    (hmeets : Runs.Meets lifecycleStep Allowed db ops) (h : Runs.exec lifecycleStep db ops = some db') :
    TerminalInv db' ∧ KeepsTerminal db db' := by
  induction ops generalizing db with
  | nil =>
    cases h
    exact terminal_same hinv fun _ => rfl
  | cons op ops ih =>
    obtain ⟨hallowed, hrest⟩ := hmeets
    obtain ⟨hinv', hkeeps⟩ := (allowed_iff hinv op).mp hallowed
    obtain ⟨hend, hkeeps'⟩ := ih hinv' (hrest _ rfl) h
    exact ⟨hend, hkeeps.trans hkeeps'⟩

theorem meets_of_fine {db : LifecycleDb} {ops : List LifecycleOp} (hinv : TerminalInv db)
    (h : ∀ before op after db', ops = before ++ op :: after →
      Runs.exec lifecycleStep db before = some db' →
      TerminalInv (db'.apply op) ∧ KeepsTerminal db' (db'.apply op)) :
    Runs.Meets lifecycleStep Allowed db ops := by
  induction ops generalizing db with
  | nil => trivial
  | cons op ops ih =>
    have hfirst := h [] op ops db rfl rfl
    refine ⟨(allowed_iff hinv op).mpr hfirst, ?_⟩
    intro db₁ hstep
    cases hstep
    refine ih hfirst.1 ?_
    intro before op' after db' hops hexec
    exact h (op :: before) op' after db' (by rw [hops]; rfl) hexec

/-- In a run, `completed_at` is set in every state exactly for the lifecycles that are done or
abandoned, and no lifecycle that is leaves its phase later on, exactly when every operation of the run
is allowed where it happens. -/
theorem lifecycle_terminal_iff (ops : List LifecycleOp) :
    Runs.Meets lifecycleStep Allowed {} ops ↔
      ∀ before between after db db', ops = before ++ between ++ after →
        Runs.exec lifecycleStep {} before = some db →
        Runs.exec lifecycleStep db between = some db' →
        (∀ id l, db'.lifecycle id = some l →
          (l.completedAt.isSome = true ↔ l.currentPhase ∈ lifecycleTerminal)) ∧
        ∀ id l, db.lifecycle id = some l → l.currentPhase ∈ lifecycleTerminal →
          ∃ l', db'.lifecycle id = some l' ∧ l'.currentPhase = l.currentPhase := by
  constructor
  · intro hmeets before between after db db' hops hbefore hbetween
    rw [hops, List.append_assoc] at hmeets
    obtain ⟨hfirst, hlater⟩ := Runs.meets_append hmeets hbefore
    have hinv := (terminal_run terminalInv_empty hfirst hbefore).1
    obtain ⟨hinv', hkeeps⟩ := terminal_run hinv (Runs.meets_append hlater hbetween).1 hbetween
    refine ⟨?_, ?_⟩
    · intro id l hl
      rw [← isTerminal_iff]
      exact hinv' id l hl
    · intro id l hl hterminal
      exact hkeeps id l hl ((isTerminal_iff l).mpr hterminal)
  · intro hfine
    refine meets_of_fine terminalInv_empty ?_
    intro before op after db hops hbefore
    obtain ⟨hinv, hkeeps⟩ := hfine before [op] after db (db.apply op) (by simpa using hops) hbefore rfl
    refine ⟨?_, ?_⟩
    · intro id l hl
      rw [isTerminal_iff]
      exact hinv id l hl
    · intro id l hl hterminal
      exact hkeeps id l hl ((isTerminal_iff l).mp hterminal)

/-- A lifecycle whose review was started while its development went on, and that is closed by force. -/
def closedByForce : List LifecycleOp :=
  [.getOrCreate "42".toList [] 0, .start 1 "development".toList none 1, .start 1 "review".toList none 2,
   .forceAdvance 1 "done".toList 3]

/-- The development that was still active is completed after the lifecycle is done: the lifecycle goes
on to the next phase, completed all the same. -/
theorem lifecycle_leaves_done :
    ¬ ∀ (ops : List LifecycleOp) (db : LifecycleDb), Runs.exec lifecycleStep {} ops = some db →
      ∀ id l, db.lifecycle id = some l →
        (l.completedAt.isSome = true ↔ l.currentPhase ∈ lifecycleTerminal) ∧
          (l.currentPhase ∈ lifecycleTerminal → ∀ op l', (db.apply op).lifecycle id = some l' →
            l'.currentPhase = l.currentPhase) := by
  intro hclaim
  have hdone : (closedByForce.foldl LifecycleDb.apply {}).lifecycle 1 =
      some { id := 1
             issueNumber := "42".toList
             currentPhase := "done".toList
             phaseStatus := .completed
             createdAt := 0
             updatedAt := 3
             completedAt := some 3 } := by decide +kernel
  have hkept := (hclaim closedByForce _ rfl 1 _ hdone).2 (by decide)
    (.complete 1 "development".toList 0 4)
    { id := 1
      issueNumber := "42".toList
      currentPhase := "post_pr".toList
      createdAt := 0
      updatedAt := 4
      completedAt := some 3 } (by decide +kernel)
  exact absurd hkept (by decide)

end Dashboard

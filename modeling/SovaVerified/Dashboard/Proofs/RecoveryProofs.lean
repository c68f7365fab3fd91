import SovaVerified.Dashboard.Recovery
import SovaVerified.Dashboard.Proofs.StartAgentProofs

/-!
# Sweeps and starting agents

A start may still succeed as long as it has not failed and its process, once there is one, is alive. A
sweep that reads such a run must find its pid in the row, and when it judges the run, it must find it in
the pool or find a process that it leaves alone. As long as every sweep does, none of them marks a run
that may still succeed.
-/

namespace Dashboard

open Tables

namespace Recovery

/-! ## The condition -/

/-- The start may still succeed with a process that is alive, or has done so. -/
def mayLive (s : Recovery) (i : Nat) (st : Start) : Bool :=
  match st.stage with
  | .created => true
  | .spawned pid | .stored pid | .registered pid => s.processAlive i pid
  | .failed => false

/-- No start is between the creation of its row and the pid in it: the unfinished row of every run that
may live holds the pid of its process. -/
def PidsStored (s : Recovery) : Prop :=
  ∀ i st, s.start i = some st → s.mayLive i st = true →
    ∀ run ∈ s.control.runs, run.id = st.runId → run.isTerminal = false →
      ∃ pid, st.stage.pid = some pid ∧ run.pid = some pid

/-- Of the runs that the sweep has read, those that may live are in the pool, or the pool cannot be read,
or the process does not look like an orphan; and the process is not more than five minutes younger than
its row. -/
def Settled (s : Recovery) (w : SweepOutside) (runs : List TaskRun) : Prop :=
  ∀ i st, s.start i = some st → s.mayLive i st = true →
    ∀ run ∈ runs, run.id = st.runId → ∀ pid p, st.stage.pid = some pid → s.machine pid = some p →
      p.createTime ≤ run.startedAt + recycleMargin ∧
        (run.id ∈ managedRunIds w s.control ∨ w.poolLoaded = false ∨
          isOrphanedProcess s.machine s.self (w.psutilFails pid) pid = false)

/-- The condition on the steps of a sweep. -/
def Undisturbed (s : Recovery) : RecoveryAction → Prop
  | .sweepRead => s.PidsStored
  | .sweepJudge j w => ∀ runs, s.sweep j = some (.read runs) → s.Settled w runs
  | _ => True

/-! ## The invariant -/

/-- The id is the id of a row, and of no start that may live. -/
def Spares (s : Recovery) (id : Nat) : Prop :=
  id < s.control.nextRunId ∧ ∀ i st, s.start i = some st → s.mayLive i st = true → id ≠ st.runId

/-- The row that was read is a row of the table, and when its run may live, it holds the pid. -/
def ReadWithPid (s : Recovery) (run : TaskRun) : Prop :=
  run.id < s.control.nextRunId ∧ ∀ i st, s.start i = some st → s.mayLive i st = true →
    run.id = st.runId → ∃ pid, st.stage.pid = some pid ∧ run.pid = some pid

/-- What a sweep holds. -/
def SweepInv (s : Recovery) : Sweep → Prop
  | .read runs => ∀ run ∈ runs, s.ReadWithPid run
  | .judged dead _ | .checked dead => ∀ rec ∈ dead, s.Spares rec.runId
  | .ended => True

structure SafeInv (s : Recovery) : Prop where
  positive : ∀ i st pid, s.start i = some st → st.stage.pid = some pid → 0 < pid
  sweeps : ∀ sweep ∈ s.sweeps, s.SweepInv sweep
  interrupted : ∀ id ∈ s.interrupted, s.Spares id

variable {s s' : Recovery}

/-- What the steps that are not steps of a sweep do: every start that may live afterwards could live
before, with the pid that it had, or it is new. -/
structure Calm (s s' : Recovery) : Prop where
  sweeps : s'.sweeps = s.sweeps
  interrupted : s'.interrupted = s.interrupted
  next : s.control.nextRunId ≤ s'.control.nextRunId
  positive : ∀ i st' pid, s'.start i = some st' → st'.stage.pid = some pid →
    0 < pid ∨ ∃ st, s.start i = some st ∧ st.stage.pid = some pid
  lives : ∀ i st', s'.start i = some st' → s'.mayLive i st' = true →
    st'.runId = s.control.nextRunId ∨
      ∃ st, s.start i = some st ∧ s.mayLive i st = true ∧ st.runId = st'.runId ∧
        ∀ pid, st.stage.pid = some pid → st'.stage.pid = some pid

theorem Calm.spares (h : Calm s s') {id : Nat} (hid : s.Spares id) : s'.Spares id := by
  refine ⟨Nat.lt_of_lt_of_le hid.1 h.next, ?_⟩
  intro i st' hst' hlives heq
  rcases h.lives i st' hst' hlives with hnew | ⟨st, hst, hlive, hrun, -⟩
  · have hlt := hid.1
    omega
  · exact hid.2 i st hst hlive (heq.trans hrun.symm)

theorem Calm.readWithPid (h : Calm s s') {run : TaskRun} (hrun : s.ReadWithPid run) :
    s'.ReadWithPid run := by
  refine ⟨Nat.lt_of_lt_of_le hrun.1 h.next, ?_⟩
  intro i st' hst' hlives heq
  rcases h.lives i st' hst' hlives with hnew | ⟨st, hst, hlive, hid, hpids⟩
  · have hlt := hrun.1
    omega
  · obtain ⟨pid, hpid, hrow⟩ := hrun.2 i st hst hlive (heq.trans hid.symm)
    exact ⟨pid, hpids pid hpid, hrow⟩

theorem Calm.sweepInv (h : Calm s s') {sweep : Sweep} (hsweep : s.SweepInv sweep) :
    s'.SweepInv sweep := by
  cases sweep with
  | read runs => exact fun run hrun => h.readWithPid (hsweep run hrun)
  | judged dead signalled => exact fun rec hrec => h.spares (hsweep rec hrec)
  | checked dead => exact fun rec hrec => h.spares (hsweep rec hrec)
  | ended => trivial

theorem Calm.safe (h : Calm s s') (hinv : SafeInv s) : SafeInv s' := by
  refine ⟨?_, ?_, ?_⟩
  · intro i st' pid hst' hpid
    rcases h.positive i st' pid hst' hpid with hpos | ⟨st, hst, hold⟩
    · exact hpos
    · exact hinv.positive i st pid hst hold
  · intro sweep hmem
    rw [h.sweeps] at hmem
    exact h.sweepInv (hinv.sweeps sweep hmem)
  · intro id hmem
    rw [h.interrupted] at hmem
    exact h.spares (hinv.interrupted id hmem)

/-! ## The ids of the table -/

theorem nextRunId_of_ids {c c' : Control} (h : c'.runs.map TaskRun.id = c.runs.map TaskRun.id) :
    c'.nextRunId = c.nextRunId := by
  unfold Control.nextRunId
  rw [h]

theorem nextRunId_setRun (c : Control) (id : Nat) {f : TaskRun → TaskRun} (hf : ∀ r, (f r).id = r.id) :
    (c.setRun id f).nextRunId = c.nextRunId :=
  nextRunId_of_ids (map_updateWhere _ hf)

theorem nextRunId_checkIssueConflict (kill : Int → Signalled) (dbFails force : Bool) (now : Nat)
    (issue : Text) (c : Control) :
    (checkIssueConflict kill dbFails now issue force c).2.nextRunId = c.nextRunId := by
  unfold checkIssueConflict
  split
  · rfl
  · split_ifs
    · rfl
    · exact nextRunId_of_ids (map_updateWhere _ (markStale_id now))

theorem nextRunId_createTaskRun (c : Control) (issue : Option Text) (role : Text) (pr : Option Nat)
    (check : Option Text) (now : Nat) :
    (createTaskRun c issue role pr check now).2.nextRunId = c.nextRunId + 1 := by
  have hids : (createTaskRun c issue role pr check now).2.runs.map TaskRun.id =
      c.runs.map TaskRun.id ++ [c.nextRunId] := by
    simp [createTaskRun]
  show ((createTaskRun c issue role pr check now).2.runs.map TaskRun.id).foldl max 0 + 1 = _
  rw [hids, List.foldl_append]
  show max ((c.runs.map TaskRun.id).foldl max 0) c.nextRunId + 1 = _
  have hle : (c.runs.map TaskRun.id).foldl max 0 ≤ c.nextRunId := Nat.le_succ _
  rw [max_eq_right hle]

theorem lt_nextRunId_of_mem {c : Control} {run : TaskRun} (h : run ∈ c.runs) : run.id < c.nextRunId :=
  Nat.lt_succ_of_le (le_foldl_max_of_mem (List.mem_map_of_mem h))

/-! ## The steps of the starts and of the machine -/

theorem mayLive_mono {i : Nat} {st : Start}
    (h : ∀ pid, s'.processAlive i pid = true → s.processAlive i pid = true)
    (hlive : s'.mayLive i st = true) : s.mayLive i st = true := by
  unfold mayLive at *
  split
  · rfl
  · next hstage =>
    rw [hstage] at hlive
    exact h _ hlive
  · next hstage =>
    rw [hstage] at hlive
    exact h _ hlive
  · next hstage =>
    rw [hstage] at hlive
    exact h _ hlive
  · next hstage =>
    rw [hstage] at hlive
    exact hlive

/-- A step that leaves the starts alone and brings no process of a start to life. -/
theorem calm_of_starts (hstarts : s'.starts = s.starts)
    (hlive : ∀ i pid, s'.processAlive i pid = true → s.processAlive i pid = true)
    (hsweeps : s'.sweeps = s.sweeps) (hinterrupted : s'.interrupted = s.interrupted)
    (hnext : s'.control.nextRunId = s.control.nextRunId) : Calm s s' := by
  have hstart : ∀ i, s'.start i = s.start i := by
    intro i
    unfold start
    rw [hstarts]
  refine ⟨hsweeps, hinterrupted, hnext.ge, ?_, ?_⟩
  · intro i st' pid hst' hpid
    exact .inr ⟨st', (hstart i).symm.trans hst', hpid⟩
  · intro i st' hst' hlives
    exact .inr ⟨st', (hstart i).symm.trans hst', mayLive_mono (hlive i) hlives, rfl, fun _ h => h⟩

/-- A step of one start. -/
theorem calm_of_stage {i : Nat} {st : Start} (stage : StartStage) (hst : s.start i = some st)
    (hstarts : s'.starts = s.starts.set i { st with stage := stage })
    (hother : ∀ j pid, j ≠ i → s'.processAlive j pid = true → s.processAlive j pid = true)
    (hself : s'.mayLive i { st with stage := stage } = true → s.mayLive i st = true)
    (hkeeps : ∀ pid, st.stage.pid = some pid → stage.pid = some pid)
    (hpositive : ∀ pid, stage.pid = some pid → 0 < pid ∨ st.stage.pid = some pid)
    (hsweeps : s'.sweeps = s.sweeps) (hinterrupted : s'.interrupted = s.interrupted)
    (hnext : s'.control.nextRunId = s.control.nextRunId) : Calm s s' := by
  have hcases : ∀ j st', s'.start j = some st' →
      (j = i ∧ st' = { st with stage := stage }) ∨ (j ≠ i ∧ s.start j = some st') := by
    intro j st' hst'
    unfold start at hst'
    rw [hstarts, List.getElem?_set] at hst'
    split_ifs at hst' with hij
    · exact .inl ⟨hij.symm, (Option.some.inj hst').symm⟩
    · exact .inr ⟨fun h => hij h.symm, hst'⟩
  refine ⟨hsweeps, hinterrupted, hnext.ge, ?_, ?_⟩
  · intro j st' pid hst' hpid
    rcases hcases j st' hst' with ⟨rfl, rfl⟩ | ⟨-, hold⟩
    · exact (hpositive pid hpid).imp_right fun h => ⟨st, hst, h⟩
    · exact .inr ⟨st', hold, hpid⟩
  · intro j st' hst' hlives
    rcases hcases j st' hst' with ⟨rfl, rfl⟩ | ⟨hne, hold⟩
    · exact .inr ⟨st, hst, hself hlives, rfl, hkeeps⟩
    · exact .inr ⟨st', hold, mayLive_mono (fun pid => hother j pid hne) hlives, rfl, fun _ h => h⟩

/-- A step of one start that leaves its pid and the machine alone. -/
theorem calm_of_samePid {i : Nat} {st : Start} (stage : StartStage) (hst : s.start i = some st)
    (hstarts : s'.starts = s.starts.set i { st with stage := stage })
    (hmachine : s'.machine = s.machine) (hpid : stage.pid = st.stage.pid)
    (hself : s.mayLive i { st with stage := stage } = true → s.mayLive i st = true)
    (hsweeps : s'.sweeps = s.sweeps) (hinterrupted : s'.interrupted = s.interrupted)
    (hnext : s'.control.nextRunId = s.control.nextRunId) : Calm s s' := by
  have halive : ∀ j pid, s'.processAlive j pid = true → s.processAlive j pid = true := by
    intro j pid h
    unfold processAlive at *
    rw [← hmachine]
    exact h
  refine calm_of_stage stage hst hstarts (fun j pid _ => halive j pid) ?_ ?_ ?_ hsweeps hinterrupted hnext
  · intro hlive
    exact hself (mayLive_mono (halive i) hlive)
  · intro pid h
    exact hpid.trans h
  · intro pid h
    exact .inr (hpid.symm.trans h)

/-- The process of a start, in a machine that has changed at one pid. -/
theorem processAlive_update {i : Nat} {pid k : Int} {p : Option Process}
    (hmachine : s'.machine = Function.update s.machine pid p)
    (h : s'.processAlive i k = true) :
    (k = pid ∧ p.any (fun p => p.spawnedBy == some i) = true) ∨ s.processAlive i k = true := by
  unfold processAlive at *
  rw [hmachine] at h
  by_cases hk : k = pid
  · subst hk
    rw [Function.update_self] at h
    exact .inl ⟨rfl, h⟩
  · rw [Function.update_of_ne hk] at h
    exact .inr h

/-- A step that only rewrites rows. -/
theorem calm_control (s : Recovery) {c : Control} (hnext : c.nextRunId = s.control.nextRunId) :
    Calm s { s with control := c } :=
  calm_of_starts rfl (fun _ _ hlive => hlive) rfl rfl hnext

/-- A process that no start has spawned comes or goes. -/
theorem calm_machine (s : Recovery) (pid : Int) {p : Option Process}
    (hp : ∀ i, p.any (fun p => p.spawnedBy == some i) = false) :
    Calm s { s with machine := Function.update s.machine pid p } := by
  refine calm_of_starts rfl ?_ rfl rfl rfl
  intro i k hlive
  rcases processAlive_update rfl hlive with ⟨-, howner⟩ | hold
  · rw [hp i] at howner
    cases howner
  · exact hold

theorem calm_spawn {i : Nat} {st : Start} {pid : Int} {process : Process}
    (hst : s.start i = some st) (h : s.stepStart i st (.spawn i pid process) = some s') : Calm s s' := by
  unfold stepStart at h
  dsimp only at h
  split at h
  · next hstage =>
    split_ifs at h with hfree
    cases h
    refine calm_of_stage (.spawned pid) hst rfl ?_ ?_ ?_ ?_ rfl rfl rfl
    · intro j k hne hlive
      rcases processAlive_update rfl hlive with ⟨-, howner⟩ | hold
      · have hij : i = j := by simpa using howner
        exact absurd hij.symm hne
      · exact hold
    · intro _
      simp [mayLive, hstage]
    · intro k hk
      rw [hstage] at hk
      cases hk
    · intro k hk
      cases hk
      exact .inl hfree.1
  · cases h

theorem calm_spawnFails {i : Nat} {st : Start} {dbFails : Bool} {now : Nat}
    (hst : s.start i = some st) (h : s.stepStart i st (.spawnFails i dbFails now) = some s') :
    Calm s s' := by
  unfold stepStart at h
  dsimp only at h
  split at h
  · next hstage =>
    cases h
    refine calm_of_samePid .failed hst rfl rfl ?_ ?_ rfl rfl ?_
    · rw [hstage]
      rfl
    · intro hlive
      cases hlive
    · dsimp only
      split_ifs
      · rfl
      · exact nextRunId_setRun _ _ fun _ => rfl
  · cases h

theorem calm_storePid {i : Nat} {st : Start} {dbFails : Bool} (hst : s.start i = some st)
    (h : s.stepStart i st (.storePid i dbFails) = some s') : Calm s s' := by
  unfold stepStart at h
  dsimp only at h
  split at h
  · next pid hstage =>
    cases h
    refine calm_of_samePid (.stored pid) hst rfl rfl ?_ ?_ rfl rfl ?_
    · rw [hstage]
      rfl
    · intro hlive
      have hold : s.processAlive i pid = true := hlive
      simp [mayLive, hstage, hold]
    · dsimp only
      split_ifs
      · rfl
      · exact nextRunId_setRun _ _ fun _ => rfl
  · cases h

theorem calm_register {i : Nat} {st : Start} (hst : s.start i = some st)
    (h : s.stepStart i st (.register i) = some s') : Calm s s' := by
  unfold stepStart at h
  dsimp only at h
  split at h
  · next pid hstage =>
    cases h
    refine calm_of_samePid (.registered pid) hst rfl rfl ?_ ?_ rfl rfl rfl
    · rw [hstage]
      rfl
    · intro hlive
      have hold : s.processAlive i pid = true := hlive
      simp [mayLive, hstage, hold]
  · cases h

theorem calm_release {i : Nat} {st : Start} (h : s.stepStart i st (.release i) = some s') :
    Calm s s' := by
  unfold stepStart at h
  dsimp only at h
  split at h
  · split_ifs at h
    cases h
    exact calm_of_starts rfl (fun _ _ hlive => hlive) rfl rfl rfl
  · cases h

theorem calm_create (s : Recovery) (issue : Option Text) (role : Text) (pr : Option Nat)
    (check : Option Text) (now : Nat)
    (h : s.step (.create issue role pr check now) = some s') : Calm s s' := by
  cases h
  have hcases : ∀ j st', (s.starts ++ [{
      runId := s.control.nextRunId, issue := issue.getD [], stage := .created }])[j]? = some st' →
      st' = { runId := s.control.nextRunId, issue := issue.getD [], stage := .created } ∨
        s.start j = some st' := by
    intro j st' hst'
    rw [List.getElem?_append] at hst'
    split_ifs at hst' with hj
    · exact .inr hst'
    · have hmem := List.mem_of_getElem? hst'
      exact .inl (List.mem_singleton.mp hmem)
  refine ⟨rfl, rfl, ?_, ?_, ?_⟩
  · show s.control.nextRunId ≤ (createTaskRun s.control issue role pr check now).2.nextRunId
    rw [nextRunId_createTaskRun]
    exact Nat.le_succ _
  · intro j st' pid hst' hpid
    rcases hcases j st' hst' with rfl | hold
    · cases hpid
    · exact .inr ⟨st', hold, hpid⟩
  · intro j st' hst' hlives
    rcases hcases j st' hst' with rfl | hold
    · exact .inl rfl
    · exact .inr ⟨st', hold, mayLive_mono (fun _ h => h) hlives, rfl, fun _ h => h⟩

/-! ## The steps of a sweep -/

/-- A step that only moves one sweep. -/
theorem safe_setSweep (j : Nat) (sweep : Sweep) (hinv : SafeInv s) (hsweep : s.SweepInv sweep) :
    SafeInv (s.setSweep j sweep) := by
  refine ⟨hinv.positive, ?_, hinv.interrupted⟩
  intro sweep' hmem
  rcases List.mem_or_eq_of_mem_set hmem with hold | rfl
  · exact hinv.sweeps sweep' hold
  · exact hsweep

theorem safe_sweepRead (hinv : SafeInv s) (hstored : s.PidsStored) (h : s.step .sweepRead = some s') :
    SafeInv s' := by
  cases h
  refine ⟨hinv.positive, ?_, hinv.interrupted⟩
  intro sweep hmem
  rcases List.mem_append.mp hmem with hold | hnew
  · exact hinv.sweeps sweep hold
  · rw [List.mem_singleton.mp hnew]
    intro run hrun
    obtain ⟨hrow, hopen⟩ := List.mem_filter.mp hrun
    refine ⟨lt_nextRunId_of_mem hrow, ?_⟩
    intro i st hst hlives hid
    exact hstored i st hst hlives run hrow hid (by simpa using hopen)

/-- The process of a live start is not taken for a recycled one, as long as it is not too young. -/
theorem isZombieProcess_of_alive {m : Machine} {pid : Int} {startedAt : Nat} {p : Process}
    (psutilFails : Bool) (hp : m pid = some p) (hpos : 0 < pid)
    (hage : p.createTime ≤ startedAt + recycleMargin) :
    isZombieProcess m psutilFails pid startedAt = true := by
  have hkill : isProcessAlive m.kill pid = true := by
    unfold isProcessAlive Machine.kill
    rw [if_neg (not_le.mpr hpos), hp]
    rfl
  unfold isZombieProcess
  cases psutilFails with
  | true => exact hkill
  | false =>
    rw [if_neg (by simp), hp]
    simpa using hage

/-- A run that may live is judged to be alive. -/
theorem judgeRun_alive (hinv : SafeInv s) {w : SweepOutside} {runs : List TaskRun}
    (hsettled : s.Settled w runs) {run : TaskRun} (hmem : run ∈ runs) (hread : s.ReadWithPid run)
    {i : Nat} {st : Start} (hst : s.start i = some st) (hlives : s.mayLive i st = true)
    (hid : run.id = st.runId) :
    judgeRun s.machine s.self w (managedRunIds w s.control) run = .alive := by
  obtain ⟨pid, hpid, hrow⟩ := hread.2 i st hst hlives hid
  have hpos : 0 < pid := hinv.positive i st pid hst hpid
  have halive : s.processAlive i pid = true := by
    unfold mayLive at hlives
    cases hstage : st.stage with
    | created =>
      rw [hstage] at hpid
      cases hpid
    | failed =>
      rw [hstage] at hpid
      cases hpid
    | spawned k | stored k | registered k =>
      rw [hstage] at hpid hlives
      cases hpid
      exact hlives
  obtain ⟨p, hp, -⟩ := (Option.any_eq_true _ _).mp halive
  obtain ⟨hage, hleft⟩ := hsettled i st hst hlives run hmem hid pid p hpid hp
  have hzombie := isZombieProcess_of_alive (w.psutilFails pid) hp hpos hage
  have hpidne : (pid != 0) = true := by
    have hne : pid ≠ 0 := ne_of_gt hpos
    simpa using hne
  unfold judgeRun
  rw [hrow]
  dsimp only
  rw [hpidne, hzombie]
  rcases hleft with hmanaged | hunloaded | hnotOrphan
  · simp [hmanaged]
  · simp [hunloaded]
  · simp [hnotOrphan]

theorem safe_sweepJudge (hinv : SafeInv s) {j : Nat} {w : SweepOutside}
    (hguard : ∀ runs, s.sweep j = some (.read runs) → s.Settled w runs) {sweep : Sweep}
    (hsweep : s.sweep j = some sweep) (h : s.stepSweep j sweep (.sweepJudge j w) = some s') :
    SafeInv s' := by
  unfold stepSweep at h
  dsimp only at h
  split at h
  · next runs =>
    cases h
    have hruns := hinv.sweeps _ (List.mem_of_getElem? hsweep)
    refine safe_setSweep j _ hinv ?_
    intro rec hrec
    obtain ⟨run, hrun, rfl⟩ := List.mem_map.mp hrec
    obtain ⟨hmem, hdead⟩ := List.mem_filter.mp hrun
    have hid : (deadRun w run).runId = run.id := by
      unfold deadRun
      split <;> rfl
    have hread : s.ReadWithPid run := hruns run hmem
    rw [hid]
    refine ⟨hread.1, ?_⟩
    intro i st hst hlives heq
    have halive := judgeRun_alive hinv (hguard runs hsweep) hmem hread hst hlives heq
    rw [halive] at hdead
    cases hdead
  · cases h

theorem safe_sweepMerge (hinv : SafeInv s) {j : Nat} {timedOut : Bool} {answer : Nat → MergeCheck}
    {sweep : Sweep} (hsweep : s.sweep j = some sweep)
    (h : s.stepSweep j sweep (.sweepMerge j timedOut answer) = some s') : SafeInv s' := by
  unfold stepSweep at h
  dsimp only at h
  split at h
  · next dead signalled =>
    cases h
    have hdead : ∀ rec ∈ dead, s.Spares rec.runId := hinv.sweeps _ (List.mem_of_getElem? hsweep)
    refine safe_setSweep j _ hinv ?_
    intro rec hrec
    split_ifs at hrec
    · exact hdead rec hrec
    · obtain ⟨rec₀, hrec₀, rfl⟩ := List.mem_map.mp hrec
      have hid : (applyMergeCheck answer rec₀).runId = rec₀.runId := by
        unfold applyMergeCheck
        dsimp only
        split_ifs
        · split <;> rfl
        · rfl
      rw [hid]
      exact hdead rec₀ hrec₀
  · cases h

theorem recoverRun_id (now : Nat) (rec : DeadRun) (run : TaskRun) : (recoverRun now rec run).id = run.id := by
  unfold recoverRun
  split_ifs <;> rfl

theorem writeDeadRun_spec (now : Nat) (acc : Control × List Nat) (rec : DeadRun) :
    (writeDeadRun now acc rec).1.nextRunId = acc.1.nextRunId ∧
      ∀ id ∈ (writeDeadRun now acc rec).2, id ∈ acc.2 ∨ rec.runId = id := by
  unfold writeDeadRun
  split
  · exact ⟨rfl, fun id hid => .inl hid⟩
  · split_ifs
    · exact ⟨rfl, fun id hid => .inl hid⟩
    · refine ⟨nextRunId_setRun _ _ (recoverRun_id now rec), fun id hid => ?_⟩
      exact (List.mem_append.mp hid).imp_right fun h => (List.mem_singleton.mp h).symm
    · exact ⟨nextRunId_setRun _ _ (recoverRun_id now rec), fun id hid => .inl hid⟩

/-- The write keeps the ids of the rows, and interrupts only runs that were taken for dead. -/
theorem writeDeadRuns_spec (now : Nat) (c : Control) (dead : List DeadRun) :
    (writeDeadRuns now c dead).1.nextRunId = c.nextRunId ∧
      ∀ id ∈ (writeDeadRuns now c dead).2, ∃ rec ∈ dead, rec.runId = id := by
  have hfold : ∀ (dead : List DeadRun) (acc : Control × List Nat),
      (dead.foldl (writeDeadRun now) acc).1.nextRunId = acc.1.nextRunId ∧
        ∀ id ∈ (dead.foldl (writeDeadRun now) acc).2, id ∈ acc.2 ∨ ∃ rec ∈ dead, rec.runId = id := by
    intro dead
    induction dead with
    | nil => exact fun acc => ⟨rfl, fun id hid => .inl hid⟩
    | cons rec dead ih =>
      intro acc
      have hone := writeDeadRun_spec now acc rec
      obtain ⟨hnext, hids⟩ := ih (writeDeadRun now acc rec)
      refine ⟨hnext.trans hone.1, ?_⟩
      intro id hid
      rcases hids id hid with hacc | ⟨rec', hrec', hid'⟩
      · exact (hone.2 id hacc).imp_right fun h => ⟨rec, List.mem_cons_self .., h⟩
      · exact .inr ⟨rec', List.mem_cons_of_mem rec hrec', hid'⟩
  obtain ⟨hnext, hids⟩ := hfold dead (c, [])
  refine ⟨hnext, ?_⟩
  intro id hid
  rcases hids id hid with hnil | hrec
  · cases hnil
  · exact hrec

theorem safe_sweepWrite (hinv : SafeInv s) {j now : Nat} {sweep : Sweep}
    (hsweep : s.sweep j = some sweep) (h : s.stepSweep j sweep (.sweepWrite j now) = some s') :
    SafeInv s' := by
  unfold stepSweep at h
  dsimp only at h
  split at h
  · next dead =>
    cases h
    obtain ⟨hnext, hids⟩ := writeDeadRuns_spec now s.control dead
    have hdead : ∀ rec ∈ dead, s.Spares rec.runId := hinv.sweeps _ (List.mem_of_getElem? hsweep)
    -- first the rows, then the interrupted runs and the end of the sweep
    have hcalm : Calm s { s with control := (writeDeadRuns now s.control dead).1 } :=
      calm_control s hnext
    have hended := safe_setSweep j .ended (hcalm.safe hinv) trivial
    refine ⟨hended.positive, hended.sweeps, ?_⟩
    intro id hid
    rcases List.mem_append.mp hid with hold | hnew
    · exact hended.interrupted id hold
    · obtain ⟨rec, hrec, rfl⟩ := hids id hnew
      exact hcalm.spares (hdead rec hrec)
  · cases h

/-! ## Whole runs -/

theorem safe_step (s : Recovery) (a : RecoveryAction) (s' : Recovery) (hinv : SafeInv s)
    (hguard : s.Undisturbed a) (h : s.step a = some s') : SafeInv s' := by
  cases a with
  | create issue role pr check now => exact (calm_create s issue role pr check now h).safe hinv
  | spawn i pid process =>
    obtain ⟨st, hst, hstep⟩ := Option.bind_eq_some_iff.mp h
    exact (calm_spawn hst hstep).safe hinv
  | spawnFails i dbFails now =>
    obtain ⟨st, hst, hstep⟩ := Option.bind_eq_some_iff.mp h
    exact (calm_spawnFails hst hstep).safe hinv
  | storePid i dbFails =>
    obtain ⟨st, hst, hstep⟩ := Option.bind_eq_some_iff.mp h
    exact (calm_storePid hst hstep).safe hinv
  | register i =>
    obtain ⟨st, hst, hstep⟩ := Option.bind_eq_some_iff.mp h
    exact (calm_register hst hstep).safe hinv
  | release i =>
    obtain ⟨st, hst, hstep⟩ := Option.bind_eq_some_iff.mp h
    exact (calm_release hstep).safe hinv
  | appear pid process =>
    unfold step at h
    dsimp only at h
    split_ifs at h
    cases h
    exact (calm_machine s pid fun _ => rfl).safe hinv
  | exit pid =>
    cases h
    exact (calm_machine s pid fun _ => rfl).safe hinv
  | checkConflict dbFails issue force now =>
    cases h
    exact (calm_control s (nextRunId_checkIssueConflict ..)).safe hinv
  | write runId status =>
    cases h
    have hnext : (s.control.setRun runId fun r => { r with status := status }).nextRunId =
        s.control.nextRunId := nextRunId_setRun _ _ fun _ => rfl
    exact (calm_control s hnext).safe hinv
  | sweepRead => exact safe_sweepRead hinv hguard h
  | sweepJudge j w =>
    obtain ⟨sweep, hsweep, hstep⟩ := Option.bind_eq_some_iff.mp h
    exact safe_sweepJudge hinv hguard hsweep hstep
  | sweepMerge j timedOut answer =>
    obtain ⟨sweep, hsweep, hstep⟩ := Option.bind_eq_some_iff.mp h
    exact safe_sweepMerge hinv hsweep hstep
  | sweepWrite j now =>
    obtain ⟨sweep, hsweep, hstep⟩ := Option.bind_eq_some_iff.mp h
    exact safe_sweepWrite hinv hsweep hstep
  | sweepFails j =>
    obtain ⟨sweep, hsweep, hstep⟩ := Option.bind_eq_some_iff.mp h
    cases hstep
    exact safe_setSweep j .ended hinv trivial

/-- A dashboard before its starts and sweeps, over any rows, pool and processes. -/
def initial (c : Control) (m : Machine) (self : Int) : Recovery :=
  { control := c, machine := m, self := self }

theorem safeInv_initial (c : Control) (m : Machine) (self : Int) : SafeInv (initial c m self) := by
  refine ⟨?_, fun _ h => (List.not_mem_nil h).elim, fun _ h => (List.not_mem_nil h).elim⟩
  intro i st pid hst
  cases hst

/-- In every run in which no sweep reads the runs while a start has its row and not yet its pid, or
judges a run that is started and not yet settled: a run whose start has succeeded and whose process is
alive was not marked by any sweep. -/
theorem sweeps_spare_started (c : Control) (m : Machine) (self : Int) (actions : List RecoveryAction)
    (t : Recovery) (hmeets : Runs.Meets step Undisturbed (initial c m self) actions)
    (h : Runs.exec step (initial c m self) actions = some t) (i : Nat) (st : Start) (pid : Int)
    (hst : t.start i = some st) (hstage : st.stage = .registered pid)
    (halive : t.processAlive i pid = true) : st.runId ∉ t.interrupted := by
  have hinv : SafeInv t := Runs.invariant_of_guard safe_step (safeInv_initial c m self) hmeets h
  intro hmem
  have hlives : t.mayLive i st = true := by
    unfold mayLive
    rw [hstage]
    exact halive
  exact (hinv.interrupted st.runId hmem).2 i st hst hlives rfl

/-- An agent of the dashboard with the pid 50. -/
def agentProcess : Process :=
  { createTime := 1000001
    agentMarker := some "1".toList
    ppid := 50 }

/-- A run of an earlier dashboard, whose process is gone. -/
def staleControl : Control :=
  { runs := [{ id := 1, issueNumber := some ['9'], status := .developing, pid := some 77, startedAt := 5 }] }

/-- An agent is started, and a sweep follows. -/
def sweepAfterStart : List RecoveryAction :=
  [.create (some ['1', '2']) "developer".toList none none 1000000, .spawn 0 4242 agentProcess,
   .storePid 0 false, .register 0, .sweepRead, .sweepJudge 0 {},
   .sweepMerge 0 false fun _ => .unknown, .sweepWrite 0 9000000]

theorem sweepAfterStart_undisturbed :
    Runs.Meets step Undisturbed (initial staleControl (fun _ => none) 50) sweepAfterStart := by
  refine ⟨trivial, ?_⟩
  rintro _ ⟨⟩
  refine ⟨trivial, ?_⟩
  rintro _ ⟨⟩
  refine ⟨trivial, ?_⟩
  rintro _ ⟨⟩
  refine ⟨trivial, ?_⟩
  rintro _ ⟨⟩
  refine ⟨?_, ?_⟩
  · rintro (_ | i) st hst _ run hrun hid _
    · cases hst
      rcases List.mem_cons.mp hrun with rfl | hrun
      · cases hid
      · rw [List.mem_singleton.mp hrun]
        exact ⟨4242, rfl, rfl⟩
    · cases hst
  rintro _ ⟨⟩
  refine ⟨?_, ?_⟩
  · rintro runs hruns (_ | i) st hst _ run hrun hid pid p hpid hp
    · cases hruns
      cases hst
      cases hpid
      cases hp
      rcases List.mem_cons.mp hrun with rfl | hrun
      · cases hid
      · rw [List.mem_singleton.mp hrun]
        exact ⟨by decide, .inl (List.mem_cons_self ..)⟩
    · cases hst
  rintro _ ⟨⟩
  refine ⟨trivial, ?_⟩
  rintro _ ⟨⟩
  exact ⟨trivial, fun _ _ => trivial⟩

/-- The stale run is marked, the started one is not. -/
theorem sweeps_spare_started_after :
    ∃ t, Runs.exec step (initial staleControl (fun _ => none) 50) sweepAfterStart = some t ∧
      t.interrupted = [1] ∧ t.start 0 = some ⟨2, ['1', '2'], .registered 4242⟩ ∧ 2 ∉ t.interrupted := by
  have hrun : Runs.exec step (initial staleControl (fun _ => none) 50) sweepAfterStart = some _ := rfl
  exact ⟨_, hrun, rfl, rfl, sweeps_spare_started staleControl (fun _ => none) 50 sweepAfterStart _
    sweepAfterStart_undisturbed hrun 0 ⟨2, ['1', '2'], .registered 4242⟩ 4242 rfl rfl rfl⟩

/-- A sweep reads the runs while a start has its row and not yet its pid. -/
def sweepDuringStart : List RecoveryAction :=
  [.create (some ['1', '2']) "developer".toList none none 1000000, .sweepRead,
   .spawn 0 4242 agentProcess, .storePid 0 false, .register 0, .sweepJudge 0 {},
   .sweepMerge 0 false fun _ => .unknown, .sweepWrite 0 9000000]

/-- The start succeeds, its process is alive and its agent is in the pool, and the sweep has marked the
run as interrupted. -/
theorem sweep_interrupts_starting :
    ∃ t, Runs.exec step (initial {} (fun _ => none) 50) sweepDuringStart = some t ∧
      t.start 0 = some ⟨1, ['1', '2'], .registered 4242⟩ ∧ t.processAlive 0 4242 = true ∧
      1 ∈ t.control.managedIds ∧ 1 ∈ t.interrupted ∧
      (t.control.run 1).map TaskRun.status = some .interrupted := by
  have hrun : Runs.exec step (initial {} (fun _ => none) 50) sweepDuringStart = some _ := rfl
  exact ⟨_, hrun, rfl, rfl, List.mem_cons_self .., List.mem_cons_self .., rfl⟩

end Recovery

end Dashboard

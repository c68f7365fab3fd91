import SovaVerified.Runs.Runs
import SovaVerified.Dashboard.SelfHeal
import SovaVerified.Dashboard.Proofs.StartAgentProofs

/-!
# How often an issue is resumed

A tick resumes the newest run of an issue only, and a resume becomes the newest run. So a second automatic
resume has to continue the first one, and what stops it is the column that says that the first one is a
resume. The process of the first one writes it; a process that dies of the outage before that is resumed like
an original run.
-/

namespace Dashboard

/-! ## The rows that a start leaves -/

/-- What a write of a row never changes. -/
def rowKey (r : TaskRun) : Nat × Option Text := (r.id, r.issueNumber)

def Control.keys (c : Control) : List (Nat × Option Text) := c.runs.map rowKey

theorem keys_setRun (c : Control) (id : Nat) {f : TaskRun → TaskRun} (hf : ∀ r, rowKey (f r) = rowKey r) :
    (c.setRun id f).keys = c.keys :=
  Tables.map_updateWhere c.runs hf

theorem nextRunId_of_keys {c c' : Control} (h : c'.keys = c.keys) : c'.nextRunId = c.nextRunId := by
  have hids (c : Control) : c.runs.map TaskRun.id = c.keys.map Prod.fst := by
    simp [Control.keys, rowKey, Function.comp_def]
  unfold Control.nextRunId
  rw [hids, hids, h]

theorem key_lt_nextRunId {c : Control} {k : Nat × Option Text} (h : k ∈ c.keys) : k.1 < c.nextRunId := by
  obtain ⟨r, hr, rfl⟩ := List.mem_map.mp h
  have hle := Tables.le_foldl_max_of_mem (n := 0) (List.mem_map_of_mem (f := TaskRun.id) hr)
  unfold Control.nextRunId rowKey
  dsimp only
  omega

theorem checkIssueConflict_keys (kill : Int → Signalled) (dbFails force : Bool) (now : Nat) (issue : Text)
    (c : Control) : (checkIssueConflict kill dbFails now issue force c).2.keys = c.keys := by
  unfold checkIssueConflict
  split
  · rfl
  · split
    · rfl
    · exact Tables.map_updateWhere c.runs fun _ => rfl

theorem admitStart_keys (o : StartOutside) (req : StartRequest) (c : Control) :
    (admitStart o req c).2.keys = c.keys := by
  unfold admitStart checkIssue
  split
  · rfl
  · split
    · rfl
    · have hkeys := checkIssueConflict_keys o.kill o.conflictFails req.force o.now req.issue c
      split
      · next heq => rwa [heq] at hkeys
      · next heq => rwa [heq] at hkeys

/-- The number of the issue in the row of a start. -/
def rowIssue (req : StartRequest) : Option Text :=
  if req.issue.isEmpty then none else some (normalizeIssueNumber req.issue)

theorem createStart_keys (o : StartOutside) (req : StartRequest) (c : Control) :
    (createStart o req c).2.keys = c.keys ++ [(c.nextRunId, rowIssue req)] := by
  unfold createStart createTaskRun rowIssue Control.keys
  simp only [List.map_append, List.map_singleton, rowKey]
  split <;> rfl

theorem spawnStart_keys (o : StartOutside) (req : StartRequest) (runId : Nat) (c : Control) :
    (spawnStart o req runId c).2.keys = c.keys := by
  unfold spawnStart
  split
  · dsimp only
    split
    · rfl
    · exact keys_setRun c runId fun _ => rfl
  · dsimp only
    split
    · rfl
    · exact keys_setRun c runId fun _ => rfl

theorem spawnStart_started {o : StartOutside} {req : StartRequest} {runId id : Nat} {pid : Int} {c : Control}
    (h : (spawnStart o req runId c).1 = .started pid id) : id = runId := by
  unfold spawnStart at h
  split at h
  · cases h
  · cases h
    rfl

/-- A start adds no row, or one for its issue; an agent that is started has that row. -/
structure AddsRow (c : Control) (issue : Option Text) (out : StartResult × Control) : Prop where
  keys : out.2.keys = c.keys ∨ out.2.keys = c.keys ++ [(c.nextRunId, issue)]
  started : ∀ pid runId, out.1 = .started pid runId →
    runId = c.nextRunId ∧ out.2.keys = c.keys ++ [(c.nextRunId, issue)]

theorem AddsRow.nothing {c c' : Control} (hkeys : c'.keys = c.keys) (issue : Option Text)
    {result : StartResult} (hresult : ∀ pid runId, result ≠ .started pid runId) :
    AddsRow c issue (result, c') :=
  ⟨.inl hkeys, fun pid runId h => absurd h (hresult pid runId)⟩

theorem placeStart_not_started {o : StartOutside} {req : StartRequest} {result : StartResult}
    (h : placeStart o req = some result) : ∀ pid runId, result ≠ .started pid runId := by
  intro pid runId
  rintro rfl
  unfold placeStart at h
  split at h
  · cases h
  · split at h
    · cases h
    · split at h
      · cases h
      · obtain ⟨e, -, he⟩ := Option.map_eq_some_iff.mp h
        cases he

theorem launchStart_addsRow (o : StartOutside) (req : StartRequest) (c : Control) :
    AddsRow c (rowIssue req) (launchStart o req c) := by
  have hcreated := createStart_keys o req c
  unfold launchStart
  split
  · next result hplace => exact .nothing rfl _ (placeStart_not_started hplace)
  · split
    · exact .nothing rfl _ (fun _ _ h => nomatch h)
    · dsimp only
      split
      · exact ⟨.inr hcreated, fun _ _ h => nomatch h⟩
      · have hkeys : (spawnStart o req (createStart o req c).1 (createStart o req c).2).2.keys =
            c.keys ++ [(c.nextRunId, rowIssue req)] := (spawnStart_keys ..).trans hcreated
        exact ⟨.inr hkeys, fun pid runId h => ⟨spawnStart_started h, hkeys⟩⟩

theorem AddsRow.of_keys {c c' : Control} {issue : Option Text} {out : StartResult × Control}
    (h : AddsRow c' issue out) (hkeys : c'.keys = c.keys) : AddsRow c issue out := by
  have hnext := nextRunId_of_keys hkeys
  obtain ⟨hrows, hstarted⟩ := h
  rw [hkeys, hnext] at hrows
  refine ⟨hrows, fun pid runId hres => ?_⟩
  have := hstarted pid runId hres
  rwa [hkeys, hnext] at this

/-- The preparation completes a request, but it keeps the issue. -/
theorem prepareStart_issue {o : StartOutside} {req req' : StartRequest} {c : Control}
    (h : prepareStart o req c = .ok req') : req'.issue = (resolveIssue o req).issue := by
  have hinherit (r : StartRequest) : (inheritSuitability o r c).issue = r.issue := by
    unfold inheritSuitability
    split
    · split
      · rfl
      · split <;> rfl
    · rfl
  have hpin {r r' : StartRequest} (hr : pinRole o r = .ok r') : r'.issue = r.issue := by
    unfold pinRole at hr
    split at hr
    · split at hr
      · exact congrArg StartRequest.issue (Except.ok.inj hr).symm
      · split at hr
        · rw [← Except.ok.inj hr]
        · cases hr
    · exact congrArg StartRequest.issue (Except.ok.inj hr).symm
  have hpr (r : StartRequest) : (resolvePr o r).issue = r.issue := by
    unfold resolvePr
    split
    · rfl
    · split <;> rfl
  unfold prepareStart at h
  split at h
  · cases h
  · split at h
    · cases h
    · next r hr =>
      dsimp only at h
      split at h
      · cases h
      · rw [← Except.ok.inj h, hpr, hpin hr, hinherit]

/-- A start for an issue whose number is normalised adds a row for that issue. -/
theorem startAgent_addsRow (o : StartOutside) {req : StartRequest} (c : Control) {issue : Text}
    (hissue : req.issue = issue) (hplain : normalizeIssueNumber issue = issue) (hne : issue ≠ []) :
    AddsRow c (some issue) (startAgent o req c) := by
  have hempty : issue.isEmpty = false := by simpa using hne
  have hresolved : (resolveIssue o req).issue = issue := by
    unfold resolveIssue
    rw [hissue, hplain]
    simp [hempty]
  unfold startAgent
  split
  · exact .nothing rfl _ (fun _ _ h => nomatch h)
  · split
    · exact .nothing rfl _ (fun _ _ h => nomatch h)
    · next req' hprepare =>
      have hreq : rowIssue req' = some issue := by
        unfold rowIssue
        rw [prepareStart_issue hprepare, hresolved, hempty, hplain]
        rfl
      have hkeys := admitStart_keys o req' c
      split
      · next e c' hadmission =>
        rw [hadmission] at hkeys
        exact .nothing hkeys _ (fun _ _ h => nomatch h)
      · next c' hadmission =>
        rw [hadmission] at hkeys
        have hlaunch := launchStart_addsRow o req' c'
        rw [hreq] at hlaunch
        exact hlaunch.of_keys hkeys

/-! ## The candidates -/

theorem mem_scanSelected {t : HealTable} {seen : List Text} {runs : List TaskRun} {run : TaskRun}
    (h : run ∈ scanSelected t seen runs) :
    run ∈ runs ∧ run.issueNumber.getD [] ≠ [] ∧ isHealable t run = true := by
  induction runs generalizing seen with
  | nil => cases h
  | cons r runs ih =>
    unfold scanSelected at h
    dsimp only at h
    split at h
    · obtain ⟨hmem, hrest⟩ := ih h
      exact ⟨List.mem_cons_of_mem _ hmem, hrest⟩
    · next hnew =>
      split at h
      · next hheal =>
        rcases List.mem_cons.mp h with rfl | h
        · refine ⟨List.mem_cons_self, ?_, hheal⟩
          intro hempty
          exact hnew (by simp [hempty])
        · obtain ⟨hmem, hrest⟩ := ih h
          exact ⟨List.mem_cons_of_mem _ hmem, hrest⟩
      · obtain ⟨hmem, hrest⟩ := ih h
        exact ⟨List.mem_cons_of_mem _ hmem, hrest⟩

/-- What is known of the run that a tick decides to resume. -/
theorem chooseCandidate_spec {tick : HealTick} {t : HealTable} {run : TaskRun}
    (h : chooseCandidate tick t = some run) :
    run ∈ t.control.runs ∧ isSelected tick t run = true ∧ run.issueNumber.getD [] ≠ [] ∧
      isHealable t run = true := by
  have hhead : run ∈ findSelfHealCandidates tick t := by
    unfold chooseCandidate at h
    split_ifs at h
    exact List.mem_of_head? h
  unfold findSelfHealCandidates at hhead
  dsimp only at hhead
  rw [List.mem_insertionSort] at hhead
  obtain ⟨hmem, hissue, hheal⟩ := mem_scanSelected hhead
  rw [List.mem_insertionSort, List.mem_filter] at hmem
  exact ⟨hmem.1, hmem.2, hissue, hheal⟩

/-! ## The bound -/

/-- The automatic resumes of an issue. -/
def HealSystem.resumesOf (s : HealSystem) (issue : Text) : Nat :=
  s.resumes.countP fun r => r.issue == issue

/-- Nobody else starts a run of the issue. -/
def startsOther (issue : Text) : HealAction → Prop
  | .insert row _ => row.issueNumber ≠ some issue
  | _ => True

/-- Every automatic resume of the issue that died of the outage is recorded as a resume when a tick reads the
table, and a resume goes to an issue whose number is normalised. -/
def resumesRecorded (issue : Text) (s : HealSystem) : HealAction → Bool
  | .choose tick => s.table.control.runs.all fun run =>
      !(s.resumes.any fun r => r.runId == run.id && r.issue == issue) || !isSelected tick s.table run ||
        !looksLikeNetworkOutage run.errorMessage || (s.table.columnsOf run.id).resumedFromId.isSome
  | .resume _ => s.pending.all fun run =>
      normalizeIssueNumber (run.issueNumber.getD []) == run.issueNumber.getD []
  | _ => true

/-- The invariant: an automatic resume of the issue is its newest run, and the running tick has a candidate of
the issue only before the first one. -/
structure HealInv (issue : Text) (s : HealSystem) : Prop where
  bound : s.resumesOf issue ≤ 1
  present : ∀ r ∈ s.resumes, r.issue = issue → (r.runId, some issue) ∈ s.table.control.keys
  newest : ∀ r ∈ s.resumes, r.issue = issue → ∀ k ∈ s.table.control.keys, k.2 = some issue → k.1 ≤ r.runId
  named : ∀ run, s.pending = some run → run.issueNumber.getD [] ≠ []
  first : ∀ run, s.pending = some run → run.issueNumber = some issue → s.resumesOf issue = 0

theorem mem_resumes_of_pos {s : HealSystem} {issue : Text} (h : s.resumesOf issue ≠ 0) :
    ∃ r ∈ s.resumes, r.issue = issue := by
  have hpos := List.countP_pos_iff.mp (Nat.pos_of_ne_zero h)
  simpa using hpos

/-- After an automatic resume of the issue, a tick finds no candidate of it. -/
theorem choose_first {issue : Text} {s : HealSystem} (h : HealInv issue s) {tick : HealTick}
    (hrecorded : resumesRecorded issue s (.choose tick) = true) {run : TaskRun}
    (hchoose : chooseCandidate tick s.table = some run) (hissue : run.issueNumber = some issue) :
    s.resumesOf issue = 0 := by
  by_contra hsome
  obtain ⟨r, hr, hrissue⟩ := mem_resumes_of_pos hsome
  obtain ⟨hmem, hselected, -, hheal⟩ := chooseCandidate_spec hchoose
  unfold isHealable at hheal
  simp only [Bool.and_eq_true, Bool.not_eq_true'] at hheal
  obtain ⟨⟨⟨houtage, hnone⟩, hnewer⟩, -⟩ := hheal
  -- the candidate and the resume are both the newest run of the issue
  have hkey : (run.id, some issue) ∈ s.table.control.keys := by
    rw [← hissue]
    exact List.mem_map_of_mem (f := rowKey) hmem
  have hle : run.id ≤ r.runId := h.newest r hr hrissue _ hkey rfl
  have hge : r.runId ≤ run.id := by
    obtain ⟨row, hrow, hrowKey⟩ := List.mem_map.mp (h.present r hr hrissue)
    have hid : row.id = r.runId := congrArg Prod.fst hrowKey
    have hrowIssue : row.issueNumber = some issue := congrArg Prod.snd hrowKey
    by_contra hlt
    have : hasNewerLiveRun s.table run = true := by
      refine List.any_eq_true.mpr ⟨row, hrow, ?_⟩
      simp only [hrowIssue, hissue, beq_self_eq_true, Bool.true_and, decide_eq_true_eq]
      omega
    rw [this] at hnewer
    cases hnewer
  have hid : r.runId = run.id := Nat.le_antisymm hge hle
  have hall := List.all_eq_true.mp hrecorded run hmem
  have hchild : (s.resumes.any fun r => r.runId == run.id && r.issue == issue) = true :=
    List.any_eq_true.mpr ⟨r, hr, by simp [hid, hrissue]⟩
  rw [hchild, hselected, houtage] at hall
  simp only [Bool.not_true, Bool.false_or] at hall
  rw [Option.isNone_iff_eq_none] at hnone
  rw [hnone] at hall
  cases hall

/-- A write that keeps the ids and the issues keeps the invariant. -/
theorem HealInv.of_keys {issue : Text} {s : HealSystem} (h : HealInv issue s) {table : HealTable}
    (hkeys : table.control.keys = s.table.control.keys) : HealInv issue { s with table := table } := by
  refine ⟨h.bound, ?_, ?_, h.named, h.first⟩
  · intro r hr hissue
    show _ ∈ table.control.keys
    rw [hkeys]
    exact h.present r hr hissue
  · intro r hr hissue k hk
    exact h.newest r hr hissue k (hkeys ▸ hk)

/-- A new row of another issue keeps the invariant. -/
theorem HealInv.of_other {issue : Text} {s : HealSystem} (h : HealInv issue s) {table : HealTable}
    {key : Nat × Option Text} (hkeys : table.control.keys = s.table.control.keys ++ [key])
    (hother : key.2 ≠ some issue) : HealInv issue { s with table := table } := by
  refine ⟨h.bound, ?_, ?_, h.named, h.first⟩
  · intro r hr hissue
    show _ ∈ table.control.keys
    rw [hkeys]
    exact List.mem_append_left _ (h.present r hr hissue)
  · intro r hr hissue k hk hkissue
    have hk' : k ∈ s.table.control.keys ++ [key] := hkeys ▸ hk
    rcases List.mem_append.mp hk' with hk' | hk'
    · exact h.newest r hr hissue k hk' hkissue
    · rw [List.mem_singleton.mp hk'] at hkissue
      exact absurd hkissue hother

/-- The running tick is over. -/
theorem HealInv.settle {issue : Text} {s : HealSystem} (h : HealInv issue s) :
    HealInv issue { s with pending := none } :=
  ⟨h.bound, h.present, h.newest, fun _ hp => (nomatch hp), fun _ hp => (nomatch hp)⟩

/-- A resume that is started for another issue does not count. -/
theorem HealInv.note_other {issue : Text} {s : HealSystem} (h : HealInv issue s) {r : AutoResume}
    (hother : r.issue ≠ issue) : HealInv issue { s with resumes := r :: s.resumes } := by
  have hcount : HealSystem.resumesOf { s with resumes := r :: s.resumes } issue = s.resumesOf issue := by
    simp [HealSystem.resumesOf, hother]
  have hold : ∀ r' ∈ r :: s.resumes, r'.issue = issue → r' ∈ s.resumes := by
    intro r' hr' hissue
    rcases List.mem_cons.mp hr' with rfl | hr'
    · exact absurd hissue hother
    · exact hr'
  refine ⟨hcount ▸ h.bound, ?_, ?_, h.named, fun run hp hissue => hcount.trans (h.first run hp hissue)⟩
  · intro r' hr' hissue
    exact h.present r' (hold r' hr' hissue) hissue
  · intro r' hr' hissue
    exact h.newest r' (hold r' hr' hissue) hissue

/-- A resume of the issue that is started is its newest run, and it is the first one. -/
theorem healInv_started {issue : Text} {s : HealSystem} (hzero : s.resumesOf issue = 0) {table : HealTable}
    (hkeys : table.control.keys = s.table.control.keys ++ [(s.table.control.nextRunId, some issue)]) :
    HealInv issue
      { table := table
        pending := none
        resumes := { runId := s.table.control.nextRunId, issue := issue } :: s.resumes } := by
  have honly : ∀ r ∈ ({ runId := s.table.control.nextRunId, issue := issue } : AutoResume) :: s.resumes,
      r.issue = issue → r.runId = s.table.control.nextRunId := by
    intro r hr hissue
    rcases List.mem_cons.mp hr with rfl | hr
    · rfl
    · have hnone := List.countP_eq_zero.mp hzero r hr
      simp [hissue] at hnone
  refine ⟨?_, ?_, ?_, fun _ hp => (nomatch hp), fun _ hp => (nomatch hp)⟩
  · have hcount : s.resumes.countP (fun r => r.issue == issue) = 0 := hzero
    simp [HealSystem.resumesOf, hcount]
  · intro r hr hissue
    show _ ∈ table.control.keys
    rw [honly r hr hissue, hkeys]
    exact List.mem_append_right _ List.mem_cons_self
  · intro r hr hissue k hk _
    rw [honly r hr hissue]
    have hk' : k ∈ s.table.control.keys ++ [(s.table.control.nextRunId, some issue)] := hkeys ▸ hk
    rcases List.mem_append.mp hk' with hk' | hk'
    · exact Nat.le_of_lt (key_lt_nextRunId hk')
    · rw [List.mem_singleton.mp hk']

theorem healInv_resume {issue : Text} {s s' : HealSystem} (h : HealInv issue s) {o : StartOutside}
    (hrecorded : resumesRecorded issue s (.resume o) = true) (hstep : s.step (.resume o) = some s') :
    HealInv issue s' := by
  dsimp only [HealSystem.step] at hstep
  cases hpending : s.pending with
  | none =>
    rw [hpending] at hstep
    cases hstep
  | some run =>
    rw [hpending] at hstep
    dsimp only at hstep
    have hname := h.named run hpending
    have hplain : normalizeIssueNumber (run.issueNumber.getD []) = run.issueNumber.getD [] := by
      simpa [resumesRecorded, hpending] using hrecorded
    have hadds : AddsRow s.table.control (some (run.issueNumber.getD []))
        (startAgent o (healRequest run) s.table.control) :=
      startAgent_addsRow o s.table.control rfl hplain hname
    generalize hout : startAgent o (healRequest run) s.table.control = out at hadds
    have hresumed : resumeOne o run s.table =
        (out.1, { control := out.2, columns := s.table.columns.put s.table.control.nextRunId {} }) := by
      unfold resumeOne
      rw [hout]
    rw [hresumed] at hstep
    dsimp only at hstep
    by_cases hissue : run.issueNumber = some issue
    · -- the first resume of the issue
      have hzero := h.first run hpending hissue
      have hget : run.issueNumber.getD [] = issue := by rw [hissue]; rfl
      rw [hget] at hadds hstep
      split at hstep
      · next pid runId hstarted =>
        obtain ⟨rfl, hkeys⟩ := hadds.started pid runId hstarted
        cases hstep
        exact healInv_started hzero hkeys
      · cases hstep
        have hnone : ∀ r ∈ s.resumes, r.issue ≠ issue := by
          intro r hr hri
          have := List.countP_eq_zero.mp hzero r hr
          simp [hri] at this
        exact ⟨h.bound, fun r hr hri => absurd hri (hnone r hr), fun r hr hri => absurd hri (hnone r hr),
          fun _ hp => (nomatch hp), fun _ hp => (nomatch hp)⟩
    · -- a resume of another issue
      have hother : run.issueNumber.getD [] ≠ issue := by
        intro heq
        cases hnum : run.issueNumber with
        | none => exact hname (by rw [hnum]; rfl)
        | some n =>
          rw [hnum] at heq
          exact hissue (by rw [hnum, ← heq]; rfl)
      have htable : HealInv issue { s with table :=
          { control := out.2, columns := s.table.columns.put s.table.control.nextRunId {} } } := by
        rcases hadds.keys with hkeys | hkeys
        · exact h.of_keys hkeys
        · exact h.of_other hkeys (fun heq => hother (Option.some.inj heq))
      split at hstep
      · cases hstep
        exact (htable.note_other hother).settle
      · cases hstep
        exact htable.settle

theorem healInv_step {issue : Text} {s s' : HealSystem} {act : HealAction} (h : HealInv issue s)
    (hrecorded : resumesRecorded issue s act = true) (hother : startsOther issue act)
    (hstep : s.step act = some s') : HealInv issue s' := by
  cases act with
  | choose tick =>
    dsimp only [HealSystem.step] at hstep
    split at hstep
    · cases hstep
    · cases hstep
      refine ⟨h.bound, h.present, h.newest, fun run hp => ?_, fun run hp hissue => ?_⟩
      · exact (chooseCandidate_spec hp).2.2.1
      · exact choose_first (s := s) h hrecorded hp hissue
  | resume o => exact healInv_resume h hrecorded hstep
  | update row columns =>
    cases hstep
    exact h.of_keys (keys_setRun s.table.control row.id fun _ => rfl)
  | finalize runId =>
    cases hstep
    exact h.of_keys rfl
  | insert row columns =>
    cases hstep
    have hother' : (s.table.control.nextRunId, row.issueNumber).2 ≠ some issue := hother
    refine h.of_other ?_ hother'
    simp [Control.keys, rowKey]

/-- From any table, in every run in which nobody else starts a run of the issue and every automatic resume
that dies of the outage was recorded as a resume before the next tick, the issue is resumed at most once. -/
theorem resumed_at_most_once {issue : Text} {s₀ t : HealSystem} {acts : List HealAction}
    (hresumes : s₀.resumes = []) (hpending : s₀.pending = none)
    (hothers : ∀ act ∈ acts, startsOther issue act)
    (hrecorded : Runs.Meets HealSystem.step (fun s act => resumesRecorded issue s act = true) s₀ acts)
    (hrun : Runs.exec HealSystem.step s₀ acts = some t) : t.resumesOf issue ≤ 1 := by
  have hstart : HealInv issue s₀ := by
    have hzero : s₀.resumesOf issue = 0 := by simp [HealSystem.resumesOf, hresumes]
    refine ⟨by omega, fun r hr => ?_, fun r hr => ?_, fun run hp => ?_, fun run hp => ?_⟩
    · rw [hresumes] at hr
      cases hr
    · rw [hresumes] at hr
      cases hr
    · rw [hpending] at hp
      cases hp
    · rw [hpending] at hp
      cases hp
  have hinv := Runs.invariant_of_guard (P := HealInv issue)
    (fun _ _ _ hP hg hs => healInv_step hP hg.1 hg.2 hs) hstart (hrecorded.and_of_forall hothers) hrun
  exact hinv.bound

/-! ## A flapping connection -/

/-- A developer run of issue 42 that failed while the network was down. -/
def failedRun : TaskRun :=
  { id := 1, issueNumber := some "42".toList, status := .failed, startedAt := 0, endedAt := some 100,
    errorMessage := some "git push: Could not resolve host: github.com".toList }

/-- Its resume, dead for the same reason. -/
def failedChild : TaskRun :=
  { id := 2, issueNumber := some "42".toList, status := .failed, startedAt := 200, endedAt := some 210,
    errorMessage := some "Process exited with code 1; last output: Could not resolve host: github.com".toList }

def failedSystem : HealSystem := { table := { control := { runs := [failedRun] } } }

/-- The answers to a resume whose process is spawned. -/
def plainResume (pid : Int) : StartOutside := { now := 200, kill := fun _ => .failed, spawn := .ok pid }

/-- The process of the resume records that it is one before it dies. -/
def recordedActs : List HealAction :=
  [.choose { now := 150 }, .resume (plainResume 7), .update failedChild { resumedFromId := some 1 },
   .finalize 2, .choose { now := 400 }]

theorem resumed_once_when_recorded :
    ∃ t, Runs.exec HealSystem.step failedSystem recordedActs = some t ∧ t.resumesOf "42".toList ≤ 1 := by
  obtain ⟨t, ht⟩ : ∃ t, Runs.exec HealSystem.step failedSystem recordedActs = some t := ⟨_, rfl⟩
  refine ⟨t, ht, resumed_at_most_once rfl rfl ?_ (by decide +kernel) ht⟩
  intro act hact
  simp only [recordedActs, List.mem_cons, List.not_mem_nil, or_false] at hact
  rcases hact with rfl | rfl | rfl | rfl | rfl <;> exact trivial

/-- The process of the resume dies before it records that it is one, and it is resumed itself. -/
theorem resumed_twice_when_unrecorded :
    (Runs.exec HealSystem.step failedSystem
      [.choose { now := 150 }, .resume (plainResume 7), .update failedChild {}, .finalize 2,
       .choose { now := 400 }, .resume (plainResume 8)]).any (fun t => t.resumesOf "42".toList == 2) = true := by
  decide +kernel

end Dashboard

import Mathlib.Data.List.Nodup
import SovaVerified.Runs.Runs
import SovaVerified.Dashboard.MergeQueueMonitor

/-!
# What ejects an entry of the merge queue

An answer without a queue entry is not yet a verdict: the pull request is asked for, and a read of it that
fails counts as an answer that it is not merged. Along every run in which that does not happen, each ejected
entry was last checked with an answer that says so.
-/

namespace Dashboard

/-! ## What the answers say -/

/-- The queue reports a failed state for the entry. -/
def QueueAnswer.reportsFailed : QueueAnswer → Bool
  | .data (some pr) => !pr.merged && pr.mergeQueueEntry.any fun entry =>
      entry.state == some "UNMERGEABLE".toList || entry.state == some "LOCKED".toList
  | _ => false

/-- The answer of the queue holds neither a merge nor an entry; it may hold nothing at all. -/
def QueueAnswer.reportsAbsent : QueueAnswer → Bool
  | .data none => true
  | .data (some pr) => !pr.merged && pr.mergeQueueEntry.isNone
  | _ => false

/-- The read of the pull request succeeds and reports it as not merged. -/
def DirectAnswer.reportsUnmerged : DirectAnswer → Bool
  | .status (some state) => state != "MERGED".toList
  | _ => false

/-- The read of the pull request fails with an error that is caught, or its answer holds no state. -/
def DirectAnswer.saysNothing : DirectAnswer → Bool
  | .status none => true
  | .failed => true
  | _ => false

/-- The answers to a check that call for an ejection. -/
def CheckAnswers.Justified (a : CheckAnswers) : Prop :=
  a.queue.reportsFailed = true ∨ (a.queue.reportsAbsent = true ∧ a.direct.reportsUnmerged = true)

instance (a : CheckAnswers) : Decidable a.Justified := by
  unfold CheckAnswers.Justified
  infer_instance

/-- A check that ejects without an answer that calls for it. -/
def Misread (entry : MergeQueueEntry) (a : CheckAnswers) : Prop :=
  entry.repo.contains '/' = true ∧ a.queue.reportsAbsent = true ∧ a.direct.saysNothing = true ∧
    a.updated = true

instance (entry : MergeQueueEntry) (a : CheckAnswers) : Decidable (Misread entry a) := by
  unfold Misread
  infer_instance

/-! ## What one check can do -/

theorem getMergeQueueStatus_isFailed {repo : Text} {q : QueueAnswer} {status : MergeQueueStatus}
    (h : getMergeQueueStatus repo q = some status) (hfailed : status.isFailed = true) :
    q.reportsFailed = true := by
  unfold getMergeQueueStatus at h
  split at h
  · cases h
  · split at h
    · cases h
    · cases h
      exact absurd hfailed (by decide)
    · cases h
      exact absurd hfailed (by decide)
    · rename_i pr
      dsimp only at h
      split at h
      · cases h
        exact absurd hfailed (by decide)
      · rename_i hmerged
        split at h
        · cases h
          exact absurd hfailed (by decide)
        · rename_i entry hentry
          cases h
          cases pr with
          | none => cases hentry
          | some pr =>
            have hentry' : pr.mergeQueueEntry = some entry := hentry
            have hmerged' : pr.merged = false := by simpa using hmerged
            cases hstate : entry.state with
            | none =>
              simp only [hstate, Option.getD_none] at hfailed
              exact absurd hfailed (by decide)
            | some state =>
              simpa [QueueAnswer.reportsFailed, hmerged', hentry', hstate, MergeQueueStatus.isFailed]
                using hfailed

theorem getMergeQueueStatus_notQueued {repo : Text} {q : QueueAnswer} {status : MergeQueueStatus}
    (h : getMergeQueueStatus repo q = some status)
    (habsent : (!status.inQueue && status.state == "NOT_QUEUED".toList) = true) :
    repo.contains '/' = true ∧ q.reportsAbsent = true := by
  unfold getMergeQueueStatus at h
  split at h
  · cases h
  · rename_i hrepo
    refine ⟨by simpa using hrepo, ?_⟩
    split at h
    · cases h
    · cases h
      exact absurd habsent (by decide)
    · cases h
      exact absurd habsent (by decide)
    · rename_i pr
      dsimp only at h
      split at h
      · cases h
        exact absurd habsent (by decide)
      · rename_i hmerged
        split at h
        · rename_i hentry
          cases pr with
          | none => rfl
          | some pr =>
            have hentry' : pr.mergeQueueEntry = none := hentry
            have hmerged' : pr.merged = false := by simpa using hmerged
            simp [QueueAnswer.reportsAbsent, hmerged', hentry']
        · cases h
          cases habsent

theorem checkPrMergedDirectly_false {d : DirectAnswer} (h : checkPrMergedDirectly d = some false) :
    d.reportsUnmerged = true ∨ d.saysNothing = true := by
  cases d with
  | status state =>
    cases state with
    | none => exact .inr rfl
    | some state =>
      refine .inl ?_
      simpa [checkPrMergedDirectly, DirectAnswer.reportsUnmerged] using h
  | failed => exact .inr rfl
  | raised => cases h

/-- A status that a check may write. -/
def MayWrite (entry : MergeQueueEntry) (a : CheckAnswers) (cleaned : List Nat) : EntryStatus → Prop
  | .queued => False
  | .timeout => True
  | .merged => entry.id ∈ cleaned
  | .ejected => a.Justified ∨ Misread entry a

/-- A check writes the status of its entry or nothing, and a clean-up that ran is noted. -/
theorem checkEntry_spec (s : MonitorState) (entry : MergeQueueEntry) (a : CheckAnswers) :
    ∃ rows cleaned, checkEntry s entry a = { s with rows := rows, cleaned := cleaned } ∧
      (∀ id ∈ s.cleaned, id ∈ cleaned) ∧
      (rows = s.rows ∨ ∃ st, rows = setStatus entry.id st s.rows ∧ MayWrite entry a cleaned st) := by
  have hsame : ∃ rows cleaned, s = { s with rows := rows, cleaned := cleaned } ∧
      (∀ id ∈ s.cleaned, id ∈ cleaned) ∧
      (rows = s.rows ∨ ∃ st, rows = setStatus entry.id st s.rows ∧ MayWrite entry a cleaned st) :=
    ⟨s.rows, s.cleaned, rfl, fun _ h => h, .inl rfl⟩
  have hmerged : ∃ rows cleaned, handleMerged s entry a = { s with rows := rows, cleaned := cleaned } ∧
      (∀ id ∈ s.cleaned, id ∈ cleaned) ∧
      (rows = s.rows ∨ ∃ st, rows = setStatus entry.id st s.rows ∧ MayWrite entry a cleaned st) := by
    unfold handleMerged updateEntryStatus
    split
    · split
      · exact ⟨_, _, rfl, fun _ h => List.mem_cons_of_mem _ h, .inr ⟨.merged, rfl, List.mem_cons_self⟩⟩
      · exact ⟨_, _, rfl, fun _ h => List.mem_cons_of_mem _ h, .inl rfl⟩
    · exact hsame
  have hejected (hwhy : a.updated = true → a.Justified ∨ Misread entry a) :
      ∃ rows cleaned, handleEjected s entry a = { s with rows := rows, cleaned := cleaned } ∧
        (∀ id ∈ s.cleaned, id ∈ cleaned) ∧
        (rows = s.rows ∨ ∃ st, rows = setStatus entry.id st s.rows ∧ MayWrite entry a cleaned st) := by
    unfold handleEjected updateEntryStatus
    split
    · rename_i hupdated
      exact ⟨_, _, rfl, fun _ h => h, .inr ⟨.ejected, rfl, hwhy hupdated⟩⟩
    · exact hsame
  unfold checkEntry
  split
  · exact hsame
  · rename_i status hstatus
    split
    · exact hmerged
    · split
      · rename_i hfailed
        exact hejected fun _ => .inl (.inl (getMergeQueueStatus_isFailed hstatus hfailed))
      · split
        · rename_i habsent
          obtain ⟨hrepo, habsent⟩ := getMergeQueueStatus_notQueued hstatus habsent
          split
          · exact hsame
          · exact hmerged
          · rename_i hdirect
            refine hejected fun hupdated => ?_
            rcases checkPrMergedDirectly_false hdirect with hunmerged | hnothing
            · exact .inl (.inr ⟨habsent, hunmerged⟩)
            · exact .inr ⟨hrepo, habsent, hnothing, hupdated⟩
        · split
          · unfold handleTimeout updateEntryStatus
            split
            · exact ⟨_, _, rfl, fun _ h => h, .inr ⟨.timeout, rfl, trivial⟩⟩
            · exact hsame
          · exact hsame

/-! ## Runs -/

/-- What the last check of an entry met. -/
def MonitorState.lastCheck (s : MonitorState) (id : Nat) : Option CheckAnswers :=
  (s.checks.find? fun c => c.1 == id).map Prod.snd

/-- Why an entry may have a status: it was cleaned up after its merge, and its last check called for an
ejection. -/
def MonitorState.Warrants (s : MonitorState) (id : Nat) : EntryStatus → Prop
  | .queued => True
  | .timeout => True
  | .merged => id ∈ s.cleaned
  | .ejected => ∃ a, s.lastCheck id = some a ∧ a.Justified

/-- How an entry came to its status: it had it before the run, or the run warrants it. -/
def EntrySettled (s₀ s : MonitorState) (row : MergeQueueEntry) : Prop :=
  (∃ row₀ ∈ s₀.rows, row₀.id = row.id ∧ row₀.status = row.status) ∨ s.Warrants row.id row.status

/-- A monitor that starts: entries of any status, under distinct ids, and nothing checked yet. -/
structure Starting (s : MonitorState) : Prop where
  ids : (s.rows.map MergeQueueEntry.id).Nodup
  pending : s.pending = []
  checks : s.checks = []

/-- The invariant: what a cycle has loaded is still queued. -/
structure MonitorInv (s₀ s : MonitorState) : Prop where
  ids : (s.rows.map MergeQueueEntry.id).Nodup
  pendingIds : (s.pending.map MergeQueueEntry.id).Nodup
  pendingQueued : ∀ e ∈ s.pending, ∀ row ∈ s.rows, row.id = e.id → row.status = .queued
  settled : ∀ row ∈ s.rows, EntrySettled s₀ s row

/-- No check is misread. -/
def NotMisread (s : MonitorState) : MonitorAction → Prop
  | .check a => ∀ entry ∈ s.pending.head?, ¬ Misread entry a
  | _ => True

instance : ∀ (s : MonitorState) (act : MonitorAction), Decidable (NotMisread s act)
  | s, .check a => inferInstanceAs (Decidable (∀ entry ∈ s.pending.head?, ¬ Misread entry a))
  | _, .create _ => .isTrue trivial
  | _, .load _ _ => .isTrue trivial

theorem setStatus_ids (id : Nat) (st : EntryStatus) (rows : List MergeQueueEntry) :
    (setStatus id st rows).map MergeQueueEntry.id = rows.map MergeQueueEntry.id :=
  Tables.map_updateWhere rows fun _ => rfl

/-- A created entry has an id of its own. -/
theorem createMergeQueueEntry_spec (rows : List MergeQueueEntry) (entry : MergeQueueEntry) :
    createMergeQueueEntry rows entry = rows ∨
      ∃ row, createMergeQueueEntry rows entry = rows ++ [row] ∧ row.status = .queued ∧
        row.id ∉ rows.map MergeQueueEntry.id := by
  unfold createMergeQueueEntry
  split
  · exact .inl rfl
  · refine .inr ⟨_, rfl, rfl, fun hmem => ?_⟩
    have hle := Tables.le_foldl_max_of_mem (n := 0) hmem
    dsimp only at hle
    omega

theorem inv_create {s₀ s : MonitorState} (h : MonitorInv s₀ s) (entry : MergeQueueEntry) :
    MonitorInv s₀ { s with rows := createMergeQueueEntry s.rows entry } := by
  rcases createMergeQueueEntry_spec s.rows entry with heq | ⟨row, heq, hqueued, hfresh⟩
  · rw [heq]
    exact h
  · rw [heq]
    refine ⟨?_, h.pendingIds, fun e he r hr hid => ?_, fun r hr => ?_⟩
    · show ((s.rows ++ [row]).map MergeQueueEntry.id).Nodup
      rw [List.map_append, List.map_singleton]
      exact List.nodup_append.mpr ⟨h.ids, List.nodup_singleton _, fun a ha b hb hab =>
        hfresh (List.mem_singleton.mp hb ▸ hab ▸ ha)⟩
    · rcases List.mem_append.mp hr with hr | hr
      · exact h.pendingQueued e he r hr hid
      · exact List.mem_singleton.mp hr ▸ hqueued
    · rcases List.mem_append.mp hr with hr | hr
      · exact h.settled r hr
      · refine .inr ?_
        rw [List.mem_singleton.mp hr, hqueued]
        trivial

theorem inv_load {s₀ s : MonitorState} (h : MonitorInv s₀ s) (projectDir : Text) (loaded : Bool) :
    MonitorInv s₀ { s with pending := loadQueuedEntries projectDir s.rows loaded } := by
  refine ⟨h.ids, ?_, fun e he row hrow hid => ?_, h.settled⟩
  · show ((loadQueuedEntries projectDir s.rows loaded).map MergeQueueEntry.id).Nodup
    unfold loadQueuedEntries
    split
    · exact h.ids.sublist (List.filter_sublist.map _)
    · exact List.nodup_nil
  · have he' : e ∈ loadQueuedEntries projectDir s.rows loaded := he
    unfold loadQueuedEntries at he'
    split at he'
    · obtain ⟨hmem, hqueued⟩ := List.mem_filter.mp he'
      have heq : row = e := List.inj_on_of_nodup_map h.ids hrow hmem hid
      rw [heq]
      simp only [Bool.and_eq_true, beq_iff_eq] at hqueued
      exact hqueued.1
    · cases he'

/-- The last check of the entries that are not checked stays the last. -/
theorem settled_of_check {s₀ s : MonitorState} {row : MergeQueueEntry} (h : EntrySettled s₀ s row) {id : Nat}
    (hne : row.id ≠ id) (a : CheckAnswers) {rows pending : List MergeQueueEntry} {cleaned : List Nat}
    (hcleaned : ∀ i ∈ s.cleaned, i ∈ cleaned) :
    EntrySettled s₀ { rows := rows, pending := pending, cleaned := cleaned, checks := (id, a) :: s.checks } row := by
  refine h.imp_right fun hwhy => ?_
  cases hstatus : row.status with
  | queued => trivial
  | timeout => trivial
  | merged =>
    rw [hstatus] at hwhy
    exact hcleaned _ hwhy
  | ejected =>
    rw [hstatus] at hwhy
    obtain ⟨b, hb, hjustified⟩ := hwhy
    refine ⟨b, ?_, hjustified⟩
    have hbeq : (id == row.id) = false := by simpa using fun heq : id = row.id => hne heq.symm
    unfold MonitorState.lastCheck at hb ⊢
    rw [List.find?_cons, hbeq]
    exact hb

theorem inv_check {s₀ s : MonitorState} (h : MonitorInv s₀ s) {entry : MergeQueueEntry}
    {rest : List MergeQueueEntry} (hpending : s.pending = entry :: rest) {a : CheckAnswers}
    (hread : ¬ Misread entry a) :
    MonitorInv s₀ (checkEntry { s with pending := rest, checks := (entry.id, a) :: s.checks } entry a) := by
  obtain ⟨rows, cleaned, heq, hcleaned, hrows⟩ :=
    checkEntry_spec { s with pending := rest, checks := (entry.id, a) :: s.checks } entry a
  rw [heq]
  have hids := h.pendingIds
  rw [hpending, List.map_cons, List.nodup_cons] at hids
  obtain ⟨hnotin, hrest⟩ := hids
  have hqueued : ∀ row ∈ s.rows, row.id = entry.id → row.status = .queued :=
    h.pendingQueued entry (by rw [hpending]; exact List.mem_cons_self)
  have hothers : ∀ e ∈ rest, ∀ row ∈ s.rows, row.id = e.id → row.status = .queued := fun e he =>
    h.pendingQueued e (by rw [hpending]; exact List.mem_cons_of_mem _ he)
  have hsettled : ∀ row ∈ s.rows, EntrySettled s₀
      { rows := rows, pending := rest, cleaned := cleaned, checks := (entry.id, a) :: s.checks } row := by
    intro row hrow
    by_cases hid : row.id = entry.id
    · refine .inr ?_
      rw [hqueued row hrow hid]
      trivial
    · exact settled_of_check (h.settled row hrow) hid a hcleaned
  rcases hrows with hrows | ⟨st, hrows, hmay⟩
  · cases hrows
    exact ⟨h.ids, hrest, hothers, hsettled⟩
  · cases hrows
    refine ⟨?_, hrest, fun e he row hrow hid => ?_, fun row hrow => ?_⟩
    · show ((setStatus entry.id st s.rows).map MergeQueueEntry.id).Nodup
      rw [setStatus_ids]
      exact h.ids
    · rcases Tables.mem_updateWhere hrow with ⟨hold, -⟩ | ⟨row₀, -, hid₀, rfl⟩
      · exact hothers e he row hold hid
      · -- the checked entry is not among the ones still to be checked
        have hentry : row₀.id = entry.id := by simpa using hid₀
        exact absurd (List.mem_map.mpr ⟨e, he, hid.symm.trans hentry⟩) hnotin
    · rcases Tables.mem_updateWhere hrow with ⟨hold, -⟩ | ⟨row₀, hrow₀, hid₀, rfl⟩
      · exact hsettled row hold
      · have hentry : row₀.id = entry.id := by simpa using hid₀
        refine .inr ?_
        cases st with
        | queued => trivial
        | timeout => trivial
        | merged =>
          show row₀.id ∈ cleaned
          rw [hentry]
          exact hmay
        | ejected =>
          refine ⟨a, ?_, hmay.resolve_right hread⟩
          simp [MonitorState.lastCheck, hentry]

theorem inv_step {projectDir : Text} {s₀ s s' : MonitorState} {act : MonitorAction} (h : MonitorInv s₀ s)
    (hread : NotMisread s act) (hstep : s.step projectDir act = some s') : MonitorInv s₀ s' := by
  cases act with
  | create entry =>
    cases hstep
    exact inv_create h entry
  | load skipped loaded =>
    dsimp only [MonitorState.step] at hstep
    split at hstep
    · cases hstep
    · split at hstep
      · cases hstep
        exact h
      · cases hstep
        exact inv_load h projectDir loaded
  | check a =>
    dsimp only [MonitorState.step] at hstep
    cases hpending : s.pending with
    | nil =>
      rw [hpending] at hstep
      cases hstep
    | cons entry rest =>
      rw [hpending] at hstep
      cases hstep
      exact inv_check h hpending (hread entry (by rw [hpending]; rfl))

theorem inv_starting {s₀ : MonitorState} (h : Starting s₀) : MonitorInv s₀ s₀ := by
  refine ⟨h.ids, ?_, fun e he => ?_, fun row hrow => .inl ⟨row, hrow, rfl, rfl⟩⟩
  · rw [h.pending]
    exact List.nodup_nil
  · rw [h.pending] at he
    cases he

/-- Along every run in which no check is misread, an entry is ejected only by a check whose answers call for
it, and called merged only after its clean-up. -/
theorem entries_settled_of_notMisread {projectDir : Text} {s₀ t : MonitorState} {acts : List MonitorAction}
    (hstart : Starting s₀) (hread : Runs.Meets (MonitorState.step projectDir) NotMisread s₀ acts)
    (hrun : Runs.exec (MonitorState.step projectDir) s₀ acts = some t) :
    ∀ row ∈ t.rows, EntrySettled s₀ t row := by
  have hinv := Runs.invariant_of_guard (P := MonitorInv s₀) (fun _ _ _ hP hg hs => inv_step hP hg hs)
    (inv_starting hstart) hread hrun
  exact hinv.settled

/-- An entry that the queue reports as unmergeable, after a cycle in which nothing could be read. -/
theorem entries_settled_unmergeable :
    let entry : MergeQueueEntry :=
      { id := 1, prNumber := 5, repo := "o/r".toList, projectDir := "/p".toList, enqueuedAt := 0 }
    let failed : CheckAnswers := { queue := .failed }
    let queued : QueuedPr := { state := some "UNMERGEABLE".toList }
    let unmergeable : CheckAnswers := { queue := .data (some { mergeQueueEntry := some queued }) }
    let s₀ : MonitorState := { rows := [entry] }
    let ejected : MergeQueueEntry := { entry with status := .ejected }
    let t : MonitorState :=
      { rows := [ejected], checks := [(1, unmergeable), (1, failed)] }
    Runs.exec (MonitorState.step "/p".toList) s₀
        [.load false true, .check failed, .load false true, .check unmergeable] = some t ∧
      ∀ row ∈ t.rows, EntrySettled s₀ t row := by
  intro entry failed queued unmergeable s₀ ejected t
  have hrun : Runs.exec (MonitorState.step "/p".toList) s₀
      [.load false true, .check failed, .load false true, .check unmergeable] = some t := rfl
  exact ⟨hrun, entries_settled_of_notMisread ⟨by decide, rfl, rfl⟩ (by decide) hrun⟩

/-- GitHub answers without data and the read of the pull request fails: the entry is ejected. -/
theorem ejected_without_answer :
    let entry : MergeQueueEntry :=
      { id := 1, prNumber := 5, repo := "o/r".toList, projectDir := "/p".toList, enqueuedAt := 0 }
    let nothing : CheckAnswers := { queue := .data none, direct := .failed }
    let s₀ : MonitorState := { rows := [entry] }
    let ejected : MergeQueueEntry := { entry with status := .ejected }
    let t : MonitorState := { rows := [ejected], checks := [(1, nothing)] }
    Runs.exec (MonitorState.step "/p".toList) s₀ [.load false true, .check nothing] = some t ∧
      nothing.queue.reportsFailed = false ∧ nothing.direct.reportsUnmerged = false := by
  intro entry nothing s₀ ejected t
  exact ⟨rfl, rfl, rfl⟩

end Dashboard

import SovaVerified.Dashboard.StartAgent

/-!
# What a start does to the runs that are already there

A start adds a row of its own, with an id that no row has. Of the rows that are already there it changes
only those that the check for a conflict finds stale, and it marks these as interrupted.
-/

namespace Dashboard

open Tables

variable {c : Control} {k : Nat} {run : TaskRun}

/-! ## Reading a row after an update -/

theorem Control.run_id (h : c.run k = some run) : run.id = k := get_key h

/-- An update that keeps the ids is an update of the row that is read. -/
theorem Control.run_setRun {id : Nat} {f : TaskRun → TaskRun} (hf : ∀ r, (f r).id = r.id) :
    (c.setRun id f).run k = if k = id then (c.run k).map f else c.run k := by
  have hget : (c.setRun id f).run k = (c.run k).map fun r => if r.id == id then f r else r :=
    get_updateWhere _ hf k
  rw [hget]
  cases hrun : c.run k with
  | none => simp
  | some r =>
    have hid : r.id = k := Control.run_id hrun
    by_cases hk : k = id
    · simp [hid, hk]
    · simp [hid, hk]

theorem Control.run_setRun_self {f : TaskRun → TaskRun} (hf : ∀ r, (f r).id = r.id)
    (h : c.run k = some run) : (c.setRun k f).run k = some (f run) := by
  rw [Control.run_setRun hf, if_pos rfl, h]
  rfl

theorem Control.run_setRun_of_ne {id : Nat} {f : TaskRun → TaskRun} (hf : ∀ r, (f r).id = r.id)
    (h : k ≠ id) : (c.setRun id f).run k = c.run k := by
  rw [Control.run_setRun hf, if_neg h]

/-- A row that is read after an update is the row before it, or the update of that row. -/
theorem Control.run_of_setRun {id : Nat} {f : TaskRun → TaskRun} {r : TaskRun}
    (h : (c.setRun id f).run k = some r) (hf : ∀ r, (f r).id = r.id) :
    ∃ r₀, c.run k = some r₀ ∧ (r = r₀ ∨ r = f r₀) := by
  rw [Control.run_setRun hf] at h
  split_ifs at h
  · obtain ⟨r₀, hr₀, rfl⟩ := Option.map_eq_some_iff.mp h
    exact ⟨r₀, hr₀, .inr rfl⟩
  · exact ⟨r, h, .inl rfl⟩

/-- The id of a new row is the id of no row. -/
theorem Control.lt_nextRunId (h : c.run k = some run) : k < c.nextRunId := by
  have hmem : run.id ∈ c.runs.map TaskRun.id := List.mem_map_of_mem (mem_of_get h)
  have hle : run.id ≤ (c.runs.map TaskRun.id).foldl max 0 := le_foldl_max_of_mem hmem
  rw [Control.run_id h] at hle
  exact Nat.lt_succ_of_le hle

theorem createTaskRun_run {issue : Option Text} {role : Text} {pr : Option Nat} {check : Option Text}
    {now : Nat} (h : c.run k = some run) : (createTaskRun c issue role pr check now).2.run k = some run := by
  have hrun : Tables.get TaskRun.id k c.runs = some run := h
  show Tables.get TaskRun.id k (c.runs ++ _) = some run
  rw [get_append, hrun]
  rfl

/-! ## The check for a conflict -/

/-- The check for a conflict on an issue takes this run for one whose process is gone. -/
def isStale (kill : Int → Signalled) (c : Control) (issue : Text) (r : TaskRun) : Bool :=
  r.issueNumber == some issue && !r.isTerminal && r.pid.isSome && !c.managedIds.contains r.id &&
    !r.pid.any (isProcessAlive kill)

theorem markStale_id (now : Nat) (r : TaskRun) : (markStale now r).id = r.id := rfl

theorem scanOpenRuns_stale {kill : Int → Signalled} {managed : List Nat} {force : Bool}
    {runs : List TaskRun} {r : TaskRun} (h : r ∈ (scanOpenRuns kill managed force runs).1) :
    r ∈ runs ∧ managed.contains r.id = false ∧ r.pid.any (isProcessAlive kill) = false := by
  induction runs with
  | nil => cases h
  | cons a runs ih =>
    unfold scanOpenRuns at h
    split_ifs at h with hmanaged halive hforce
    · exact (ih h).imp_left (List.mem_cons_of_mem a)
    · exact (ih h).imp_left (List.mem_cons_of_mem a)
    · cases h
    · rcases List.mem_cons.mp h with rfl | h
      · exact ⟨List.mem_cons_self .., by simpa using hmanaged, by simpa using halive⟩
      · exact (ih h).imp_left (List.mem_cons_of_mem a)

/-- A forced check looks at every run and finds no conflict. -/
theorem scanOpenRuns_forced (kill : Int → Signalled) (managed : List Nat) (runs : List TaskRun) :
    scanOpenRuns kill managed true runs = (runs.filter fun r =>
      !managed.contains r.id && !r.pid.any (isProcessAlive kill), none) := by
  induction runs with
  | nil => rfl
  | cons a runs ih =>
    unfold scanOpenRuns
    rw [ih]
    by_cases hmanaged : a.id ∈ managed
    · simp [hmanaged]
    · by_cases halive : a.pid.any (isProcessAlive kill) = true
      · simp [halive]
      · simp [hmanaged, halive]

/-- What the check leaves of a row: a row that it marks was stale. -/
theorem checkIssueConflict_run (kill : Int → Signalled) (dbFails force : Bool) (now : Nat) (issue : Text)
    (h : c.run k = some run) :
    (checkIssueConflict kill dbFails now issue force c).2.run k = some run ∨
      (isStale kill c issue run = true ∧
        (checkIssueConflict kill dbFails now issue force c).2.run k = some (markStale now run)) := by
  unfold checkIssueConflict
  split
  · exact .inl h
  · split_ifs
    · exact .inl h
    · dsimp only
      set found := scanOpenRuns kill c.managedIds force (openRuns c issue) with hfound
      have hget : Tables.get TaskRun.id k (updateWhere found.1.contains (markStale now) c.runs) =
          (c.run k).map fun r => if found.1.contains r then markStale now r else r :=
        get_updateWhere _ (markStale_id now) k
      by_cases hmem : found.1.contains run = true
      · obtain ⟨hopen, hmanaged, hdead⟩ := scanOpenRuns_stale (hfound ▸ List.contains_iff_mem.mp hmem)
        have hstale : isStale kill c issue run = true := by
          have hsel := (List.mem_filter.mp hopen).2
          unfold isStale
          rw [hsel, hmanaged, hdead]
          rfl
        refine .inr ⟨hstale, hget.trans ?_⟩
        rw [h, Option.map_some, if_pos hmem]
      · refine .inl (hget.trans ?_)
        rw [h, Option.map_some, if_neg hmem]

/-- The check adds no row. -/
theorem checkIssueConflict_none (kill : Int → Signalled) (dbFails force : Bool) (now : Nat) (issue : Text)
    (h : c.run k = none) : (checkIssueConflict kill dbFails now issue force c).2.run k = none := by
  unfold checkIssueConflict
  split
  · exact h
  · split_ifs
    · exact h
    · have hrows : Tables.get TaskRun.id k c.runs = none := h
      show Tables.get TaskRun.id k (updateWhere _ (markStale now) c.runs) = none
      rw [get_updateWhere _ (markStale_id now), hrows]
      rfl

/-- A forced check that reaches the database marks every stale run. -/
theorem checkIssueConflict_forced {kill : Int → Signalled} {issue : Text} (now : Nat)
    (h : c.run k = some run) (hstale : isStale kill c issue run = true) :
    (checkIssueConflict kill false now issue true c).1 = none ∧
      (checkIssueConflict kill false now issue true c).2.run k = some (markStale now run) := by
  have hfound := scanOpenRuns_forced kill c.managedIds (openRuns c issue)
  simp only [isStale, Bool.and_eq_true, Bool.not_eq_true'] at hstale
  obtain ⟨⟨hsel, hmanaged⟩, hdead⟩ := hstale
  have hopen : run ∈ openRuns c issue := by
    refine List.mem_filter.mpr ⟨mem_of_get h, ?_⟩
    simpa using hsel
  have hmem : (scanOpenRuns kill c.managedIds true (openRuns c issue)).1.contains run = true := by
    rw [hfound]
    refine List.contains_iff_mem.mpr (List.mem_filter.mpr ⟨hopen, ?_⟩)
    simp only [hmanaged, hdead, Bool.not_false, Bool.and_self]
  refine ⟨?_, ?_⟩
  · simp [checkIssueConflict, hfound]
  · have hget : (checkIssueConflict kill false now issue true c).2.run k =
        (c.run k).map fun r =>
          if (scanOpenRuns kill c.managedIds true (openRuns c issue)).1.contains r then markStale now r
          else r := get_updateWhere _ (markStale_id now) k
    rw [hget, h, Option.map_some, if_pos hmem]

/-! ## The parts of a start -/

theorem checkIssue_run {o : StartOutside} {req : StartRequest} (h : c.run k = some run) :
    (checkIssue o req c).2.run k = some run ∨
      (req.issue ≠ [] ∧ isStale o.kill c req.issue run = true ∧
        (checkIssue o req c).2.run k = some (markStale o.now run)) := by
  unfold checkIssue
  by_cases hissue : req.issue.isEmpty = true
  · rw [if_pos hissue]
    exact .inl h
  · rw [if_neg hissue]
    have hne : req.issue ≠ [] := by simpa using hissue
    have hcheck := checkIssueConflict_run o.kill o.conflictFails req.force o.now req.issue h
    split
    · next e c' heq =>
      rw [heq] at hcheck
      exact hcheck.imp_right fun hs => ⟨hne, hs⟩
    · next c' heq =>
      rw [heq] at hcheck
      exact hcheck.imp_right fun hs => ⟨hne, hs⟩

theorem admitStart_run (o : StartOutside) (req : StartRequest) (h : c.run k = some run) :
    (admitStart o req c).2.run k = some run ∨
      (c.pool.agents.length < c.pool.maxConcurrent ∧ req.issue ≠ [] ∧
        isStale o.kill c req.issue run = true ∧
        (admitStart o req c).2.run k = some (markStale o.now run)) := by
  unfold admitStart
  split_ifs with hfull
  · exact .inl h
  · exact (checkIssue_run h).imp_right fun hs => ⟨Nat.lt_of_not_le hfull, hs⟩

theorem admitStart_none (o : StartOutside) (req : StartRequest) (h : c.run k = none) :
    (admitStart o req c).2.run k = none := by
  unfold admitStart
  split_ifs
  · exact h
  · unfold checkIssue
    by_cases hissue : req.issue.isEmpty = true
    · rw [if_pos hissue]
      exact h
    · rw [if_neg hissue]
      have hcheck := checkIssueConflict_none o.kill o.conflictFails req.force o.now req.issue h
      split
      · next e c' heq => rwa [heq] at hcheck
      · next c' heq => rwa [heq] at hcheck

/-- The row of a new run is running. -/
theorem createStart_fresh {o : StartOutside} {req : StartRequest}
    (h : (createStart o req c).2.run k = some run) (hnone : c.run k = none) : run.status = .running := by
  have hrows : Tables.get TaskRun.id k c.runs = none := hnone
  unfold createStart createTaskRun Control.run at h
  dsimp only at h
  rw [get_append, hrows, Option.none_or] at h
  have hmem := mem_of_get h
  rw [List.mem_singleton] at hmem
  rw [hmem]

theorem spawnStart_run {o : StartOutside} {req : StartRequest} {id : Nat} (h : k ≠ id) :
    (spawnStart o req id c).2.run k = c.run k := by
  unfold spawnStart
  split
  · dsimp only
    split_ifs
    · rfl
    · exact Control.run_setRun_of_ne (fun r => rfl) h
  · dsimp only
    split_ifs
    · rfl
    · exact Control.run_setRun_of_ne (fun r => rfl) h

/-- A launch leaves the rows alone that are already there. -/
theorem launchStart_run {o : StartOutside} {req : StartRequest} (h : c.run k = some run) :
    (launchStart o req c).2.run k = some run := by
  unfold launchStart
  split
  · exact h
  · have hcreate : (createStart o req c).2.run k = some run := createTaskRun_run h
    have hne : k ≠ (createStart o req c).1 := ne_of_lt (Control.lt_nextRunId h)
    split_ifs
    · exact h
    · exact hcreate
    · exact (spawnStart_run hne).trans hcreate

/-- A row that a launch adds is running, or it has failed. -/
theorem launchStart_fresh {o : StartOutside} {req : StartRequest}
    (h : (launchStart o req c).2.run k = some run) (hnone : c.run k = none) :
    run.status = .running ∨ run.status = .failed := by
  have habsurd : c.run k ≠ some run := by rw [hnone]; simp
  unfold launchStart at h
  split at h
  · exact absurd h habsurd
  · split_ifs at h
    · exact absurd h habsurd
    · exact .inl (createStart_fresh h hnone)
    · unfold spawnStart at h
      split at h
      · dsimp only at h
        split_ifs at h
        · exact .inl (createStart_fresh h hnone)
        · obtain ⟨r, hr, rfl | rfl⟩ := Control.run_of_setRun h fun _ => rfl
          · exact .inl (createStart_fresh hr hnone)
          · exact .inr rfl
      · dsimp only at h
        split_ifs at h
        · exact .inl (createStart_fresh h hnone)
        · obtain ⟨r, hr, rfl | rfl⟩ := Control.run_of_setRun h fun _ => rfl
          · exact .inl (createStart_fresh hr hnone)
          · have hrunning : r.status = .running := createStart_fresh hr hnone
            exact .inl hrunning

/-- A start leaves a row alone, or there is room in the pool and the row is stale for the issue that is
started, and it is marked. -/
theorem startAgent_run (o : StartOutside) (req : StartRequest) (h : c.run k = some run) :
    (startAgent o req c).2.run k = some run ∨
      ∃ req', prepareStart o req c = .ok req' ∧ c.pool.agents.length < c.pool.maxConcurrent ∧
        req'.issue ≠ [] ∧ isStale o.kill c req'.issue run = true ∧
        (startAgent o req c).2.run k = some (markStale o.now run) := by
  unfold startAgent
  by_cases hraises : o.prepareRaises = true
  · rw [if_pos hraises]
    exact .inl h
  · rw [if_neg hraises]
    cases hprepare : prepareStart o req c with
    | error e => exact .inl h
    | ok req' =>
      dsimp only
      have hadmission := admitStart_run o req' h
      cases hcase : admitStart o req' c with
      | mk refused c' =>
        rw [hcase] at hadmission
        cases refused with
        | some e =>
          rcases hadmission with hsame | ⟨hroom, hissue, hstale, hmarked⟩
          · exact .inl hsame
          · exact .inr ⟨req', rfl, hroom, hissue, hstale, hmarked⟩
        | none =>
          -- what the launch leaves is what the admission left
          rcases hadmission with hsame | ⟨hroom, hissue, hstale, hmarked⟩
          · exact .inl (launchStart_run hsame)
          · exact .inr ⟨req', rfl, hroom, hissue, hstale, launchStart_run hmarked⟩

end Dashboard

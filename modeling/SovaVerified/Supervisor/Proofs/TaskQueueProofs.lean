import SovaVerified.Supervisor.TaskQueue

/-!
# Whether an added issue stays in the stored queue

An issue whose add went through stays stored as long as every later writer has seen what is stored.
The invariant of one issue is that it is stored, and that an edit in flight keeps it unless the edit
is one that takes it out. A poll that works on an older snapshot breaks it.
-/

namespace Supervisor

open Runs Adapters

/-! ## Maintenance -/

/-- The pass looks up the local record of every queued issue that it rechecks and that a record could
still decide. -/
theorem get_passAssessments {pruned : List Int} {objects : Assoc Int Task} {size : Int}
    {store : Option (Assoc Int Text)} {issue : Int} {task : Task} (hq : issue ∈ pruned)
    (hflight : isInFlight objects issue = false) (htask : Assoc.get objects issue = some task)
    (happlies : localAssessmentApplies task.labels = true) :
    Assoc.get (passAssessments pruned objects size store) issue
      = Assoc.get (store.getD []) issue := by
  unfold passAssessments resolveLocalAssessments
  cases store with
  | none => rfl
  | some records =>
    refine Assoc.get_filter_key records ?_
    rw [List.contains_iff_mem]
    have hrecheck : issue ∈ pruned.filter fun i => !isInFlight objects i := by
      simp [hq, hflight]
    rw [List.mem_filter]
    refine ⟨List.mem_append_right _ hrecheck, ?_⟩
    simp [htask, happlies]

/-- For a queued issue the pass decides suitability as if it had looked up every record. -/
theorem isUnsuitable_passAssessments {pruned : List Int} {objects : Assoc Int Task} {size : Int}
    {store : Option (Assoc Int Text)} {issue : Int} (hq : issue ∈ pruned) :
    isUnsuitable objects (passAssessments pruned objects size store) issue
      = isUnsuitable objects (store.getD []) issue := by
  unfold isUnsuitable
  by_cases hflight : isInFlight objects issue = true
  · rw [if_pos hflight, if_pos hflight]
  · rw [if_neg hflight, if_neg hflight]
    cases htask : Assoc.get objects issue with
    | none => rfl
    | some task =>
      have hrecord : applicableAssessment (passAssessments pruned objects size store) issue task
          = applicableAssessment (store.getD []) issue task := by
        unfold applicableAssessment
        by_cases happlies : localAssessmentApplies task.labels = true
        · have hflight' : isInFlight objects issue = false := by simpa using hflight
          rw [if_pos happlies, if_pos happlies, get_passAssessments hq hflight' htask happlies]
        · rw [if_neg happlies, if_neg happlies]
      simp only [hrecord]

/-- A maintenance pass keeps every queued issue that its removal rules do not name. -/
theorem mem_maintainQueue_current {config : SupervisorConfig} {inputs : MaintenanceInputs}
    {issue : Int} (hq : issue ∈ config.taskQueue)
    (hnamed : maintenanceNames config inputs issue = false) :
    issue ∈ (maintainQueue config inputs).current := by
  unfold maintenanceNames at hnamed
  unfold maintainQueue
  dsimp only
  cases htasks : maintenanceTasks config.taskQueue inputs with
  | none => exact hq
  | some tasks =>
    simp only [htasks, Bool.or_eq_false_iff] at hnamed
    have hpruned : issue ∈ pruneDone config.taskQueue (taskObjects tasks) := by
      simp [pruneDone, hq, hnamed.1]
    refine List.mem_append_left _ ?_
    unfold pruneUnsuitable
    rw [List.mem_filter, isUnsuitable_passAssessments hpruned]
    exact ⟨hpruned, by simp [hnamed.2]⟩

/-! ## The planner -/

/-- A plan keeps every queued issue that it does not remove, whatever order it asks for. -/
theorem mem_applyPlannerQueueChanges {queue : List Int} {plan : QueuePlan} {issue : Int}
    (hq : issue ∈ queue) (hplan : issue ∉ plan.removals) :
    issue ∈ (applyPlannerQueueChanges queue plan).1 := by
  have hkept : issue ∈ queue.filter fun i => !plan.removals.contains i := by simp [hq, hplan]
  unfold applyPlannerQueueChanges
  dsimp only
  split_ifs with hreorder hsame hsub
  · exact hkept
  · -- a full reorder has the elements of the queue
    have hall := (Bool.and_eq_true_iff.mp hsame).2
    have hmem := List.all_eq_true.mp hall issue hkept
    simpa using hmem
  · by_cases hmem : issue ∈ plan.normalized
    · exact List.mem_append_left _ hmem
    · refine List.mem_append_right _ ?_
      rw [List.mem_filter]
      exact ⟨hkept, by simpa using hmem⟩
  · exact hkept

/-! ## Edits -/

theorem loadTaskQueue_eq {stored : List Int} (h : stored.all (0 < ·) = true) :
    loadTaskQueue stored = stored := by
  unfold loadTaskQueue
  rw [if_pos h]

/-- An edit that has read the issue is going to store it, unless the edit takes it out. -/
theorem mem_editedQueue {stored queue : List Int} {edit : QueueEdit} {issue : Int}
    (hpos : stored.all (0 < ·) = true) (hq : issue ∈ stored) (hkeep : editRemoves issue edit = false)
    (h : editedQueue stored edit = some queue) : issue ∈ queue := by
  have hload := loadTaskQueue_eq hpos
  cases edit with
  | setQueue issueNumbers =>
    have heq : issueNumbers.eraseDups = queue := by simpa [editedQueue] using h
    rw [← heq, List.mem_eraseDups]
    simpa [editRemoves] using hkeep
  | addToQueue issueNumber =>
    simp only [editedQueue, hload] at h
    split at h
    · cases h
    · have heq := Option.some.inj h
      rw [← heq]
      exact List.mem_append_left _ hq
  | removeFromQueue issueNumber =>
    simp only [editedQueue, hload] at h
    split at h
    · have heq := Option.some.inj h
      have hne : issue ≠ issueNumber := by
        intro hi
        simp [editRemoves, hi] at hkeep
      rw [← heq]
      exact (List.mem_erase_of_ne hne).mpr hq
    · cases h
  | clearQueue => simp [editRemoves] at hkeep
  | migrateFromToml tomlQueue =>
    -- the stored queue is not empty, so there is nothing to migrate
    have hne : stored.isEmpty = false := by
      cases stored with
      | nil => cases hq
      | cons _ _ => rfl
    simp [editedQueue, hload, hne] at h

/-- An edit in flight computed its queue from some stored queue. -/
def EditsRead (s : QueueState) : Prop :=
  ∀ edit queue, s.edit = some (.storing edit queue) → ∃ read, editedQueue read edit = some queue

/-! ## One step -/

/-- What a step does to the stored queue and to the edit in flight. -/
theorem queueStep_cases {s s' : QueueState} {a : QueueAction} (h : queueStep s a = some s') :
    (∃ edit, a = .beginEdit edit ∧ s'.stored = s.stored ∧
      s'.edit = (editedQueue s.stored edit).map (.storing edit)) ∨
    (∃ edit queue, a = .storeEdit true ∧ s.edit = some (.storing edit queue) ∧
      s'.stored = queue ∧ s'.edit = some (.stored edit)) ∨
    (s'.stored = s.stored ∧ (s'.edit = none ∨ s'.edit = s.edit)) ∨
    (∃ inputs poll, a = .maintain inputs true ∧ s.poll = some poll ∧
      s'.stored = (maintainQueue poll.cfg inputs).current ∧ s'.edit = s.edit) ∨
    (∃ p poll, a = .progress (some p) true ∧ s.poll = some poll ∧
      s'.stored = (applyPlannerQueueChanges poll.cfg.taskQueue p).1 ∧ s'.edit = s.edit) := by
  cases a with
  | beginEdit edit =>
    simp only [queueStep] at h
    split at h
    · cases h
    · cases h
      exact .inl ⟨edit, rfl, rfl, rfl⟩
  | storeEdit persisted =>
    simp only [queueStep] at h
    split at h
    · next edit queue hedit =>
      cases persisted with
      | true =>
        cases h
        exact .inr (.inl ⟨edit, queue, rfl, hedit, rfl, rfl⟩)
      | false =>
        cases h
        exact .inr (.inr (.inl ⟨rfl, .inl rfl⟩))
    · cases h
  | answerEdit notify =>
    simp only [queueStep] at h
    split at h
    · split at h
      all_goals
        cases h
        exact .inr (.inr (.inl ⟨rfl, .inl rfl⟩))
    · cases h
  | beginPoll load =>
    simp only [queueStep] at h
    split at h
    · cases h
    · cases h
      exact .inr (.inr (.inl ⟨rfl, .inr rfl⟩))
  | maintain inputs persisted =>
    simp only [queueStep] at h
    split at h
    · next poll hpoll =>
      split at h
      · cases h
        unfold maintainStep
        dsimp only
        split
        · cases persisted with
          | true => exact .inr (.inr (.inr (.inl ⟨inputs, poll, rfl, hpoll, rfl, rfl⟩)))
          | false => exact .inr (.inr (.inl ⟨rfl, .inr rfl⟩))
        · exact .inr (.inr (.inl ⟨rfl, .inr rfl⟩))
      · cases h
    · cases h
  | progress plan persisted =>
    simp only [queueStep] at h
    split at h
    · next poll hpoll =>
      split at h
      · cases h
        unfold progressStep
        split
        · exact .inr (.inr (.inl ⟨rfl, .inr rfl⟩))
        · next p hp =>
          have hplan : plan = some p := by
            unfold appliedPlan at hp
            split at hp
            · exact (Option.filter_eq_some_iff.mp hp).1
            · cases hp
          dsimp only
          split
          · cases persisted with
            | true => exact .inr (.inr (.inr (.inr ⟨p, poll, by rw [hplan], hpoll, rfl, rfl⟩)))
            | false => exact .inr (.inr (.inl ⟨rfl, .inr rfl⟩))
          · exact .inr (.inr (.inl ⟨rfl, .inr rfl⟩))
      · cases h
    · cases h
  | abortPoll =>
    simp only [queueStep, Option.map_eq_some_iff] at h
    obtain ⟨_, -, rfl⟩ := h
    exact .inr (.inr (.inl ⟨rfl, .inr rfl⟩))

theorem editsRead_step (s : QueueState) (a : QueueAction) (s' : QueueState) (hs : EditsRead s)
    (h : queueStep s a = some s') : EditsRead s' := by
  intro edit queue hedit
  rcases queueStep_cases h with ⟨e, -, -, he⟩ | ⟨e, q, -, -, -, he⟩ | ⟨-, he⟩ | ⟨_, _, -, -, -, he⟩ |
    ⟨_, _, -, -, -, he⟩
  · rw [he, Option.map_eq_some_iff] at hedit
    obtain ⟨q, hq, heq⟩ := hedit
    cases heq
    exact ⟨s.stored, hq⟩
  · rw [he] at hedit
    cases hedit
  · rcases he with he | he
    · rw [he] at hedit
      cases hedit
    · exact hs edit queue (he ▸ hedit)
  · exact hs edit queue (he ▸ hedit)
  · exact hs edit queue (he ▸ hedit)

/-- The issue is stored, and an edit in flight is going to store it unless it takes it out. -/
def Kept (issue : Int) (s : QueueState) : Prop :=
  issue ∈ s.stored ∧
    ∀ edit queue, s.edit = some (.storing edit queue) → editRemoves issue edit = false → issue ∈ queue

theorem Kept.of_edit {issue : Int} {s s' : QueueState} (hs : Kept issue s)
    (hstored : issue ∈ s'.stored) (hedit : s'.edit = none ∨ s'.edit = s.edit) : Kept issue s' := by
  refine ⟨hstored, ?_⟩
  intro edit queue hin hkeep
  rcases hedit with hnone | hsame
  · rw [hnone] at hin
    cases hin
  · exact hs.2 edit queue (hsame ▸ hin) hkeep

theorem snapshotCovers_mem {s : QueueState} {poll : Poll} {issue : Int} (hs : snapshotCovers s = true)
    (hpoll : s.poll = some poll) (hmem : issue ∈ s.stored) : issue ∈ poll.cfg.taskQueue := by
  unfold snapshotCovers at hs
  rw [hpoll] at hs
  have hall : s.stored.all poll.cfg.taskQueue.contains = true := hs
  simpa using List.all_eq_true.mp hall issue hmem

/-- A writer that has seen what is stored keeps the issue, unless it removes it by right. -/
theorem kept_step {issue : Int} (s : QueueState) (a : QueueAction) (s' : QueueState)
    (hs : Kept issue s) (hg : upToDate s a = true ∧ removes issue s a = false)
    (h : queueStep s a = some s') : Kept issue s' := by
  obtain ⟨hdate, hrem⟩ := hg
  rcases queueStep_cases h with ⟨edit, rfl, hstored, hedit⟩ | ⟨edit, queue, rfl, hin, hstored, hedit⟩ |
    ⟨hstored, hedit⟩ | ⟨inputs, poll, rfl, hpoll, hstored, hedit⟩ | ⟨p, poll, rfl, hpoll, hstored, hedit⟩
  · refine ⟨hstored ▸ hs.1, ?_⟩
    intro e q hin hkeep
    rw [hedit, Option.map_eq_some_iff] at hin
    obtain ⟨q', hq', heq⟩ := hin
    cases heq
    exact mem_editedQueue hdate hs.1 hkeep hq'
  · have hkeep : editRemoves issue edit = false := by simpa [removes, hin] using hrem
    refine ⟨hstored ▸ hs.2 edit queue hin hkeep, ?_⟩
    intro e q hin'
    rw [hedit] at hin'
    cases hin'
  · exact hs.of_edit (hstored ▸ hs.1) hedit
  · have hcovers : snapshotCovers s = true := by simpa [upToDate] using hdate
    have hnamed : maintenanceNames poll.cfg inputs issue = false := by simpa [removes, hpoll] using hrem
    have hmem := mem_maintainQueue_current (snapshotCovers_mem hcovers hpoll hs.1) hnamed
    exact hs.of_edit (hstored ▸ hmem) (.inr hedit)
  · have hcovers : snapshotCovers s = true := by simpa [upToDate] using hdate
    have hnamed : issue ∉ p.removals := by simpa [removes] using hrem
    have hmem := mem_applyPlannerQueueChanges (snapshotCovers_mem hcovers hpoll hs.1) hnamed
    exact hs.of_edit (hstored ▸ hmem) (.inr hedit)

/-- A successful add leaves the issue stored, with no other edit in flight. -/
theorem kept_of_add {issue : Int} {s t : QueueState} {a : QueueAction} (hs : EditsRead s)
    (hadd : AddSucceeds issue s a) (h : queueStep s a = some t) : Kept issue t := by
  obtain ⟨rfl, queue, hedit⟩ := hadd
  obtain ⟨read, hread⟩ := hs _ _ hedit
  have hmem : issue ∈ queue := by
    simp only [editedQueue] at hread
    split at hread
    · cases hread
    · cases hread
      simp
  simp only [queueStep, hedit, if_true, Option.some.injEq] at h
  subst h
  refine ⟨hmem, ?_⟩
  intro e q hin
  cases hin

/-- An issue whose add succeeded is still stored after every run of later edits and polls in which no
step removes it by right and every writer has seen what is stored. -/
theorem added_issue_kept {s₀ s t u : QueueState} {pre post : List QueueAction} {a : QueueAction}
    {issue : Int} (hidle : s₀.edit = none) (hpre : exec queueStep s₀ pre = some s)
    (hadd : AddSucceeds issue s a) (ha : queueStep s a = some t)
    (hpost : exec queueStep t post = some u)
    (hmeets : Meets queueStep (fun s a => upToDate s a = true ∧ removes issue s a = false) t post) :
    issue ∈ u.stored := by
  have hread₀ : EditsRead s₀ := by
    intro edit queue hin
    rw [hidle] at hin
    cases hin
  have hread : EditsRead s := invariant editsRead_step hread₀ hpre
  have hkept : Kept issue t := kept_of_add hread hadd ha
  exact (invariant_of_guard kept_step hkept hmeets hpost).1

/-- Issue 7 is queued. -/
def queuedSeven : QueueState := { stored := [7] }

/-- The tracker has closed issue 7; issue 5 is open, without a label. -/
def sevenClosed : MaintenanceInputs :=
  { listTasks := some [{ number := some 7, state := .done }, { number := some 5 }] }

/-- A request to add issue 5 has read the queue; no poll is under way. -/
def addingFive : QueueState :=
  { queuedSeven with edit := some (.storing (.addToQueue 5) [7, 5]) }

/-- Issue 5 is queued alone, after a poll. -/
def queuedFive : QueueState := { stored := [5], config := { taskQueue := [5] } }

/-- Issue 5 is added before the poll loads its config. -/
theorem added_issue_kept_sequential : (5 : Int) ∈ queuedFive.stored :=
  @added_issue_kept queuedSeven addingFive
    { addingFive with stored := [7, 5], edit := some (.stored (.addToQueue 5)) } queuedFive
    [.beginEdit (.addToQueue 5)]
    [.answerEdit none, .beginPoll (.fresh {}), .maintain sevenClosed true, .progress none true]
    (.storeEdit true) 5 rfl (by decide) ⟨rfl, _, rfl⟩ rfl (by decide) (by decide)

/-- The same state while a poll works on the config it loaded before. -/
def addingFiveDuringPoll : QueueState :=
  { addingFive with
    config := { taskQueue := [7] }
    poll := some { cfg := { taskQueue := [7] }, phase := .queueMaintenance, shared := true } }

/-- A poll that loaded its config before issue 5 was added prunes issue 7 and stores a queue without
either, although nothing removes issue 5. -/
theorem added_issue_lost_to_poll :
    ¬ ∀ (s₀ s t u : QueueState) (pre post : List QueueAction) (a : QueueAction) (issue : Int),
      s₀.edit = none → exec queueStep s₀ pre = some s → AddSucceeds issue s a →
      queueStep s a = some t → exec queueStep t post = some u →
      Meets queueStep (fun s a => removes issue s a = false) t post → issue ∈ u.stored := by
  intro hclaim
  have hlost := hclaim queuedSeven addingFiveDuringPoll
    { addingFiveDuringPoll with stored := [7, 5], edit := some (.stored (.addToQueue 5)) }
    { stored := []
      poll := some { cfg := {}, phase := .progression, shared := true } }
    [.beginPoll (.fresh {}), .beginEdit (.addToQueue 5)]
    [.answerEdit none, .maintain sevenClosed true] (.storeEdit true) 5
    rfl (by decide) ⟨rfl, _, rfl⟩ rfl (by decide) (by decide)
  exact absurd hlost (by decide)

end Supervisor

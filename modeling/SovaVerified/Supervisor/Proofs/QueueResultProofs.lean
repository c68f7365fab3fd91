import Mathlib.Data.Prod.Lex
import SovaVerified.Selection.Selection
import SovaVerified.Supervisor.Proofs.QueueMaintenanceProofs

/-!
# What a maintenance pass and a plan do to the queue

A pass leaves out entries, keeps the order of the others and appends ranked issues that were not queued;
a plan leaves out entries and rearranges the others. The save comes after the result of a pass has been
put together, and a save that fails takes back the queue of the result but not its lists of changes
(`maintainQueue_consistent_iff`).
-/

namespace Supervisor

open Adapters

/-! ## A pass -/

theorem agentEligible_without_dependencies {task : Task} {graph : Option DependencyGraph}
    {localAssessment : Option Text} {considerDependencies : Bool}
    (h : (assessSuitability task graph localAssessment considerDependencies).mode.agentEligible = true) :
    (assessSuitability task none localAssessment false).mode.agentEligible = true := by
  cases considerDependencies with
  | false => exact h
  | true =>
    have hblock := dependencyBlock_eq_none_of_agentEligible h
    unfold assessSuitability at h ⊢
    rw [if_pos rfl, hblock] at h
    exact h

theorem isDiscoverable_none {graph : Option DependencyGraph} {localAssessments : Assoc Int Text}
    {issue : Int} {task : Task} (h : isDiscoverable graph localAssessments issue task = true) :
    isDiscoverable none localAssessments issue task = true :=
  agentEligible_without_dependencies h

/-- `_sort_key`. -/
def sortKey (objects : Assoc Int Task) (issue : Int) : Nat ×ₗ Int :=
  toLex (((Assoc.get objects issue).map (·.priority.rank)).getD Priority.undefined.rank, issue)

/-- What is appended is in the order of the keys. -/
theorem pairwise_discoverReady {objects : Assoc Int Task} (hkeys : (objects.map Prod.fst).Nodup)
    (queue : List Int) (size : Int) (graph : Option DependencyGraph) (localAssessments : Assoc Int Text) :
    (discoverReady queue objects size graph localAssessments).Pairwise
      fun a b => sortKey objects a < sortKey objects b := by
  set candidates := objects.filter fun e =>
    isReadyCandidate queue e.1 e.2 && isDiscoverable graph localAssessments e.1 e.2 with hcandidates
  have hmem : ∀ e ∈ ranked candidates, Assoc.get objects e.1 = some e.2 := by
    intro e he
    have hcandidate : e ∈ candidates := (List.perm_insertionSort _ candidates).mem_iff.mp he
    exact (Assoc.mem_iff_get hkeys).mp (List.mem_of_mem_filter hcandidate)
  have hranked : ((ranked candidates).map Prod.fst).Pairwise
      fun a b => sortKey objects a < sortKey objects b := by
    rw [List.pairwise_map]
    refine (pairwise_ranked (hkeys.sublist (List.filter_sublist.map Prod.fst))).imp_of_mem ?_
    intro a b ha hb hab
    have hab : (a.2.priority.rank < b.2.priority.rank ∨
        a.2.priority.rank = b.2.priority.rank ∧ a.1 ≤ b.1) ∧ a.1 ≠ b.1 := by
      simpa [outranks, sortsBefore] using hab
    unfold sortKey
    rw [hmem a ha, hmem b hb, Prod.Lex.toLex_lt_toLex]
    show a.2.priority.rank < b.2.priority.rank ∨
      a.2.priority.rank = b.2.priority.rank ∧ a.1 < b.1
    omega
  unfold discoverReady
  dsimp only
  split_ifs
  · exact List.Pairwise.nil
  · split
    · exact hranked.sublist (List.take_sublist ..)
    · exact hranked

/-- With a bound on the size, no more is appended than there are slots. -/
theorem length_discoverReady_le {objects : Assoc Int Task} {queue : List Int} {size : Int}
    {graph : Option DependencyGraph} {localAssessments : Assoc Int Text} (h : 0 < size) :
    ((discoverReady queue objects size graph localAssessments).length : Int) ≤
      max 0 (size - queue.length) := by
  unfold discoverReady remainingCapacity
  dsimp only
  rw [if_pos h]
  split_ifs
  · exact le_max_left ..
  · have htake := List.length_take_le (size - queue.length).toNat
      (((objects.filter fun entry => isReadyCandidate queue entry.1 entry.2 &&
        isDiscoverable graph localAssessments entry.1 entry.2).insertionSort
          (sortsBefore · ·)).map Prod.fst)
    dsimp only
    omega

namespace MaintenancePass

variable (p : MaintenancePass)

def graph : Option DependencyGraph :=
  passGraph p.config p.pruned p.objects p.inputs.dependencyGraph

def added : List Int :=
  discoverReady p.suitable p.objects p.config.maxQueueSize p.graph p.localAssessments

def removed : List Int :=
  (p.config.taskQueue.filter fun issue => !p.pruned.contains issue) ++
    (p.pruned.filter fun issue => !p.suitable.contains issue)

theorem maintainQueue_eq : maintainQueue p.config p.inputs =
    { previous := p.config.taskQueue
      current := p.suitable ++ p.added
      removed := p.removed
      added := p.added
      changed := decide (p.suitable ++ p.added ≠ p.config.taskQueue) } := by
  unfold maintainQueue
  dsimp only
  rw [p.gates]
  rfl

theorem mem_pruned {issue : Int} : issue ∈ p.pruned ↔
    issue ∈ p.config.taskQueue ∧ isPrunedDone p.objects issue = false := by
  simp [pruned, pruneDone]

theorem mem_suitable {issue : Int} : issue ∈ p.suitable ↔
    issue ∈ p.pruned ∧ isUnsuitable p.objects (p.inputs.assessments.getD []) issue = false := by
  rw [p.suitable_eq]
  simp [pruneUnsuitable]

/-- An entry survives when no removal rule names it. -/
theorem mem_suitable_iff {issue : Int} : issue ∈ p.suitable ↔
    issue ∈ p.config.taskQueue ∧ maintenanceNames p.config p.inputs issue = false := by
  have hnames : maintenanceNames p.config p.inputs issue =
      (isPrunedDone p.objects issue || isUnsuitable p.objects (p.inputs.assessments.getD []) issue) := by
    unfold maintenanceNames
    rw [p.gates]
    rfl
  rw [p.mem_suitable, p.mem_pruned, hnames, Bool.or_eq_false_iff, and_assoc]

theorem suitable_eq_filter : p.suitable =
    p.config.taskQueue.filter fun issue => !maintenanceNames p.config p.inputs issue := by
  have hfilter : p.suitable = p.config.taskQueue.filter fun issue =>
      !isUnsuitable p.objects p.localAssessments issue && !isPrunedDone p.objects issue := by
    unfold suitable pruneUnsuitable pruned pruneDone
    exact List.filter_filter
  rw [hfilter]
  refine List.filter_congr fun issue hissue => ?_
  have hmem : issue ∈ p.suitable ↔ maintenanceNames p.config p.inputs issue = false := by
    rw [p.mem_suitable_iff]
    exact and_iff_right hissue
  rw [hfilter, List.mem_filter] at hmem
  rw [Bool.eq_iff_iff, Bool.not_eq_true', ← hmem]
  exact (and_iff_right hissue).symm

theorem mem_removed {issue : Int} :
    issue ∈ p.removed ↔ issue ∈ p.config.taskQueue ∧ issue ∉ p.suitable := by
  have hsub : issue ∈ p.suitable → issue ∈ p.pruned := fun h => (p.mem_suitable.mp h).1
  have hsub' : issue ∈ p.pruned → issue ∈ p.config.taskQueue := fun h => (p.mem_pruned.mp h).1
  unfold removed
  simp only [List.mem_append, List.mem_filter, List.contains_eq_mem, Bool.not_eq_true',
    decide_eq_false_iff_not]
  tauto

/-- What survives is what is not removed. -/
theorem suitable_eq_diff : p.suitable = p.config.taskQueue.filter (· ∉ p.removed) := by
  rw [p.suitable_eq_filter]
  refine List.filter_congr fun issue hissue => ?_
  have hmem : maintenanceNames p.config p.inputs issue = false ↔ issue ∉ p.removed := by
    rw [p.mem_removed, p.mem_suitable_iff]
    tauto
  rw [Bool.eq_iff_iff, Bool.not_eq_true', hmem, decide_eq_true_eq]

/-- Nothing is appended that was queued when the pass began. -/
theorem not_mem_queue_of_added {issue : Int} (h : issue ∈ p.added) : issue ∉ p.config.taskQueue := by
  obtain ⟨entry, hentry, rfl, hadmitted, -⟩ := (mem_discoverReady_iff p.nodup_keys).mp h
  obtain ⟨hready, hdisc⟩ := (Bool.and_eq_true ..).mp hadmitted
  rw [p.isReadyCandidate_suitable hentry (isDiscoverable_none hdisc)] at hready
  intro hqueued
  simp [isReadyCandidate, hqueued] at hready

/-- The survivors stand in the new queue as they stood in the old one. -/
theorem filter_current : (p.suitable ++ p.added).filter (· ∈ p.config.taskQueue) = p.suitable := by
  have hkept : p.suitable.filter (· ∈ p.config.taskQueue) = p.suitable := by
    refine List.filter_eq_self.mpr fun issue hissue => ?_
    simpa using (p.mem_suitable_iff.mp hissue).1
  have hnone : p.added.filter (· ∈ p.config.taskQueue) = [] := by
    refine List.filter_eq_nil_iff.mpr fun issue hissue => ?_
    simpa using p.not_mem_queue_of_added hissue
  rw [List.filter_append, hkept, hnone, List.append_nil]

theorem filter_previous :
    p.config.taskQueue.filter (· ∈ p.suitable ++ p.added) = p.suitable := by
  have hfilter : p.config.taskQueue.filter (· ∈ p.suitable ++ p.added) =
      p.config.taskQueue.filter fun issue => !maintenanceNames p.config p.inputs issue := by
    refine List.filter_congr fun issue hissue => ?_
    have hmem : issue ∈ p.suitable ++ p.added ↔ maintenanceNames p.config p.inputs issue = false := by
      rw [List.mem_append, or_iff_left fun h => p.not_mem_queue_of_added h hissue, p.mem_suitable_iff]
      exact and_iff_right hissue
    rw [Bool.eq_iff_iff, Bool.not_eq_true', decide_eq_true_eq, hmem]
  rw [hfilter, p.suitable_eq_filter]

end MaintenancePass

/-- A pass that a gate or the listing stops. -/
theorem maintainQueue_eq_of_stopped {config : SupervisorConfig} {inputs : MaintenanceInputs}
    (h : maintenanceTasks config.taskQueue inputs = none) :
    maintainQueue config inputs = { previous := config.taskQueue, current := config.taskQueue } := by
  unfold maintainQueue
  dsimp only
  rw [h]

theorem changed_eq (config : SupervisorConfig) (inputs : MaintenanceInputs) :
    (maintainQueue config inputs).changed =
      decide ((maintainQueue config inputs).current ≠ config.taskQueue) := by
  cases hgates : maintenanceTasks config.taskQueue inputs with
  | none =>
    rw [maintainQueue_eq_of_stopped hgates]
    simp
  | some tasks =>
    let p : MaintenancePass := ⟨config, inputs, tasks, hgates⟩
    rw [p.maintainQueue_eq]

theorem previous_eq (config : SupervisorConfig) (inputs : MaintenanceInputs) :
    (maintainQueue config inputs).previous = config.taskQueue := by
  unfold maintainQueue
  dsimp only
  split
  · rfl
  · rfl

/-- A save that fails puts the old queue into the result, and leaves the rest of it. -/
theorem maintainQueueSaved_result (config : SupervisorConfig) (inputs : MaintenanceInputs)
    (saved : Bool) : (maintainQueueSaved config inputs saved).2 =
      if saved then maintainQueue config inputs
      else { maintainQueue config inputs with current := config.taskQueue, changed := false } := by
  have hchanged := changed_eq config inputs
  unfold maintainQueueSaved
  dsimp only
  by_cases hc : (maintainQueue config inputs).changed = true
  · rw [if_pos hc]
    split_ifs
    · rfl
    · exact congrArg (fun current => { maintainQueue config inputs with current, changed := false })
        (previous_eq config inputs)
  · rw [if_neg hc]
    rw [Bool.not_eq_true] at hc
    have hsame : (maintainQueue config inputs).current = config.taskQueue := by
      simpa [hc] using hchanged.symm
    split_ifs
    · rfl
    · rw [← hsame, ← hc]

/-! ## Consistency of the result -/

/-- The four parts of a result fit together. -/
def QueueMaintenanceResult.Consistent (r : QueueMaintenanceResult) : Prop :=
  r.current = r.previous.filter (· ∉ r.removed) ++ r.added ∧
    (r.changed = true ↔ r.current ≠ r.previous)

theorem consistent_maintainQueue (config : SupervisorConfig) (inputs : MaintenanceInputs) :
    (maintainQueue config inputs).Consistent := by
  refine ⟨?_, ?_⟩
  · cases hgates : maintenanceTasks config.taskQueue inputs with
    | none =>
      rw [maintainQueue_eq_of_stopped hgates]
      simp
    | some tasks =>
      let p : MaintenancePass := ⟨config, inputs, tasks, hgates⟩
      rw [p.maintainQueue_eq]
      exact congrArg (· ++ p.added) p.suitable_eq_diff
  · rw [changed_eq, previous_eq, decide_eq_true_eq]

/-- An issue that the pass appends once it has a slot, as long as no entry is dropped. -/
def waitsForSlot (config : SupervisorConfig) (inputs : MaintenanceInputs) (entry : Int × Task) : Bool :=
  isReadyCandidate config.taskQueue entry.1 entry.2 &&
    isDiscoverable (if config.respectDependencies then inputs.dependencyGraph else none)
      (inputs.assessments.getD []) entry.1 entry.2

/-- The pass has nothing to do: no removal rule names an entry, and there is no slot or no issue to
append. -/
def LeavesQueue (config : SupervisorConfig) (inputs : MaintenanceInputs) : Prop :=
  (∀ issue ∈ config.taskQueue, maintenanceNames config inputs issue = false) ∧
    ∀ tasks, maintenanceTasks config.taskQueue inputs = some tasks →
      remainingCapacity config.maxQueueSize config.taskQueue.length = some 0 ∨
        ∀ entry ∈ taskObjects tasks, waitsForSlot config inputs entry = false

namespace MaintenancePass

variable (p : MaintenancePass)

theorem suitable_eq_queue_iff : p.suitable = p.config.taskQueue ↔
    ∀ issue ∈ p.config.taskQueue, maintenanceNames p.config p.inputs issue = false := by
  rw [p.suitable_eq_filter, List.filter_eq_self]
  exact forall₂_congr fun issue _ => Iff.of_eq (Bool.not_eq_true' _)

/-- With a slot and no entry to drop, the candidates are the issues that wait for a slot. -/
theorem admitted_eq_waitsForSlot (hkeep : p.suitable = p.config.taskQueue)
    (hslot : remainingCapacity p.config.maxQueueSize p.config.taskQueue.length ≠ some 0)
    {entry : Int × Task} (h : entry ∈ p.objects) :
    (isReadyCandidate p.suitable entry.1 entry.2 &&
        isDiscoverable p.graph p.localAssessments entry.1 entry.2) =
      waitsForSlot p.config p.inputs entry := by
  have hpruned : p.pruned = p.config.taskQueue := by
    refine List.filter_eq_self.mpr fun issue hissue => ?_
    rw [← hkeep, p.mem_suitable, p.mem_pruned] at hissue
    simp [hissue.1.2]
  unfold waitsForSlot
  rw [hkeep]
  by_cases hready : isReadyCandidate p.config.taskQueue entry.1 entry.2 = true
  · rw [hready, Bool.true_and, Bool.true_and]
    have hcandidates : readyCandidateIds p.pruned p.objects ≠ [] := by
      refine List.ne_nil_of_mem (a := entry.1) (List.mem_map.mpr ⟨entry, ?_, rfl⟩)
      rw [List.mem_filter, p.isReadyCandidate_pruned h]
      exact ⟨h, hready⟩
    have hslot' : remainingCapacity p.config.maxQueueSize p.pruned.length ≠ some 0 := by
      rwa [hpruned]
    have hgraph : p.graph = if p.config.respectDependencies then p.inputs.dependencyGraph else none := by
      simp [graph, passGraph, hslot', hcandidates]
    unfold isDiscoverable
    rw [p.applicableAssessment_of_looked_up h hready (.inl hslot'), hgraph]
  · rw [Bool.not_eq_true] at hready
    rw [hready, Bool.false_and, Bool.false_and]

theorem discoverReady_eq_nil_iff {queue : List Int} {objects : Assoc Int Task} {size : Int}
    {graph : Option DependencyGraph} {localAssessments : Assoc Int Text} :
    discoverReady queue objects size graph localAssessments = [] ↔
      remainingCapacity size queue.length = some 0 ∨ ∀ entry ∈ objects,
        (isReadyCandidate queue entry.1 entry.2 &&
          isDiscoverable graph localAssessments entry.1 entry.2) = false := by
  have hnil : ∀ candidates : Assoc Int Task,
      (candidates.insertionSort (sortsBefore · ·)).map Prod.fst = [] ↔ candidates = [] := by
    intro candidates
    rw [List.map_eq_nil_iff, ← List.length_eq_zero_iff, List.length_insertionSort,
      List.length_eq_zero_iff]
  unfold discoverReady
  dsimp only
  by_cases hfull : remainingCapacity size queue.length = some 0
  · rw [if_pos hfull]
    exact iff_of_true rfl (.inl hfull)
  · rw [if_neg hfull, or_iff_right hfull]
    have hcandidates : objects.filter (fun entry => isReadyCandidate queue entry.1 entry.2 &&
        isDiscoverable graph localAssessments entry.1 entry.2) = [] ↔ ∀ entry ∈ objects,
          (isReadyCandidate queue entry.1 entry.2 &&
            isDiscoverable graph localAssessments entry.1 entry.2) = false := by
      rw [List.filter_eq_nil_iff]
      exact forall₂_congr fun entry _ => Iff.of_eq (Bool.not_eq_true _)
    rw [← hcandidates]
    split
    · next n hn =>
      have hpos : n ≠ 0 := fun h0 => hfull (hn.trans (congrArg some h0))
      rw [List.take_eq_nil_iff, or_iff_right hpos, hnil]
    · exact hnil _

theorem changed_eq_false_iff : (maintainQueue p.config p.inputs).changed = false ↔
    LeavesQueue p.config p.inputs := by
  have hchanged : (maintainQueue p.config p.inputs).changed = false ↔
      p.suitable = p.config.taskQueue ∧ p.added = [] := by
    rw [p.maintainQueue_eq]
    show decide (p.suitable ++ p.added ≠ p.config.taskQueue) = false ↔ _
    rw [decide_eq_false_iff_not, not_not]
    constructor
    · intro h
      have hadded : p.added = [] := by
        refine List.eq_nil_iff_forall_not_mem.mpr fun issue hissue => ?_
        refine p.not_mem_queue_of_added hissue ?_
        rw [← h]
        exact List.mem_append_right _ hissue
      rw [hadded, List.append_nil] at h
      exact ⟨h, hadded⟩
    · rintro ⟨hsuitable, hadded⟩
      rw [hsuitable, hadded, List.append_nil]
  have htasks : ∀ P : List Task → Prop,
      (∀ tasks, maintenanceTasks p.config.taskQueue p.inputs = some tasks → P tasks) ↔ P p.tasks := by
    intro P
    rw [p.gates]
    exact ⟨fun h => h _ rfl, fun h tasks htasks => Option.some.inj htasks ▸ h⟩
  unfold LeavesQueue
  rw [hchanged, htasks, ← p.suitable_eq_queue_iff]
  refine and_congr_right fun hkeep => ?_
  unfold added
  rw [discoverReady_eq_nil_iff, hkeep]
  by_cases hslot : remainingCapacity p.config.maxQueueSize p.config.taskQueue.length = some 0
  · exact iff_of_true (.inl hslot) (.inl hslot)
  · rw [or_iff_right hslot, or_iff_right hslot]
    refine forall₂_congr fun entry hentry => ?_
    have hadmitted := p.admitted_eq_waitsForSlot hkeep hslot hentry
    rw [hkeep] at hadmitted
    rw [hadmitted]

end MaintenancePass

/-- The result of a pass fits together when the save goes through, and otherwise exactly when there was
nothing to save. -/
theorem maintainQueue_consistent_iff (config : SupervisorConfig) (inputs : MaintenanceInputs)
    (saved : Bool) : (maintainQueueSaved config inputs saved).2.Consistent ↔
      saved = true ∨ LeavesQueue config inputs := by
  rw [maintainQueueSaved_result]
  by_cases hsaved : saved = true
  · rw [if_pos hsaved]
    exact iff_of_true (consistent_maintainQueue config inputs) (.inl hsaved)
  · rw [if_neg hsaved, or_iff_right hsaved]
    cases hgates : maintenanceTasks config.taskQueue inputs with
    | none =>
      rw [maintainQueue_eq_of_stopped hgates]
      refine iff_of_true ⟨?_, ?_⟩ ⟨?_, ?_⟩
      · simp
      · simp
      · intro issue _
        unfold maintenanceNames
        rw [hgates]
      · intro tasks htasks
        rw [hgates] at htasks
        cases htasks
    | some tasks =>
      let p : MaintenancePass := ⟨config, inputs, tasks, hgates⟩
      have hleaves := p.changed_eq_false_iff
      rw [← hleaves]
      constructor
      · -- Neither list of changes can hold an issue: what is added was not queued, what is removed was.
        rintro ⟨hcurrent, -⟩
        rw [p.maintainQueue_eq] at hcurrent ⊢
        have hcurrent : config.taskQueue = config.taskQueue.filter (· ∉ p.removed) ++ p.added :=
          hcurrent
        have hadded : p.added = [] := by
          refine List.eq_nil_iff_forall_not_mem.mpr fun issue hissue => ?_
          refine p.not_mem_queue_of_added hissue ?_
          show issue ∈ config.taskQueue
          rw [hcurrent]
          exact List.mem_append_right _ hissue
        rw [hadded, List.append_nil] at hcurrent
        have hsame : p.suitable = config.taskQueue := p.suitable_eq_diff.trans hcurrent.symm
        simp [hsame, hadded, p]
      · intro hchanged
        have hcurrent : (maintainQueue config inputs).current = config.taskQueue := by
          rw [changed_eq] at hchanged
          simpa using hchanged
        have hconsistent := consistent_maintainQueue config inputs
        refine ⟨?_, ?_⟩
        · rw [← hcurrent]
          exact hconsistent.1
        · show false = true ↔ config.taskQueue ≠ (maintainQueue config inputs).previous
          rw [previous_eq]
          simp

/-! The done issue is replaced by a ready one, and the save fails. -/

def mixedQueue : SupervisorConfig := { taskQueue := [10, 20] }

def mixedTasks : List Task :=
  [{ number := some 10, state := .done }, { number := some 20, state := .researched },
    { number := some 30, state := .researched }]

theorem maintainQueue_inconsistent_unsaved :
    ¬∀ (config : SupervisorConfig) (inputs : MaintenanceInputs) (saved : Bool),
      (maintainQueueSaved config inputs saved).2.Consistent := by
  intro h
  have hcurrent := (h mixedQueue { listTasks := some mixedTasks } false).1
  revert hcurrent
  decide

/-! ## The frame of a pass -/

/-- What a pass leaves alone, and how it appends. -/
structure QueueFrame (config : SupervisorConfig) (inputs : MaintenanceInputs)
    (r : QueueMaintenanceResult) : Prop where
  /-- The survivors keep their order. -/
  order : r.current.filter (· ∈ r.previous) = r.previous.filter (· ∈ r.current)
  inFlight : ∀ tasks, inputs.listTasks = some tasks → ∀ issue ∈ r.previous,
    isInFlight (taskObjects tasks) issue = true → issue ∈ r.current
  added_new : ∀ issue ∈ r.added, issue ∉ r.previous
  added_sorted : ∀ tasks, inputs.listTasks = some tasks →
    r.added.Pairwise fun a b => sortKey (taskObjects tasks) a < sortKey (taskObjects tasks) b
  length_le : 0 < config.maxQueueSize → (r.current.length : Int) ≤
    max ((r.previous.filter (· ∈ r.current)).length : Int) config.maxQueueSize

/-- Every entry that is done, for humans only or missing from the tracker is removed. -/
def Prunes (inputs : MaintenanceInputs) (r : QueueMaintenanceResult) : Prop :=
  ∀ tasks, inputs.listTasks = some tasks → ∀ issue ∈ r.previous,
    isPrunedDone (taskObjects tasks) issue = true → issue ∉ r.current

/-- What holds of a result whose queue is the old one. -/
theorem QueueFrame.of_unchanged {config : SupervisorConfig} {inputs : MaintenanceInputs}
    {r : QueueMaintenanceResult} (h : r.current = r.previous)
    (hnew : ∀ issue ∈ r.added, issue ∉ r.previous)
    (hsorted : ∀ tasks, inputs.listTasks = some tasks → r.added.Pairwise fun a b =>
      sortKey (taskObjects tasks) a < sortKey (taskObjects tasks) b) : QueueFrame config inputs r := by
  have hall : r.previous.filter (· ∈ r.previous) = r.previous :=
    List.filter_eq_self.mpr fun issue hissue => by simpa using hissue
  refine ⟨?_, ?_, hnew, hsorted, ?_⟩
  · rw [h]
  · intro tasks _ issue hissue _
    rw [h]
    exact hissue
  · intro _
    rw [h, hall]
    exact le_max_left ..

theorem listTasks_of_maintenanceTasks {queue : List Int} {inputs : MaintenanceInputs}
    {tasks : List Task} (h : maintenanceTasks queue inputs = some tasks) :
    inputs.listTasks = some tasks := by
  unfold maintenanceTasks at h
  split_ifs at h
  split at h
  · cases h
  · next listed hlisted =>
    split_ifs at h
    rw [hlisted, h]

namespace MaintenancePass

variable (p : MaintenancePass)

theorem tasks_eq {tasks : List Task} (h : p.inputs.listTasks = some tasks) : tasks = p.tasks :=
  Option.some.inj (h.symm.trans (listTasks_of_maintenanceTasks p.gates))

theorem not_pruned_of_inFlight {issue : Int} (h : isInFlight p.objects issue = true) :
    isPrunedDone p.objects issue = false ∧
      isUnsuitable p.objects (p.inputs.assessments.getD []) issue = false := by
  refine ⟨?_, ?_⟩
  · unfold isInFlight at h
    unfold isPrunedDone
    cases hstate : taskState p.objects issue with
    | none => simp [hstate] at h
    | some state =>
      simp only [hstate] at h
      cases state <;> first | rfl | cases h
  · unfold isUnsuitable
    rw [if_pos h]

theorem frame : QueueFrame p.config p.inputs (maintainQueue p.config p.inputs) := by
  rw [p.maintainQueue_eq]
  refine ⟨?_, ?_, ?_, ?_, ?_⟩
  · exact p.filter_current.trans p.filter_previous.symm
  · intro tasks htasks issue hissue hflight
    rw [p.tasks_eq htasks] at hflight
    obtain ⟨hdone, hsuitable⟩ := p.not_pruned_of_inFlight hflight
    exact List.mem_append_left _ (p.mem_suitable.mpr ⟨p.mem_pruned.mpr ⟨hissue, hdone⟩, hsuitable⟩)
  · exact fun issue hissue => p.not_mem_queue_of_added hissue
  · intro tasks htasks
    rw [p.tasks_eq htasks]
    exact pairwise_discoverReady p.nodup_keys _ _ _ _
  · intro hsize
    have hadded : (p.added.length : Int) ≤ max 0 (p.config.maxQueueSize - p.suitable.length) :=
      length_discoverReady_le hsize
    dsimp only
    rw [p.filter_previous, List.length_append]
    omega

theorem prunes : Prunes p.inputs (maintainQueue p.config p.inputs) := by
  intro tasks htasks issue hissue hdone
  rw [p.tasks_eq htasks] at hdone
  rw [p.maintainQueue_eq] at hissue ⊢
  intro hmem
  rcases List.mem_append.mp hmem with hmem | hmem
  · have hkept := (p.mem_pruned.mp (p.mem_suitable.mp hmem).1).2
    exact absurd (hdone.symm.trans hkept) (by simp)
  · exact p.not_mem_queue_of_added hmem hissue

end MaintenancePass

/-- Whatever the tracker lists and whether or not the save goes through, a pass leaves the survivors in
order and appends ranked new issues within the bound. It prunes unless it is stopped or the save fails,
and then the queue stays as it was. -/
theorem maintainQueue_frame (config : SupervisorConfig) (inputs : MaintenanceInputs) (saved : Bool) :
    QueueFrame config inputs (maintainQueueSaved config inputs saved).2 ∧
      (saved = true → (maintenanceTasks config.taskQueue inputs).isSome = true →
        Prunes inputs (maintainQueueSaved config inputs saved).2) ∧
      (saved = false ∨ maintenanceTasks config.taskQueue inputs = none →
        (maintainQueueSaved config inputs saved).2.current = config.taskQueue) := by
  rw [maintainQueueSaved_result]
  cases hgates : maintenanceTasks config.taskQueue inputs with
  | none =>
    have hresult : (if saved then maintainQueue config inputs
        else { maintainQueue config inputs with current := config.taskQueue, changed := false }) =
          { previous := config.taskQueue, current := config.taskQueue } := by
      rw [maintainQueue_eq_of_stopped hgates]
      split_ifs
      · rfl
      · rfl
    rw [hresult]
    refine ⟨QueueFrame.of_unchanged rfl ?_ ?_, ?_, fun _ => rfl⟩
    · intro issue hissue
      cases hissue
    · intro _ _
      exact List.Pairwise.nil
    · intro _ h
      cases h
  | some tasks =>
    let p : MaintenancePass := ⟨config, inputs, tasks, hgates⟩
    have hframe := p.frame
    by_cases hsaved : saved = true
    · rw [if_pos hsaved]
      refine ⟨hframe, fun _ _ => p.prunes, ?_⟩
      rintro (h | h)
      · rw [hsaved] at h
        cases h
      · cases h
    · rw [if_neg hsaved]
      refine ⟨QueueFrame.of_unchanged ?_ hframe.added_new hframe.added_sorted, ?_, fun _ => rfl⟩
      · exact (previous_eq config inputs).symm
      · exact fun h => absurd h hsaved

/-- A tracker that lists nothing leaves the queue as it is, though every entry is missing from it. -/
theorem maintainQueue_keeps_missing :
    ¬∀ (config : SupervisorConfig) (inputs : MaintenanceInputs) (saved : Bool),
      QueueFrame config inputs (maintainQueueSaved config inputs saved).2 ∧
        Prunes inputs (maintainQueueSaved config inputs saved).2 := by
  intro h
  have hpruned := (h { taskQueue := [1] } { listTasks := some [] } true).2 [] rfl 1
  revert hpruned
  decide

/-! ## A plan -/

theorem nodup_normalized (plan : QueuePlan) : plan.normalized.Nodup := Selection.nodup_eraseDups _

/-- A plan keeps what it does not remove, in some order. -/
theorem applyPlannerQueueChanges_perm {queue : List Int} (h : queue.Nodup) (plan : QueuePlan) :
    (applyPlannerQueueChanges queue plan).1.Perm (queue.filter (· ∉ plan.removals)) := by
  have hkept : (queue.filter fun issue => !plan.removals.contains issue) =
      queue.filter (· ∉ plan.removals) := by
    refine List.filter_congr fun issue _ => ?_
    simp
  have hnodup : (queue.filter (· ∉ plan.removals)).Nodup := h.filter _
  unfold applyPlannerQueueChanges
  dsimp only
  rw [hkept]
  split_ifs with hreorder hsame hsub
  · exact List.Perm.refl _
  · -- a full reorder
    refine (List.perm_ext_iff_of_nodup (nodup_normalized plan) hnodup).mpr fun issue => ?_
    obtain ⟨hleft, hright⟩ := (Bool.and_eq_true ..).mp hsame
    rw [List.all_eq_true] at hleft hright
    exact ⟨fun hi => by simpa using hleft issue hi, fun hi => by simpa using hright issue hi⟩
  · -- a partial one: the entries it names come first, the rest keeps its order
    rw [List.all_eq_true] at hsub
    have hrest : (plan.normalized ++ (queue.filter (· ∉ plan.removals)).filter
        fun issue => !plan.normalized.contains issue).Nodup := by
      rw [List.nodup_append]
      refine ⟨nodup_normalized plan, hnodup.filter _, ?_⟩
      intro a ha b hb hab
      have hnamed := (List.mem_filter.mp hb).2
      rw [← hab] at hnamed
      simp [ha] at hnamed
    refine (List.perm_ext_iff_of_nodup hrest hnodup).mpr fun issue => ?_
    rw [List.mem_append, List.mem_filter]
    constructor
    · rintro (hi | hi)
      · simpa using hsub issue hi
      · exact hi.1
    · intro hi
      by_cases hnamed : issue ∈ plan.normalized
      · exact .inl hnamed
      · exact .inr ⟨hi, by simpa using hnamed⟩
  · exact List.Perm.refl _

/-- A plan that does not count as a change leaves the queue as it is. -/
theorem applyPlannerQueueChanges_unchanged {queue : List Int} {plan : QueuePlan}
    (h : (applyPlannerQueueChanges queue plan).2 = false) :
    (applyPlannerQueueChanges queue plan).1 = queue := by
  have hkept : ((queue.filter fun issue => !plan.removals.contains issue).length != queue.length) = false →
      (queue.filter fun issue => !plan.removals.contains issue) = queue := by
    intro hlength
    rw [bne_eq_false_iff_eq] at hlength
    exact List.filter_sublist.eq_of_length hlength
  unfold applyPlannerQueueChanges at h ⊢
  dsimp only at h ⊢
  split_ifs at h ⊢
  · exact hkept h
  · exact hkept h

/-- A plan stores a rearrangement of the queue without its removals; when the save fails, nothing
happens to the queue. -/
theorem applyPlannerQueueChangesSaved_perm (config : SupervisorConfig) (plan : QueuePlan)
    (saved : Bool) (h : config.taskQueue.Nodup) :
    ∃ queue, applyPlannerQueueChangesSaved config plan saved =
        ({ config with taskQueue := queue }, queue) ∧
      (saved = true → queue.Perm (config.taskQueue.filter (· ∉ plan.removals))) ∧
      (saved = false → queue = config.taskQueue) := by
  have hperm := applyPlannerQueueChanges_perm h plan
  unfold applyPlannerQueueChangesSaved
  dsimp only
  by_cases hchanged : (applyPlannerQueueChanges config.taskQueue plan).2 = true
  · rw [if_pos hchanged]
    cases saved with
    | true => exact ⟨_, rfl, fun _ => hperm, fun hfailed => absurd hfailed.symm Bool.false_ne_true⟩
    | false => exact ⟨_, rfl, fun hsaved => absurd hsaved Bool.false_ne_true, fun _ => rfl⟩
  · rw [Bool.not_eq_true] at hchanged
    have hsame := applyPlannerQueueChanges_unchanged hchanged
    rw [hsame] at hperm
    rw [hchanged, hsame, if_neg (by simp)]
    exact ⟨config.taskQueue, rfl, fun _ => hperm, fun _ => rfl⟩

/-- A plan with an unknown issue, a repeated one and one that it removes itself. -/
theorem applyPlannerQueueChangesSaved_overlapping :
    ∃ queue, applyPlannerQueueChangesSaved { taskQueue := [10, 20, 30] }
        { removals := [20, 99], reorder := [30, 20, 30] } true =
          ({ taskQueue := queue }, queue) ∧
      (true = true → queue.Perm (([10, 20, 30] : List Int).filter (· ∉ ([20, 99] : List Int)))) ∧
      (true = false → queue = [10, 20, 30]) :=
  applyPlannerQueueChangesSaved_perm { taskQueue := [10, 20, 30] }
    { removals := [20, 99], reorder := [30, 20, 30] } true (by decide)

end Supervisor

import SovaVerified.Selection.Selection
import SovaVerified.Supervisor.Proofs.TaskQueueProofs

/-!
# Whether a maintenance pass respects dependencies

The dependency graph is built only when the queue has a free slot once the done entries are gone. The
entries that are no longer suitable go after that, so they can free a slot that is then filled without
a graph. `maintainQueue_respects_iff` says exactly when that lets an issue with an unsatisfied
dependency in.
-/

namespace Supervisor

open Adapters Selection

/-- The pass appends only issues without an unsatisfied dependency in the graph. -/
def RespectsDependencies (config : SupervisorConfig) (inputs : MaintenanceInputs)
    (graph : DependencyGraph) : Prop :=
  ∀ issue ∈ (maintainQueue config { inputs with dependencyGraph := some graph }).added,
    (unsatisfiedDependencies issue (some graph)).getD [] = []

/-! ## The tasks of the tracker -/

theorem taskObjects_induction {P : Assoc Int Task → Prop} (hnil : P [])
    (hput : ∀ m n task, task.number = some n → P m → P (Assoc.put m n task)) (tasks : List Task) :
    P (taskObjects tasks) := by
  unfold taskObjects
  refine List.foldlRecOn (motive := P) tasks _ hnil fun m hm task _ => ?_
  cases hn : task.number with
  | none => exact hm
  | some n => exact hput m n task hn hm

theorem nodup_keys_taskObjects (tasks : List Task) : ((taskObjects tasks).map Prod.fst).Nodup := by
  refine taskObjects_induction (P := fun m => (m.map Prod.fst).Nodup) ?_ ?_ tasks
  · exact List.nodup_nil
  · intro m n task _ hm
    have hdel : ((Assoc.del m n).map Prod.fst).Nodup :=
      hm.sublist (List.filter_sublist.map Prod.fst)
    unfold Assoc.put
    rw [List.map_cons, List.nodup_cons]
    refine ⟨?_, hdel⟩
    intro hmem
    obtain ⟨e, he, hkey⟩ := List.mem_map.mp hmem
    exact (Assoc.mem_del.mp he).2 hkey

theorem number_of_mem_taskObjects {tasks : List Task} {entry : Int × Task}
    (h : entry ∈ taskObjects tasks) : entry.2.number = some entry.1 := by
  revert entry
  refine taskObjects_induction (P := fun m => ∀ {entry}, entry ∈ m → entry.2.number = some entry.1)
    ?_ ?_ tasks
  · intro entry h
    cases h
  · intro m n task hn hm entry h
    rcases Assoc.mem_put.mp h with rfl | ⟨h, -⟩
    · exact hn
    · exact hm h

/-! ## What is discovered -/

/-- Of two entries of the tracker, the first is appended before the second. -/
def outranks (a b : Int × Task) : Bool := sortsBefore a b && !(a.1 == b.1)

theorem outranks_irrefl (a : Int × Task) : outranks a a = false := by
  simp [outranks]

theorem outranks_asymm (a b : Int × Task) (h : outranks a b = true) : outranks b a = false := by
  simp only [outranks, sortsBefore, Bool.and_eq_true, Bool.or_eq_true, decide_eq_true_eq,
    beq_iff_eq, Bool.not_eq_true', beq_eq_false_iff_ne, Bool.and_eq_false_iff,
    Bool.or_eq_false_iff, decide_eq_false_iff_not, Bool.not_eq_false'] at h ⊢
  omega

/-- The candidates in the order in which they are appended. -/
def ranked (candidates : Assoc Int Task) : Assoc Int Task :=
  candidates.insertionSort (sortsBefore · ·)

theorem pairwise_ranked {candidates : Assoc Int Task} (h : (candidates.map Prod.fst).Nodup) :
    (ranked candidates).Pairwise fun a b => outranks a b = true := by
  have htotal : ∀ a b : Int × Task, sortsBefore a b = true ∨ sortsBefore b a = true := by
    intro a b
    simp only [sortsBefore, Bool.or_eq_true, Bool.and_eq_true, decide_eq_true_eq, beq_iff_eq]
    omega
  have htrans : ∀ a b c : Int × Task, sortsBefore a b = true → sortsBefore b c = true →
      sortsBefore a c = true := by
    intro a b c hab hbc
    simp only [sortsBefore, Bool.or_eq_true, Bool.and_eq_true, decide_eq_true_eq, beq_iff_eq]
      at hab hbc ⊢
    omega
  have : Std.Total fun a b : Int × Task => sortsBefore a b = true := ⟨htotal⟩
  have : IsTrans (Int × Task) fun a b => sortsBefore a b = true := ⟨htrans⟩
  have hperm : (ranked candidates).Perm candidates := List.perm_insertionSort _ candidates
  have hkeys : (ranked candidates).Pairwise fun a b => a.1 ≠ b.1 :=
    List.pairwise_map.mp ((hperm.map Prod.fst).nodup_iff.mpr h)
  have hsorted : (ranked candidates).Pairwise fun a b => sortsBefore a b = true :=
    List.pairwise_insertionSort _ candidates
  refine hsorted.imp₂ ?_ hkeys
  intro a b hab hne
  simp [outranks, hab, hne]

/-- An issue is appended when it is a candidate that passes the classifier, and the better ranked ones
leave a slot for it. -/
theorem mem_discoverReady_iff {queue : List Int} {objects : Assoc Int Task} {size : Int}
    {graph : Option DependencyGraph} {localAssessments : Assoc Int Text} {issue : Int}
    (hkeys : (objects.map Prod.fst).Nodup) :
    issue ∈ discoverReady queue objects size graph localAssessments ↔
      ∃ entry ∈ objects, entry.1 = issue ∧
        (isReadyCandidate queue entry.1 entry.2 &&
          isDiscoverable graph localAssessments entry.1 entry.2) = true ∧
        (0 < size → ((objects.countP fun e => outranks e entry &&
          (isReadyCandidate queue e.1 e.2 && isDiscoverable graph localAssessments e.1 e.2) : Nat)
            + queue.length : Int) < size) := by
  set candidates := objects.filter fun e =>
    isReadyCandidate queue e.1 e.2 && isDiscoverable graph localAssessments e.1 e.2 with hcandidates
  have hperm : (ranked candidates).Perm candidates := List.perm_insertionSort _ candidates
  have hnodup : (candidates.map Prod.fst).Nodup :=
    hkeys.sublist (List.filter_sublist.map Prod.fst)
  have hmem : ∀ entry, entry ∈ ranked candidates ↔ entry ∈ objects ∧
      (isReadyCandidate queue entry.1 entry.2 &&
        isDiscoverable graph localAssessments entry.1 entry.2) = true := by
    intro entry
    rw [hperm.mem_iff, hcandidates, List.mem_filter]
  have hcount : ∀ entry, (ranked candidates).countP (outranks · entry) = objects.countP fun e =>
      outranks e entry && (isReadyCandidate queue e.1 e.2 &&
        isDiscoverable graph localAssessments e.1 e.2) := by
    intro entry
    rw [hperm.countP_eq, hcandidates, List.countP_filter]
  unfold discoverReady remainingCapacity
  by_cases hsize : 0 < size
  · simp only [gt_iff_lt, if_pos hsize, Option.some.injEq]
    by_cases hfull : (size - queue.length).toNat = 0
    · rw [if_pos hfull]
      refine iff_of_false List.not_mem_nil ?_
      rintro ⟨entry, -, -, -, hslot⟩
      have := hslot hsize
      omega
    · rw [if_neg hfull]
      show issue ∈ ((ranked candidates).map Prod.fst).take _ ↔ _
      rw [← List.map_take, List.mem_map]
      simp only [mem_take_iff_countP outranks_irrefl outranks_asymm (pairwise_ranked hnodup),
        hmem, hcount]
      constructor
      · rintro ⟨entry, ⟨⟨hobj, hadm⟩, hslot⟩, rfl⟩
        exact ⟨entry, hobj, rfl, hadm, fun _ => by omega⟩
      · rintro ⟨entry, hobj, rfl, hadm, hslot⟩
        have := hslot hsize
        exact ⟨entry, ⟨⟨hobj, hadm⟩, by omega⟩, rfl⟩
  · simp only [gt_iff_lt, if_neg hsize, reduceCtorEq, if_false]
    show issue ∈ (ranked candidates).map Prod.fst ↔ _
    rw [List.mem_map]
    simp only [hmem]
    constructor
    · rintro ⟨entry, ⟨hobj, hadm⟩, rfl⟩
      exact ⟨entry, hobj, rfl, hadm, fun h => absurd h hsize⟩
    · rintro ⟨entry, hobj, rfl, hadm, -⟩
      exact ⟨entry, ⟨hobj, hadm⟩, rfl⟩

/-! ## Candidates -/

/-- An issue of the tracker that no label and no local record withholds. -/
def isEligible (store : Option (Assoc Int Text)) (entry : Int × Task) : Bool :=
  (assessSuitability entry.2 none (applicableAssessment (store.getD []) entry.1 entry.2)
    false).mode.agentEligible

/-- An issue that waits for a slot, dependencies left aside. -/
def isWaiting (queue : List Int) (store : Option (Assoc Int Text)) (entry : Int × Task) : Bool :=
  isReadyCandidate queue entry.1 entry.2 && isEligible store entry

theorem dependencyBlock_eq_none_of_agentEligible {task : Task} {graph : Option DependencyGraph}
    {localAssessment : Option Text}
    (h : (assessSuitability task graph localAssessment true).mode.agentEligible = true) :
    dependencyBlock task graph = none := by
  cases hblock : dependencyBlock task graph with
  | none => rfl
  | some blocked =>
    have hmode : blocked.mode = .blocked := by
      unfold dependencyBlock at hblock
      split at hblock
      · cases hblock
        rfl
      · cases hblock
      · cases hblock
        rfl
    unfold assessSuitability at h
    simp only [hblock, if_true] at h
    split_ifs at h
    all_goals simp [SuitabilityMode.agentEligible, hmode] at h

/-- A candidate that was classified with a graph has no unsatisfied dependency in it. -/
theorem unsatisfied_of_isDiscoverable {graph : DependencyGraph} {localAssessments : Assoc Int Text}
    {entry : Int × Task} (hnumber : entry.2.number = some entry.1)
    (h : isDiscoverable (some graph) localAssessments entry.1 entry.2 = true) :
    (unsatisfiedDependencies entry.1 (some graph)).getD [] = [] := by
  by_cases hnode : graph.hasTask entry.1 = true
  · unfold isDiscoverable at h
    simp only [Option.any_some, hnode] at h
    have hblock := dependencyBlock_eq_none_of_agentEligible h
    unfold dependencyBlock taskDependencies at hblock
    rw [hnumber, Option.bind_some] at hblock
    split at hblock
    · cases hblock
    · next hnil => rw [hnil]; rfl
    · cases hblock
  · unfold unsatisfiedDependencies
    simp only [if_neg hnode]
    rfl

/-- What a pass on the given tasks works with. -/
structure MaintenancePass where
  config : SupervisorConfig
  inputs : MaintenanceInputs
  tasks : List Task
  gates : maintenanceTasks config.taskQueue inputs = some tasks

namespace MaintenancePass

variable (p : MaintenancePass)

def objects : Assoc Int Task := taskObjects p.tasks

/-- The queue without the issues that are done. -/
def pruned : List Int := pruneDone p.config.taskQueue p.objects

def localAssessments : Assoc Int Text :=
  passAssessments p.pruned p.objects p.config.maxQueueSize p.inputs.assessments

/-- The queue that is filled up. -/
def suitable : List Int := pruneUnsuitable p.pruned p.objects p.localAssessments

theorem added_eq (graph : DependencyGraph) :
    (maintainQueue p.config { p.inputs with dependencyGraph := some graph }).added =
      discoverReady p.suitable p.objects p.config.maxQueueSize
        (passGraph p.config p.pruned p.objects (some graph)) p.localAssessments := by
  have htasks : maintenanceTasks p.config.taskQueue
      { p.inputs with dependencyGraph := some graph } = some p.tasks := p.gates
  unfold maintainQueue
  dsimp only
  rw [htasks]
  rfl

theorem suitable_eq : p.suitable =
    pruneUnsuitable p.pruned p.objects (p.inputs.assessments.getD []) := by
  refine List.filter_congr fun issue hissue => ?_
  rw [localAssessments, isUnsuitable_passAssessments hissue]

theorem nodup_keys : (p.objects.map Prod.fst).Nodup := nodup_keys_taskObjects p.tasks

theorem get_objects {entry : Int × Task} (h : entry ∈ p.objects) :
    Assoc.get p.objects entry.1 = some entry.2 :=
  (Assoc.mem_iff_get p.nodup_keys).mp h

/-- A ready issue that was queued is still queued without the issues that are done. -/
theorem isReadyCandidate_pruned {entry : Int × Task} (h : entry ∈ p.objects) :
    isReadyCandidate p.pruned entry.1 entry.2 =
      isReadyCandidate p.config.taskQueue entry.1 entry.2 := by
  unfold isReadyCandidate
  by_cases hready : readyStates.contains entry.2.state = true
  · have hkept : isPrunedDone p.objects entry.1 = false := by
      have hstate : entry.2.state = .researched := by simpa [readyStates] using hready
      simp [isPrunedDone, taskState, p.get_objects h, hstate, doneStates]
    have hmem : entry.1 ∈ p.pruned ↔ entry.1 ∈ p.config.taskQueue := by
      simp [pruned, pruneDone, hkept]
    simp only [hready, Bool.true_and, List.contains_eq_mem, hmem]
  · rw [Bool.eq_false_iff.mpr hready, Bool.false_and, Bool.false_and]

/-- A pass without a graph does not append again what it has just dropped. -/
theorem isReadyCandidate_suitable {entry : Int × Task} (h : entry ∈ p.objects)
    (hdisc : isDiscoverable none p.localAssessments entry.1 entry.2 = true) :
    isReadyCandidate p.suitable entry.1 entry.2 =
      isReadyCandidate p.config.taskQueue entry.1 entry.2 := by
  rw [← p.isReadyCandidate_pruned h]
  have hkept : isUnsuitable p.objects p.localAssessments entry.1 = false := by
    unfold isUnsuitable
    rw [p.get_objects h]
    split
    · rfl
    · exact congrArg Bool.not hdisc
  have hmem : entry.1 ∈ p.suitable ↔ entry.1 ∈ p.pruned := by
    simp [suitable, pruneUnsuitable, hkept]
  simp only [isReadyCandidate, List.contains_eq_mem, hmem]

/-- The local records of all candidates are looked up as soon as there is a slot or an entry to check
again. -/
theorem applicableAssessment_of_looked_up {entry : Int × Task} (h : entry ∈ p.objects)
    (hready : isReadyCandidate p.config.taskQueue entry.1 entry.2 = true)
    (hlooked : remainingCapacity p.config.maxQueueSize p.pruned.length ≠ some 0 ∨
      (p.pruned.filter fun issue => !isInFlight p.objects issue) ≠ []) :
    applicableAssessment p.localAssessments entry.1 entry.2 =
      applicableAssessment (p.inputs.assessments.getD []) entry.1 entry.2 := by
  have hcandidate : entry.1 ∈ readyCandidateIds p.pruned p.objects := by
    refine List.mem_map.mpr ⟨entry, List.mem_filter.mpr ⟨h, ?_⟩, rfl⟩
    rw [p.isReadyCandidate_pruned h]
    exact hready
  unfold applicableAssessment
  by_cases happlies : localAssessmentApplies entry.2.labels = true
  · rw [if_pos happlies, if_pos happlies]
    unfold localAssessments passAssessments resolveLocalAssessments
    cases p.inputs.assessments with
    | none => rfl
    | some records =>
      refine Assoc.get_filter_key records ?_
      rw [List.contains_iff_mem, List.mem_filter, if_pos hlooked]
      exact ⟨List.mem_append_left _ hcandidate, by simp [p.get_objects h, happlies]⟩
  · rw [if_neg happlies, if_neg happlies]

/-- When dropping an issue frees a slot, the local records of all candidates were looked up. -/
theorem applicableAssessment_eq {entry : Int × Task} (h : entry ∈ p.objects)
    (hready : isReadyCandidate p.config.taskQueue entry.1 entry.2 = true)
    (hfreed : p.suitable.length < p.pruned.length) :
    applicableAssessment p.localAssessments entry.1 entry.2 =
      applicableAssessment (p.inputs.assessments.getD []) entry.1 entry.2 := by
  refine p.applicableAssessment_of_looked_up h hready (.inr fun hnil => ?_)
  have hall : p.suitable = p.pruned := by
    refine List.filter_eq_self.mpr fun issue hissue => ?_
    have hflight : isInFlight p.objects issue = true := by
      simpa using List.filter_eq_nil_iff.mp hnil issue hissue
    simp [isUnsuitable, hflight]
  rw [hall] at hfreed
  exact absurd hfreed (lt_irrefl _)

/-- The candidates that a pass without a graph chooses from, once a slot was freed. -/
theorem admitted_eq {entry : Int × Task} (h : entry ∈ p.objects)
    (hfreed : p.suitable.length < p.pruned.length) :
    (isReadyCandidate p.suitable entry.1 entry.2 &&
        isDiscoverable none p.localAssessments entry.1 entry.2) =
      isWaiting p.config.taskQueue p.inputs.assessments entry := by
  have hsame : isReadyCandidate p.config.taskQueue entry.1 entry.2 = true →
      isDiscoverable none p.localAssessments entry.1 entry.2 =
        isEligible p.inputs.assessments entry := by
    intro hready
    unfold isDiscoverable isEligible
    rw [p.applicableAssessment_eq h hready hfreed]
    rfl
  unfold isWaiting
  rw [Bool.eq_iff_iff, Bool.and_eq_true, Bool.and_eq_true]
  constructor
  · rintro ⟨hready, hdisc⟩
    rw [p.isReadyCandidate_suitable h hdisc] at hready
    exact ⟨hready, hsame hready ▸ hdisc⟩
  · rintro ⟨hready, heligible⟩
    have hdisc := (hsame hready).trans heligible
    exact ⟨(p.isReadyCandidate_suitable h hdisc).trans hready, hdisc⟩

end MaintenancePass

/-! ## Dependencies -/

/-- The queue is full of issues that are not done; dropping the ones that are no longer suitable leaves
more slots than there are better ranked issues waiting, and the issue that gets one of them has an
unsatisfied dependency. -/
def Overlooks (config : SupervisorConfig) (inputs : MaintenanceInputs) (graph : DependencyGraph) :
    Prop :=
  ∃ tasks, maintenanceTasks config.taskQueue inputs = some tasks ∧
    let objects := taskObjects tasks
    let pruned := pruneDone config.taskQueue objects
    let suitable := pruneUnsuitable pruned objects (inputs.assessments.getD [])
    0 < config.maxQueueSize ∧ config.maxQueueSize ≤ pruned.length ∧
      ∃ entry ∈ objects, isWaiting config.taskQueue inputs.assessments entry = true ∧
        ((objects.countP fun e => outranks e entry &&
          isWaiting config.taskQueue inputs.assessments e : Nat) + suitable.length : Int)
            < config.maxQueueSize ∧
        (unsatisfiedDependencies entry.1 (some graph)).getD [] ≠ []

namespace MaintenancePass

variable (p : MaintenancePass)

theorem overlooks_iff (graph : DependencyGraph) : Overlooks p.config p.inputs graph ↔
    0 < p.config.maxQueueSize ∧ p.config.maxQueueSize ≤ p.pruned.length ∧
      ∃ entry ∈ p.objects, isWaiting p.config.taskQueue p.inputs.assessments entry = true ∧
        ((p.objects.countP fun e => outranks e entry &&
          isWaiting p.config.taskQueue p.inputs.assessments e : Nat) + p.suitable.length : Int)
            < p.config.maxQueueSize ∧
        (unsatisfiedDependencies entry.1 (some graph)).getD [] ≠ [] := by
  rw [p.suitable_eq]
  constructor
  · rintro ⟨tasks, htasks, h⟩
    obtain rfl : p.tasks = tasks := Option.some.inj (p.gates.symm.trans htasks)
    exact h
  · exact fun h => ⟨p.tasks, p.gates, h⟩

/-- In a full queue, an issue is appended when it waits and the better ranked ones leave a freed slot
for it. -/
theorem mem_discoverReady_of_full {issue : Int} (hsize : 0 < p.config.maxQueueSize)
    (hfull : p.config.maxQueueSize ≤ p.pruned.length) :
    issue ∈ discoverReady p.suitable p.objects p.config.maxQueueSize none p.localAssessments ↔
      ∃ entry ∈ p.objects, entry.1 = issue ∧
        isWaiting p.config.taskQueue p.inputs.assessments entry = true ∧
        ((p.objects.countP fun e => outranks e entry &&
          isWaiting p.config.taskQueue p.inputs.assessments e : Nat) + p.suitable.length : Int)
            < p.config.maxQueueSize := by
  rw [mem_discoverReady_iff p.nodup_keys]
  by_cases hfreed : p.suitable.length < p.pruned.length
  · have hcount : ∀ entry, (p.objects.countP fun e => outranks e entry &&
        (isReadyCandidate p.suitable e.1 e.2 && isDiscoverable none p.localAssessments e.1 e.2)) =
          p.objects.countP fun e => outranks e entry &&
            isWaiting p.config.taskQueue p.inputs.assessments e := by
      intro entry
      refine List.countP_congr fun e he => ?_
      rw [p.admitted_eq he hfreed]
    refine exists_congr fun entry => and_congr_right fun hentry => and_congr_right fun _ => ?_
    rw [p.admitted_eq hentry hfreed, hcount]
    exact and_congr_right fun _ => ⟨fun h => h hsize, fun h _ => h⟩
  · constructor
    · rintro ⟨entry, -, -, -, hslot⟩
      have := hslot hsize
      omega
    · rintro ⟨entry, -, -, -, hslot⟩
      omega

/-- In a full queue, a pass appends an issue with an unsatisfied dependency exactly when it overlooks one: no
graph is built, and slots come free later. -/
theorem unsatisfied_of_full_iff (graph : DependencyGraph) (hsize : 0 < p.config.maxQueueSize)
    (hfull : p.config.maxQueueSize ≤ p.pruned.length) :
    (∀ issue ∈ discoverReady p.suitable p.objects p.config.maxQueueSize none p.localAssessments,
      (unsatisfiedDependencies issue (some graph)).getD [] = []) ↔ ¬Overlooks p.config p.inputs graph := by
  rw [p.overlooks_iff graph]
  constructor
  · rintro h ⟨-, -, entry, hentry, hwaiting, hcount, hdeps⟩
    exact hdeps (h entry.1 ((p.mem_discoverReady_of_full hsize hfull).mpr ⟨entry, hentry, rfl, hwaiting, hcount⟩))
  · intro h issue hissue
    obtain ⟨entry, hentry, rfl, hwaiting, hcount⟩ := (p.mem_discoverReady_of_full hsize hfull).mp hissue
    by_contra hdeps
    exact h ⟨hsize, hfull, entry, hentry, hwaiting, hcount, hdeps⟩

/-- With a free slot, a pass appends no issue with an unsatisfied dependency. -/
theorem satisfied_of_room {graph : DependencyGraph} (hrespect : p.config.respectDependencies = true)
    (hslot : remainingCapacity p.config.maxQueueSize p.pruned.length ≠ some 0) {issue : Int}
    (h : issue ∈ discoverReady p.suitable p.objects p.config.maxQueueSize
      (passGraph p.config p.pruned p.objects (some graph)) p.localAssessments) :
    (unsatisfiedDependencies issue (some graph)).getD [] = [] := by
  rw [mem_discoverReady_iff p.nodup_keys] at h
  obtain ⟨entry, hentry, rfl, hadmitted, -⟩ := h
  obtain ⟨hready, hdisc⟩ := (Bool.and_eq_true ..).mp hadmitted
  by_cases hcandidates : readyCandidateIds p.pruned p.objects = []
  · -- Without a candidate no graph is built either, and nothing is appended.
    have hgraph : passGraph p.config p.pruned p.objects (some graph) = none := by
      simp [passGraph, hcandidates]
    rw [hgraph] at hdisc
    rw [p.isReadyCandidate_suitable hentry hdisc] at hready
    have hmem : entry.1 ∈ readyCandidateIds p.pruned p.objects := by
      refine List.mem_map.mpr ⟨entry, List.mem_filter.mpr ⟨hentry, ?_⟩, rfl⟩
      exact (p.isReadyCandidate_pruned hentry).trans hready
    rw [hcandidates] at hmem
    cases hmem
  · have hgraph : passGraph p.config p.pruned p.objects (some graph) = some graph := by
      simp [passGraph, hslot, hcandidates, hrespect]
    rw [hgraph] at hdisc
    exact unsatisfied_of_isDiscoverable (number_of_mem_taskObjects hentry) hdisc

end MaintenancePass

theorem remainingCapacity_eq_zero_iff {size : Int} {len : Nat} :
    remainingCapacity size len = some 0 ↔ 0 < size ∧ size ≤ len := by
  unfold remainingCapacity
  split_ifs with hsize
  · rw [Option.some.injEq]
    omega
  · exact iff_of_false nofun fun h => hsize h.1

/-- With dependencies to be respected, a pass appends an issue with an unsatisfied dependency exactly
when the queue was full before the unsuitable issues went. -/
theorem maintainQueue_respects_iff (config : SupervisorConfig) (inputs : MaintenanceInputs)
    (graph : DependencyGraph) (hrespect : config.respectDependencies = true) :
    RespectsDependencies config inputs graph ↔ ¬Overlooks config inputs graph := by
  cases hgates : maintenanceTasks config.taskQueue inputs with
  | none =>
    have hnone : maintenanceTasks config.taskQueue
        { inputs with dependencyGraph := some graph } = none := hgates
    refine iff_of_true ?_ ?_
    · intro issue hissue
      unfold maintainQueue at hissue
      dsimp only at hissue
      rw [hnone] at hissue
      cases hissue
    · rintro ⟨tasks, htasks, -⟩
      rw [hgates] at htasks
      cases htasks
  | some tasks =>
    let p : MaintenancePass := ⟨config, inputs, tasks, hgates⟩
    unfold RespectsDependencies
    rw [p.added_eq graph]
    by_cases hslot : remainingCapacity config.maxQueueSize p.pruned.length = some 0
    · obtain ⟨hsize, hfull⟩ := remainingCapacity_eq_zero_iff.mp hslot
      have hgraph : passGraph config p.pruned p.objects (some graph) = none := by
        simp [passGraph, hslot]
      rw [hgraph]
      exact p.unsatisfied_of_full_iff graph hsize hfull
    · refine iff_of_true (fun issue hissue => p.satisfied_of_room hrespect hslot hissue) fun h => ?_
      obtain ⟨hsize, hfull, -⟩ := (p.overlooks_iff graph).mp h
      exact hslot (remainingCapacity_eq_zero_iff.mpr ⟨hsize, hfull⟩)

/-! An issue put on hold leaves the only slot of the queue to an issue that waits for another one. -/

def heldQueue : SupervisorConfig := { taskQueue := [1], maxQueueSize := 1 }

def heldTasks : List Task :=
  [{ number := some 1, state := .researched, labels := ["agent:on-hold".toList] },
    { number := some 2, state := .researched },
    { number := some 3, state := .inProgress }]

/-- The second issue depends on the third. -/
def heldGraph : DependencyGraph where
  tasks := heldTasks.filterMap fun task => task.number.map fun n => (n, task)
  deps := [(1, []), (2, [3]), (3, [])]

theorem maintainQueue_appends_blocked :
    ¬∀ (config : SupervisorConfig) (inputs : MaintenanceInputs) (graph : DependencyGraph),
      config.respectDependencies = true → RespectsDependencies config inputs graph := by
  intro h
  have hadded : (2 : Int) ∈ (maintainQueue heldQueue
      { listTasks := some heldTasks, dependencyGraph := some heldGraph }).added := by decide
  have hdeps := h heldQueue { listTasks := some heldTasks } heldGraph rfl 2 hadded
  revert hdeps
  decide

theorem maintainQueue_respects_two_slots :
    RespectsDependencies { heldQueue with maxQueueSize := 2 } { listTasks := some heldTasks }
        heldGraph ↔
      ¬Overlooks { heldQueue with maxQueueSize := 2 } { listTasks := some heldTasks } heldGraph :=
  maintainQueue_respects_iff { heldQueue with maxQueueSize := 2 } { listTasks := some heldTasks }
    heldGraph rfl

end Supervisor

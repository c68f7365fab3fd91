import SovaVerified.Supervisor.Proofs.QueueResultProofs
import SovaVerified.Supervisor.Proofs.ReadinessProofs
import SovaVerified.Supervisor.Progression

/-!
# The ranking of the next tasks

The walk of `_unblock_count` counts the open issues that wait for an issue, directly or over other open
issues (`unblockCount_exact`). So the count depends on the graph alone and not on the order in which its
tasks and sets are gone through, and with the number as the last part of the key the ranking is an order of
the issues that is the same whatever the order they come in (`rankNextTasks_spec`).
-/

namespace Supervisor

open Relation Adapters

namespace BuiltGraph

variable (g : BuiltGraph) {g' : BuiltGraph} {issue dependent : Int}

/-! ## What an issue unblocks -/

/-- The graph knows the issue, and it is neither done nor an epic. -/
def OpenWork (issue : Int) : Prop :=
  ∃ task, g.getTask issue = some task ∧ task.state ≠ .done ∧ isEpic task.labels = false

/-- The dependent is open and waits for the issue. -/
def Unblocks (issue dependent : Int) : Prop := issue ∈ g.getDependencies dependent ∧ g.OpenWork dependent

theorem isOpenWork_iff : g.isOpenWork issue = true ↔ g.OpenWork issue := by
  unfold isOpenWork OpenWork
  cases hget : g.getTask issue with
  | none => simp
  | some task => simp

theorem step_eq_unblocks : Walk.Step g.rdeps g.isOpenWork = g.Unblocks := by
  funext issue dependent
  refine propext ?_
  unfold Walk.Step Unblocks
  rw [g.mem_rdeps, isOpenWork_iff]

theorem rdeps_closed : ∀ u, ∀ v ∈ g.rdeps u, v ∈ g.tasks.map Prod.fst :=
  fun u _ hv => g.hasTask_iff.mp (g.hasTask_of_mem_getDependencies ((g.mem_rdeps u _).mp hv))

theorem pending_unblockWalk (issue : Int) : (g.unblockWalk issue).pending = [] := by
  have hturns : Walk.turns (g.tasks.map Prod.fst) (Walk.start issue) ≤ g.tasks.length + 1 := by
    refine (Walk.turns_start issue).trans ?_
    rw [List.length_map]
  exact Walk.pending_go g.rdeps_closed _ hturns

theorem unblockCount_eq_encard (issue : Int) :
    (g.unblockCount issue : ℕ∞) =
      {dependent | dependent ≠ issue ∧ TransGen g.Unblocks issue dependent}.encard := by
  have hwalking : Walk.Walking g.rdeps g.isOpenWork issue (g.unblockWalk issue) :=
    (Walk.walking_start issue).go _
  rw [← step_eq_unblocks]
  exact hwalking.encard_eq (g.pending_unblockWalk issue)

/-- The walk ends, and it has counted the open issues that wait for the issue, directly or not. -/
theorem unblockCount_exact (g : BuiltGraph) (issue : Int) :
    (g.unblockWalk issue).pending = [] ∧
      (g.unblockCount issue : ℕ∞) =
        {dependent | dependent ≠ issue ∧ TransGen g.Unblocks issue dependent}.encard :=
  ⟨g.pending_unblockWalk issue, g.unblockCount_eq_encard issue⟩

/-! ## The same graph in another order -/

/-- The same tasks and dependencies, gone through in another order. -/
structure Reordered (g g' : BuiltGraph) : Prop where
  tasks : g'.tasks.Perm g.tasks
  deps : ∀ issue, (g'.getDependencies issue).Perm (g.getDependencies issue)

variable {g}

namespace Reordered

variable (h : g.Reordered g')
include h

theorem getTask_eq (issue : Int) : g'.getTask issue = g.getTask issue := by
  refine Option.ext fun task => ?_
  have hmem' : (issue, task) ∈ g'.tasks ↔ g'.getTask issue = some task := Assoc.mem_iff_get g'.nodup_tasks
  have hmem : (issue, task) ∈ g.tasks ↔ g.getTask issue = some task := Assoc.mem_iff_get g.nodup_tasks
  rw [← hmem', ← hmem, h.tasks.mem_iff]

theorem hasTask_eq (issue : Int) : g'.hasTask issue = g.hasTask issue := by
  unfold DependencyGraph.hasTask
  rw [h.getTask_eq]

theorem blocks_eq : g'.blocks = g.blocks := by
  funext dep
  unfold DependencyGraph.blocks
  rw [h.getTask_eq]

/-- The dependencies are sorted before they are looked at. -/
theorem unsatisfiedDependencies_eq (issue : Int) :
    unsatisfiedDependencies issue (some g'.toDependencyGraph) =
      unsatisfiedDependencies issue (some g.toDependencyGraph) := by
  have hperm : (g'.getDependencies issue).eraseDups.Perm (g.getDependencies issue).eraseDups := by
    refine (List.perm_ext_iff_of_nodup (Selection.nodup_eraseDups _)
      (Selection.nodup_eraseDups _)).mpr fun dep => ?_
    rw [List.mem_eraseDups, List.mem_eraseDups, (h.deps issue).mem_iff]
  have hsorted : (g'.getDependencies issue).eraseDups.insertionSort (· ≤ ·) =
      (g.getDependencies issue).eraseDups.insertionSort (· ≤ ·) := by
    refine List.Perm.eq_of_pairwise' (List.pairwise_insertionSort (· ≤ ·) _)
      (List.pairwise_insertionSort (· ≤ ·) _) ?_
    exact (List.perm_insertionSort _ _).trans (hperm.trans (List.perm_insertionSort _ _).symm)
  unfold unsatisfiedDependencies
  dsimp only
  rw [h.hasTask_eq, h.blocks_eq, hsorted]

theorem suitability_eq (task : Task) : g'.suitability task = g.suitability task := by
  have hdeps : taskDependencies task (some g'.toDependencyGraph) =
      taskDependencies task (some g.toDependencyGraph) := by
    unfold taskDependencies
    cases task.number with
    | none => rfl
    | some tid => exact h.unsatisfiedDependencies_eq tid
  unfold suitability assessSuitability dependencyBlock
  rw [hdeps]

theorem unblockCount_eq (issue : Int) : g'.unblockCount issue = g.unblockCount issue := by
  have hunblocks : g'.Unblocks = g.Unblocks := by
    funext issue dependent
    refine propext ?_
    unfold Unblocks OpenWork
    rw [(h.deps dependent).mem_iff, h.getTask_eq]
  have hcount := g'.unblockCount_eq_encard issue
  rw [hunblocks, ← g.unblockCount_eq_encard issue] at hcount
  exact Nat.cast_injective hcount

end Reordered

end BuiltGraph

/-! ## The ranking -/

/-- The ranked task that a task becomes, before it has a rank. -/
def rankable (g : BuiltGraph) (running openPrs : List Int) (task : MilestoneTask) : Option RankedTask :=
  (candidate g running openPrs task).bind (unranked g)

variable {g g' : BuiltGraph} {running openPrs : List Int} {tasks tasks' : List MilestoneTask}
  {task : MilestoneTask} {r r' : RankedTask}

theorem filterMap_unranked :
    (candidates tasks g running openPrs).filterMap (unranked g) =
      tasks.filterMap (rankable g running openPrs) :=
  List.filterMap_filterMap

/-- What becomes of a task that is ranked. -/
theorem rankable_spec (h : rankable g running openPrs task = some r) :
    r.task = task ∧ (∃ issue, task.number = some issue) ∧ nextTaskStates task.state = true ∧
      (g.suitability task.toTask).mode = .autonomous := by
  obtain ⟨c, hc, hr⟩ := Option.bind_eq_some_iff.mp h
  unfold candidate at hc
  cases hnumber : task.number with
  | none =>
    rw [hnumber] at hc
    cases hc
  | some issue =>
    rw [hnumber] at hc
    dsimp only at hc
    split_ifs at hc with hskip
    cases hc
    unfold unranked at hr
    split_ifs at hr with hmode
    cases hr
    have hstate : nextTaskStates task.state = true := by
      simp only [Bool.or_eq_true, not_or, Bool.not_eq_true, Bool.not_eq_false'] at hskip
      exact hskip.1.1
    exact ⟨rfl, ⟨issue, rfl⟩, hstate, not_not.mp hmode⟩

theorem rankable_eq (h : g.Reordered g') : rankable g' running openPrs = rankable g running openPrs := by
  have hcandidate : candidate g' running openPrs = candidate g running openPrs := by
    funext task
    unfold candidate
    rw [h.suitability_eq]
  have hunranked : unranked g' = unranked g := by
    funext c
    unfold unranked
    rw [h.unblockCount_eq]
  funext task
  unfold rankable
  rw [hcandidate, hunranked]

/-- Tasks with different numbers have different keys. -/
theorem eq_of_key_eq (hdistinct : (tasks.map fun t => t.number).Nodup)
    (hr : r ∈ tasks.filterMap (rankable g running openPrs))
    (hr' : r' ∈ tasks.filterMap (rankable g running openPrs)) (hkey : r.key = r'.key) : r = r' := by
  obtain ⟨t, ht, hrank⟩ := List.mem_filterMap.mp hr
  obtain ⟨t', ht', hrank'⟩ := List.mem_filterMap.mp hr'
  obtain ⟨htask, ⟨issue, hissue⟩, -⟩ := rankable_spec hrank
  obtain ⟨htask', ⟨issue', hissue'⟩, -⟩ := rankable_spec hrank'
  have hnumber : r.task.number.getD 0 = r'.task.number.getD 0 := by
    unfold RankedTask.key at hkey
    have hkey := (Prod.mk.inj (toLex_inj.mp hkey)).2
    have hkey := (Prod.mk.inj (toLex_inj.mp hkey)).2
    exact (Prod.mk.inj (toLex_inj.mp hkey)).2
  rw [htask, htask', hissue, hissue'] at hnumber
  have hsame : t.number = t'.number := by
    rw [hissue, hissue']
    exact congrArg some hnumber
  have hsame := List.inj_on_of_nodup_map hdistinct ht ht' hsame
  rw [hsame, hrank'] at hrank
  exact (Option.some.inj hrank).symm

/-- The tasks in the order of their keys. -/
def sortedTasks (tasks : List MilestoneTask) (g : BuiltGraph) (running openPrs : List Int) :
    List RankedTask :=
  (tasks.filterMap (rankable g running openPrs)).insertionSort fun a b => a.key ≤ b.key

theorem sortedTasks_eq (h : g.Reordered g') (hperm : tasks'.Perm tasks)
    (hdistinct : (tasks.map fun t => t.number).Nodup) :
    sortedTasks tasks' g' running openPrs = sortedTasks tasks g running openPrs := by
  have hmap : (tasks'.filterMap (rankable g' running openPrs)).Perm
      (tasks.filterMap (rankable g running openPrs)) := by
    rw [rankable_eq h]
    exact hperm.filterMap _
  unfold sortedTasks
  refine List.Perm.eq_of_pairwise ?_ (List.pairwise_insertionSort _ _) (List.pairwise_insertionSort _ _) ?_
  · intro a b ha hb hab hba
    rw [List.mem_insertionSort] at ha hb
    exact eq_of_key_eq hdistinct (hmap.mem_iff.mp ha) hb (le_antisymm hab hba)
  · exact (List.perm_insertionSort _ _).trans (hmap.trans (List.perm_insertionSort _ _).symm)

theorem rankNextTasks_none :
    rankNextTasks tasks g running openPrs none = withRanks (sortedTasks tasks g running openPrs) := by
  unfold rankNextTasks rankCandidates sortedTasks
  rw [filterMap_unranked]

theorem rankNextTasks_some (limit : Int) :
    rankNextTasks tasks g running openPrs (some limit) =
      upTo (rankNextTasks tasks g running openPrs none) limit :=
  rfl

theorem upTo_isPrefix (l : List RankedTask) (limit : Int) : upTo l limit <+: l := by
  unfold upTo
  split_ifs
  · exact List.take_prefix ..
  · exact List.take_prefix ..

theorem rank_withRanks (l : List RankedTask) :
    (withRanks l).map RankedTask.rank = (List.range (withRanks l).length).map (· + 1) := by
  refine List.ext_getElem (by simp [withRanks]) fun i hi hi' => ?_
  simp [withRanks]

/-- A ranked task is one of the tasks that were ranked. -/
theorem exists_of_mem_rankNextTasks {limit : Option Int}
    (h : r ∈ rankNextTasks tasks g running openPrs limit) :
    ∃ task ∈ tasks, r.task = task ∧ ∃ r', rankable g running openPrs task = some r' := by
  have hranked : r ∈ withRanks (sortedTasks tasks g running openPrs) := by
    rw [← rankNextTasks_none]
    cases limit with
    | none => exact h
    | some limit =>
      rw [rankNextTasks_some] at h
      exact (upTo_isPrefix _ limit).subset h
  obtain ⟨i, hi, rfl⟩ := List.mem_mapIdx.mp hranked
  have hmem := List.getElem_mem hi
  generalize (sortedTasks tasks g running openPrs)[i] = s at hmem ⊢
  rw [sortedTasks, List.mem_insertionSort] at hmem
  obtain ⟨task, htask, hrank⟩ := List.mem_filterMap.mp hmem
  exact ⟨task, htask, (rankable_spec hrank).1, s, hrank⟩

/-- The tasks to be ranked are nodes of the graph, with different numbers. -/
structure IssueGraph.IsPool (g : IssueGraph) (tasks : List MilestoneTask) : Prop where
  nodes : ∀ task ∈ tasks, ∃ issue, g.getTask issue = some task.toTask
  distinct : (tasks.map fun task => task.number).Nodup

/-- A task that is ranked is ready. -/
theorem mem_getReadyTasks_of_rankable {g : IssueGraph} {issue : Int} (hissue : g.getTask issue = some task.toTask)
    (h : rankable g.toBuiltGraph running openPrs task = some r) : issue ∈ g.getReadyTasks none := by
  obtain ⟨-, -, hstate, hmode⟩ := rankable_spec h
  refine g.mem_getReadyTasks_none_iff.mpr ⟨task.toTask, hissue, ?_⟩
  have hexcluded : excludedFromReady task.state = false := by
    cases hs : task.state with
    | triaged => rfl
    | researched => rfl
    | _ => rw [hs] at hstate; cases hstate
  unfold BuiltGraph.eligible
  rw [hmode, hexcluded]
  rfl

/-- The ranking does not depend on any order, counts up from one without a gap, and holds ready issues
alone; a limit cuts it off, and the count of the unclassified issues does not depend on it. -/
theorem rankNextTasks_spec (g : IssueGraph) (tasks : List MilestoneTask) (hpool : g.IsPool tasks)
    (running openPrs : List Int) :
    (∀ (g' : BuiltGraph) (tasks' : List MilestoneTask), g.Reordered g' → tasks'.Perm tasks → ∀ limit,
      rankNextTasks tasks' g' running openPrs limit =
        rankNextTasks tasks g.toBuiltGraph running openPrs limit) ∧
    (rankNextTasks tasks g.toBuiltGraph running openPrs none).map RankedTask.rank =
      (List.range (rankNextTasks tasks g.toBuiltGraph running openPrs none).length).map (· + 1) ∧
    (∀ limit, ∀ r ∈ rankNextTasks tasks g.toBuiltGraph running openPrs limit,
      ∃ issue ∈ g.getReadyTasks none, r.task.number = some issue) ∧
    (∀ limit, rankNextTasks tasks g.toBuiltGraph running openPrs (some limit) <+:
        rankNextTasks tasks g.toBuiltGraph running openPrs none ∧
      (0 ≤ limit → rankNextTasks tasks g.toBuiltGraph running openPrs (some limit) =
        (rankNextTasks tasks g.toBuiltGraph running openPrs none).take limit.toNat)) ∧
    ∀ limit, rankAndCountNextTasks tasks g.toBuiltGraph running openPrs limit =
      (rankNextTasks tasks g.toBuiltGraph running openPrs limit,
        (rankAndCountNextTasks tasks g.toBuiltGraph running openPrs none).2) := by
  refine ⟨?_, ?_, ?_, ?_, fun _ => rfl⟩
  · intro g' tasks' hreordered hperm limit
    have hnone : rankNextTasks tasks' g' running openPrs none =
        rankNextTasks tasks g.toBuiltGraph running openPrs none := by
      rw [rankNextTasks_none, rankNextTasks_none, sortedTasks_eq hreordered hperm hpool.distinct]
    cases limit with
    | none => exact hnone
    | some limit => rw [rankNextTasks_some, rankNextTasks_some, hnone]
  · rw [rankNextTasks_none]
    exact rank_withRanks _
  · intro limit r hr
    obtain ⟨task, htask, rfl, r', hrank⟩ := exists_of_mem_rankNextTasks hr
    obtain ⟨issue, hissue⟩ := hpool.nodes r.task htask
    exact ⟨issue, mem_getReadyTasks_of_rankable hissue hrank, IssueGraph.number_eq hissue⟩
  · intro limit
    rw [rankNextTasks_some]
    refine ⟨upTo_isPrefix _ limit, fun hlimit => ?_⟩
    unfold upTo
    rw [if_pos hlimit]

/-! The second issue waits for the first one, and the third is of another phase than the first. -/

def nextTasks : List MilestoneTask :=
  [{ number := some 3, state := .triaged, labels := ["agent:ready".toList], milestone := "Phase 1".toList },
    { number := some 2, state := .researched, labels := ["agent:ready".toList] },
    { number := some 1, state := .triaged, labels := ["agent:ready".toList] }]

def nextGraph : IssueGraph :=
  IssueGraph.ofTasks
    (nextTasks.map fun task => ⟨task.number.getD 0, task.toTask, if task.number = some 2 then [1] else []⟩)
    (by decide) (by decide) (by decide)

theorem nextTasks_isPool : nextGraph.IsPool nextTasks where
  nodes := by
    intro task htask
    refine ⟨task.number.getD 0, ?_⟩
    revert task
    decide
  distinct := by decide

theorem nextTasks_spec :
    rankNextTasks nextTasks.reverse nextGraph.toBuiltGraph [] [] none =
        rankNextTasks nextTasks nextGraph.toBuiltGraph [] [] none ∧
      (rankNextTasks nextTasks nextGraph.toBuiltGraph [] [] none).map RankedTask.rank = [1, 2] := by
  obtain ⟨horder, hranks, -⟩ := rankNextTasks_spec nextGraph nextTasks nextTasks_isPool [] []
  have hsame : nextGraph.Reordered nextGraph.toBuiltGraph := ⟨List.Perm.refl _, fun _ => List.Perm.refl _⟩
  refine ⟨horder nextGraph.toBuiltGraph nextTasks.reverse hsame nextTasks.reverse_perm none, ?_⟩
  rw [hranks]
  decide +kernel

example : (rankNextTasks nextTasks nextGraph.toBuiltGraph [] [] none).map
    (fun r => (r.task.number, r.rank, r.unblocks)) = [(some 1, 1, 1), (some 3, 2, 0)] := by
  decide +kernel

end Supervisor

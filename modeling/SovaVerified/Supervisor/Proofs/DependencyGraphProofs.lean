import SovaVerified.Regex.Proofs.SearchProofs
import SovaVerified.Supervisor.DependencyGraph
import SovaVerified.Supervisor.Proofs.QueueResultProofs
import SovaVerified.Utils.Proofs.SectionProofs

/-!
# Tiers and chains of the dependency graph

The reverse edges that the two algorithms follow are the dependencies turned round (`edge_iff`), and the
counts that they start from are the numbers of these edges (`counted_nodes`, `counted_filter`). So the tiers
are the layers of the graph, and a chain is the closure of an issue in an order.
-/

namespace Supervisor

open Relation Precedence

namespace BuiltGraph

variable (g : BuiltGraph) {issue dep u v : Int}

/-- The issue has the dependency, and the graph knows it. -/
def DependsOn (issue dep : Int) : Prop := dep ∈ g.getDependencies issue ∧ g.hasTask dep = true

/-- The issue comes after the dependency. -/
def Before (dep issue : Int) : Prop := g.DependsOn issue dep

theorem hasTask_iff : g.hasTask issue = true ↔ issue ∈ g.tasks.map Prod.fst := by
  unfold DependencyGraph.hasTask DependencyGraph.getTask
  exact Assoc.get_isSome_iff

theorem perm_nodes : g.nodes.Perm (g.tasks.map Prod.fst) := List.perm_insertionSort ..

theorem nodup_nodes : g.nodes.Nodup := g.perm_nodes.nodup_iff.mpr g.nodup_tasks

theorem mem_nodes : issue ∈ g.nodes ↔ g.hasTask issue = true := by
  rw [hasTask_iff]
  exact g.perm_nodes.mem_iff

/-- Only a task has dependencies. -/
theorem hasTask_of_mem_getDependencies (h : dep ∈ g.getDependencies issue) : g.hasTask issue = true := by
  rw [hasTask_iff]
  refine g.keys issue ?_
  rw [← Assoc.get_isSome_iff]
  unfold DependencyGraph.getDependencies at h
  cases hget : Assoc.get g.deps issue with
  | none =>
    rw [hget] at h
    cases h
  | some deps => rfl

/-- The number of dependencies among the nodes is the number of reverse edges from them. -/
theorem buildInDegree_eq {nodeIds : List Int} (hnodup : nodeIds.Nodup) (v : Int) :
    g.buildInDegree nodeIds v = (nodeIds.map fun u => ((g.rdeps u).count v : Int)).sum := by
  have hcount : ∀ u, ((g.rdeps u).count v : Int) = if u ∈ g.getDependencies v then 1 else 0 := by
    intro u
    have hmem := g.mem_rdeps u v
    split_ifs with hdep
    · have hone := List.count_eq_one_of_mem (g.nodup_rdeps u) (hmem.mpr hdep)
      omega
    · have hnone := List.count_eq_zero.mpr fun h => hdep (hmem.mp h)
      omega
  have hperm : ((g.getDependencies v).filter (· ∈ nodeIds)).Perm
      (nodeIds.filter (· ∈ g.getDependencies v)) := by
    refine (List.perm_ext_iff_of_nodup ((g.nodup_deps v).filter _) (hnodup.filter _)).mpr fun u => ?_
    simp [and_comm]
  have hsum : ∀ l : List Int, (l.map fun u => ((g.rdeps u).count v : Int)).sum =
      (l.filter (· ∈ g.getDependencies v)).length := by
    intro l
    induction l with
    | nil => rfl
    | cons u l ih =>
      rw [List.map_cons, List.sum_cons, ih, hcount, List.filter_cons]
      by_cases hdep : u ∈ g.getDependencies v
      · simp [hdep]
        omega
      · simp [hdep]
  rw [hsum, buildInDegree, hperm.length_eq]

/-! ## Tiers -/

theorem counted_nodes : Kahn.Counted g.nodes g.rdeps (g.buildInDegree g.nodes) where
  nodup := g.nodup_nodes
  closed u _ v hv := g.mem_nodes.mpr (g.hasTask_of_mem_getDependencies ((g.mem_rdeps u v).mp hv))
  degree v _ := g.buildInDegree_eq g.nodup_nodes v

theorem edge_iff : Kahn.Edge g.nodes g.rdeps u v ↔ g.Before u v := by
  unfold Kahn.Edge Before DependsOn
  rw [g.mem_nodes, g.mem_rdeps, and_comm]

/-- No cycle can be reached along dependencies in the graph. -/
def CycleFree (issue : Int) : Prop :=
  ∀ dep, ReflTransGen g.DependsOn issue dep → ¬TransGen g.DependsOn dep dep

theorem grounded_iff : Grounded g.Before issue ↔ g.CycleFree issue := by
  have hswap : g.Before = Function.swap g.DependsOn := rfl
  unfold Grounded CycleFree
  rw [hswap]
  simp only [reflTransGen_swap, transGen_swap]

/-- A chain of `n` dependencies in the graph begins at the issue. -/
def HasChain (n : Nat) (issue : Int) : Prop := Layers.Chain g.Before n issue

/-- What the tiers of a graph are. -/
structure Tiers (groups : List ParallelGroup) : Prop where
  tiers : groups.map ParallelGroup.tier = List.range groups.length
  nodup : ∀ group ∈ groups, group.taskIds.Nodup
  disjoint : groups.Pairwise fun a b => a.taskIds.Disjoint b.taskIds
  /-- The tiers hold the tasks that reach no cycle. -/
  mem : ∀ issue, (∃ group ∈ groups, issue ∈ group.taskIds) ↔
    g.hasTask issue = true ∧ g.CycleFree issue
  /-- The tier of an issue is the length of its longest chain. -/
  longest : ∀ group ∈ groups, ∀ issue ∈ group.taskIds, IsGreatest {n | g.HasChain n issue} group.tier
  earlier : ∀ group ∈ groups, ∀ issue ∈ group.taskIds, ∀ dep, g.DependsOn issue dep →
    ∃ group' ∈ groups, group'.tier < group.tier ∧ dep ∈ group'.taskIds

/-- The layers that become the tiers. -/
def layers : List (List Int) :=
  Layers.peel g.rdeps g.nodes.length g.nodes (g.buildInDegree g.nodes)

theorem edge_eq : Kahn.Edge g.nodes g.rdeps = g.Before := by
  funext u v
  exact propext g.edge_iff

theorem mem_layers_iff (tier : Nat) : issue ∈ g.layers[tier]?.getD [] ↔
    issue ∈ g.nodes ∧ IsGreatest {n | g.HasChain n issue} tier := by
  have h := Layers.mem_peel_iff_isGreatest g.counted_nodes (v := issue) tier
  rw [edge_eq] at h
  exact h

theorem exists_mem_layers_iff : (∃ tier : Nat, issue ∈ g.layers[tier]?.getD []) ↔
    issue ∈ g.nodes ∧ g.CycleFree issue := by
  have h := Layers.exists_mem_peel_iff g.counted_nodes (v := issue)
  rw [edge_eq, grounded_iff] at h
  exact h

theorem mem_getParallelGroups {group : ParallelGroup} :
    group ∈ g.getParallelGroups ↔ g.layers[group.tier]? = some group.taskIds := by
  have hgroups : g.getParallelGroups = g.layers.mapIdx fun tier taskIds => { tier, taskIds } := rfl
  rw [hgroups, List.mem_mapIdx]
  constructor
  · rintro ⟨tier, htier, rfl⟩
    exact List.getElem?_eq_getElem htier
  · intro h
    obtain ⟨htier, hids⟩ := List.getElem?_eq_some_iff.mp h
    refine ⟨group.tier, htier, ?_⟩
    rw [hids]

/-- An issue is in the tier of a number when its layer is. -/
theorem exists_group_iff {tier : Nat} :
    (∃ group ∈ g.getParallelGroups, group.tier = tier ∧ issue ∈ group.taskIds) ↔
      issue ∈ g.layers[tier]?.getD [] := by
  constructor
  · rintro ⟨group, hgroup, rfl, hissue⟩
    rw [g.mem_getParallelGroups.mp hgroup]
    exact hissue
  · intro h
    cases hlayer : g.layers[tier]? with
    | none =>
      rw [hlayer] at h
      cases h
    | some taskIds =>
      rw [hlayer] at h
      exact ⟨{ tier, taskIds }, g.mem_getParallelGroups.mpr hlayer, rfl, h⟩

theorem mem_group {group : ParallelGroup} (hgroup : group ∈ g.getParallelGroups) :
    issue ∈ group.taskIds ↔ issue ∈ g.nodes ∧ IsGreatest {n | g.HasChain n issue} group.tier := by
  rw [← g.mem_layers_iff, g.mem_getParallelGroups.mp hgroup]
  rfl

theorem getParallelGroups_exact : g.Tiers g.getParallelGroups := by
  have htiers : g.getParallelGroups.map ParallelGroup.tier =
      List.range g.getParallelGroups.length := by
    refine List.ext_getElem (by simp) fun i hi hi' => ?_
    simp [getParallelGroups]
  refine ⟨htiers, ?_, ?_, ?_, ?_, ?_⟩
  · intro group hgroup
    have hlayer := List.mem_of_getElem? (g.mem_getParallelGroups.mp hgroup)
    exact g.nodup_nodes.sublist (Layers.sublist_of_mem_peel hlayer)
  · -- Two groups have different numbers, and an issue has one longest chain.
    have hnodup : (g.getParallelGroups.map ParallelGroup.tier).Nodup := htiers ▸ List.nodup_range
    refine (List.pairwise_map.mp hnodup).imp_of_mem ?_
    intro a b ha hb hne issue hia hib
    have hlongest := ((g.mem_group ha).mp hia).2
    exact hne (hlongest.unique ((g.mem_group hb).mp hib).2)
  · intro issue
    rw [← g.mem_nodes, ← g.exists_mem_layers_iff]
    constructor
    · rintro ⟨group, hgroup, hissue⟩
      exact ⟨group.tier, g.exists_group_iff.mp ⟨group, hgroup, rfl, hissue⟩⟩
    · rintro ⟨tier, hissue⟩
      obtain ⟨group, hgroup, -, hissue⟩ := g.exists_group_iff.mpr hissue
      exact ⟨group, hgroup, hissue⟩
  · exact fun group hgroup issue hissue => ((g.mem_group hgroup).mp hissue).2
  · intro group hgroup issue hissue dep hdep
    obtain ⟨hnode, hlongest⟩ := (g.mem_group hgroup).mp hissue
    have hgrounded := (g.exists_mem_layers_iff.mp
      ⟨group.tier, g.exists_group_iff.mp ⟨group, hgroup, rfl, hissue⟩⟩).2
    have hdepFree : g.CycleFree dep := fun w hw => hgrounded w (ReflTransGen.head hdep hw)
    obtain ⟨tier, hlayer⟩ := g.exists_mem_layers_iff.mpr ⟨g.mem_nodes.mpr hdep.2, hdepFree⟩
    obtain ⟨group', hgroup', htier, hmem⟩ := g.exists_group_iff.mpr hlayer
    refine ⟨group', hgroup', ?_, hmem⟩
    -- The longest chain of the dependency, with the issue in front, is a chain of the issue.
    have hchain : g.HasChain (group'.tier + 1) issue :=
      ⟨dep, hdep, ((g.mem_group hgroup').mp hmem).2.1⟩
    exact hlongest.2 hchain

/-! ## Chains -/

theorem finite_knownDependencies (issue : Int) :
    Components.Finite (issue :: g.tasks.map Prod.fst) g.knownDependencies := by
  have hclosed : ∀ u, ∀ v ∈ g.knownDependencies u, v ∈ issue :: g.tasks.map Prod.fst := by
    intro u v hv
    exact List.mem_cons_of_mem _ (g.hasTask_iff.mp (List.mem_filter.mp hv).2)
  refine ⟨fun u _ => hclosed u, fun u _ => ?_⟩
  exact (List.subperm_of_subset ((g.nodup_deps u).filter _) (hclosed u)).length_le

/-- The walk collects the issue and all that it depends on, directly or not. -/
theorem mem_collectTransitiveDeps :
    dep ∈ g.collectTransitiveDeps issue ↔ ReflTransGen g.DependsOn issue dep := by
  have hmem := Components.mem_closure_iff (v := dep) (g.finite_knownDependencies issue)
    (List.mem_cons_self ..)
  have hrel : (fun u v => v ∈ g.knownDependencies u) = g.DependsOn := by
    funext u v
    exact propext List.mem_filter
  rw [List.length_cons, List.length_map, Components.Reach, hrel] at hmem
  exact hmem

theorem nodup_collectTransitiveDeps (issue : Int) : (g.collectTransitiveDeps issue).Nodup :=
  Components.nodup_closure ..

/-- The reverse edges within a set of nodes are counted by the in-degrees of the set. -/
theorem counted_filter {nodeIds : List Int} (hnodup : nodeIds.Nodup) :
    Kahn.Counted (nodeIds.insertionSort (· ≤ ·)) (fun nid => (g.rdeps nid).filter (· ∈ nodeIds))
      (g.buildInDegree nodeIds) := by
  have hperm : (nodeIds.insertionSort (· ≤ ·)).Perm nodeIds := List.perm_insertionSort ..
  refine ⟨hperm.nodup_iff.mpr hnodup, ?_, ?_⟩
  · intro u _ v hv
    exact hperm.mem_iff.mpr (of_decide_eq_true (List.mem_filter.mp hv).2)
  · intro v hv
    have hin : v ∈ nodeIds := hperm.mem_iff.mp hv
    have hcount : ∀ u, ((g.rdeps u).filter (· ∈ nodeIds)).count v = (g.rdeps u).count v :=
      fun u => List.count_filter (decide_eq_true hin)
    simp only [hcount]
    rw [g.buildInDegree_eq hnodup, (hperm.map _).sum_eq]

/-- An issue that was reached by a dependency, or has one itself, is a task. -/
theorem hasTask_of_reached (hdep : ReflTransGen g.DependsOn issue dep)
    (hv : ReflTransGen g.DependsOn issue v) (h : dep ∈ g.getDependencies v) : g.hasTask dep = true := by
  rcases ReflTransGen.cases_tail hdep with rfl | ⟨w, -, hw⟩
  · rcases ReflTransGen.cases_head hv with rfl | ⟨w, hw, -⟩
    · exact g.hasTask_of_mem_getDependencies h
    · exact g.hasTask_of_mem_getDependencies hw.1
  · exact hw.2

theorem edge_visited_iff :
    Kahn.Edge ((g.collectTransitiveDeps issue).insertionSort (· ≤ ·))
        (fun nid => (g.rdeps nid).filter (· ∈ g.collectTransitiveDeps issue)) u v ↔
      ReflTransGen g.DependsOn issue v ∧ g.Before u v := by
  unfold Kahn.Edge
  rw [List.mem_insertionSort, List.mem_filter, decide_eq_true_eq, g.mem_rdeps,
    mem_collectTransitiveDeps, mem_collectTransitiveDeps]
  constructor
  · rintro ⟨hu, hdep, hv⟩
    exact ⟨hv, hdep, g.hasTask_of_reached hu hv hdep⟩
  · rintro ⟨hv, hdep⟩
    exact ⟨hv.tail hdep, hdep.1, hv⟩

/-- What the chain of an issue is, when no cycle can be reached from it: the issue and all that it
depends on, once and in order, with the issue last. -/
theorem getChain_spec (g : BuiltGraph) (issue : Int) (hfree : g.CycleFree issue) :
    (g.getChain issue).Nodup ∧
      (∀ dep, dep ∈ g.getChain issue ↔ ReflTransGen g.DependsOn issue dep) ∧
      (∀ v ∈ g.getChain issue, ∀ dep, g.DependsOn v dep →
        (g.getChain issue).idxOf dep < (g.getChain issue).idxOf v) ∧
      (g.getChain issue).getLast? = some issue := by
  have hcounted := g.counted_filter (g.nodup_collectTransitiveDeps issue)
  obtain ⟨hnodup, -, hordered, -⟩ := Kahn.sort_spec hcounted
  set edge := Kahn.Edge ((g.collectTransitiveDeps issue).insertionSort (· ≤ ·))
    (fun nid => (g.rdeps nid).filter (· ∈ g.collectTransitiveDeps issue)) with hedge
  have hsub : ∀ u v, edge u v → g.Before u v := fun u v h => (g.edge_visited_iff.mp h).2
  have hmem : ∀ dep, dep ∈ g.getChain issue ↔ ReflTransGen g.DependsOn issue dep := by
    intro dep
    unfold getChain topoSort
    rw [Kahn.mem_sort_iff hcounted, List.mem_insertionSort, mem_collectTransitiveDeps]
    refine and_iff_left_of_imp fun _ u _ hcycle => ?_
    -- A cycle of the induced graph is one that can be reached.
    obtain ⟨w, -, hwu⟩ := TransGen.tail'_iff.mp hcycle
    have hreached := (g.edge_visited_iff.mp hwu).1
    exact hfree u hreached (transGen_swap.mp (TransGen.mono hsub u u hcycle))
  have hbefore : ∀ v ∈ g.getChain issue, ∀ dep, g.DependsOn v dep → edge dep v :=
    fun v hv dep hdep => g.edge_visited_iff.mpr ⟨(hmem v).mp hv, hdep⟩
  refine ⟨hnodup, hmem, ?_, ?_⟩
  · exact fun v hv dep hdep => hordered.idxOf_lt (hbefore v hv dep hdep) hv
  · refine hordered.getLast?_eq ((hmem issue).mpr ReflTransGen.refl) fun dep hdep => ?_
    have hreach := (hmem dep).mp hdep
    induction hreach with
    | refl => exact ReflTransGen.refl
    | tail hv hdep' ih =>
      have hv := (hmem _).mpr hv
      exact ReflTransGen.head (hbefore _ hv _ hdep') (ih hv)

/-! The fourth issue depends on the second and the third, which both depend on the first. -/

def diamondTasks : List GraphTask :=
  [⟨4, { number := some 4 }, [3, 2]⟩, ⟨3, { number := some 3 }, [1]⟩, ⟨2, { number := some 2 }, [1]⟩,
    ⟨1, { number := some 1 }, [99]⟩]

def diamond : BuiltGraph := ofTasks diamondTasks (by decide) (by decide)

theorem diamond_getChain_spec :
    (diamond.getChain 4).Nodup ∧
      (∀ dep, dep ∈ diamond.getChain 4 ↔ ReflTransGen diamond.DependsOn 4 dep) ∧
      (∀ v ∈ diamond.getChain 4, ∀ dep, diamond.DependsOn v dep →
        (diamond.getChain 4).idxOf dep < (diamond.getChain 4).idxOf v) ∧
      (diamond.getChain 4).getLast? = some 4 := by
  refine getChain_spec diamond 4 fun dep _ hcycle => ?_
  -- Every dependency in the graph has a smaller number.
  have hless : ∀ u v, diamond.DependsOn u v → v < u := by
    rintro u v ⟨hdep, htask⟩
    have hu : u ∈ ([4, 3, 2, 1] : List Int) :=
      diamond.hasTask_iff.mp (diamond.hasTask_of_mem_getDependencies hdep)
    have hall : ∀ u ∈ ([4, 3, 2, 1] : List Int), ∀ v ∈ diamond.getDependencies u,
        diamond.hasTask v = true → v < u := by decide
    exact hall u hu v hdep htask
  have hcycle : dep < dep := by
    refine TransGen.trans_induction_on hcycle (motive := fun {u v} _ => v < u) ?_ ?_
    · exact fun h => hless _ _ h
    · exact fun _ _ h h' => lt_trans h' h
  exact lt_irrefl dep hcycle

example : diamond.getChain 4 = [1, 3, 2, 4] := by decide

end BuiltGraph

end Supervisor

/-!
# The section that the dependencies are read from

The heading is looked for twice: first in the whole body, fences and all, and then as it was found, in its
own case, where no fence hides it. Where the first heading outside fences is written in the same way as the
first one of the body, the section is the one that is headed as the dependencies in any case
(`dependenciesSection_eq`); otherwise it is another section or none.
-/

namespace Supervisor

open Utils

variable {body heading heading' : Text}

/-! ## Headings -/

/-- The name of the section. -/
def dependenciesTitle : Text := "Dependencies".toList

/-- Where the first line begins that heads the section, in any case, outside of fences. -/
def firstHeading (body : Text) : Option Text :=
  Regex.firstLine (Markdown.headingRe dependenciesTitle true) (Markdown.maskFencedBlocks body)

/-- The first heading outside of fences, if there is one, is written in the way of the first line of the
body that may head the section. -/
def SameHeading (body : Text) : Prop :=
  ∀ line, firstHeading body = some line → ∃ heading, headingText body = some heading ∧
    (Regex.matchToLineEnd (Markdown.headingRe heading false) line).isSome = true

/-- The section depends on the place of the heading alone. -/
theorem extractSection_congr {ignoreCase ignoreCase' : Bool}
    (h : (Regex.searchLines (Markdown.headingRe heading ignoreCase) (Markdown.maskFencedBlocks body)).map
        Prod.snd =
      (Regex.searchLines (Markdown.headingRe heading' ignoreCase') (Markdown.maskFencedBlocks body)).map
        Prod.snd) :
    Markdown.extractSection body heading ignoreCase = Markdown.extractSection body heading' ignoreCase' := by
  unfold Markdown.extractSection
  dsimp only
  cases hfound : Regex.searchLines (Markdown.headingRe heading ignoreCase)
      (Markdown.maskFencedBlocks body) with
  | none =>
    rw [hfound, Option.map_none] at h
    rw [Option.map_eq_none_iff.mp h.symm]
  | some m =>
    rw [hfound, Option.map_some] at h
    obtain ⟨m', hm', hrest⟩ := Option.map_eq_some_iff.mp h.symm
    rw [hm']
    dsimp only
    rw [hrest]

theorem title_eq : Regex.escape true dependenciesTitle = Regex.lit "dependencies" := rfl

/-- The heading that is found is the title in some case. -/
theorem matches_headingText (h : headingText body = some heading) :
    Regex.Matches (Regex.escape true dependenciesTitle) heading := by
  obtain ⟨⟨g, rest⟩, hfound, hget⟩ := Option.bind_eq_some_iff.mp h
  obtain ⟨s, hs, hmatch⟩ := Regex.searchLines_captured hfound hget
  have hgroups : Regex.captures dependenciesHeadingRe = [(1, Regex.lit "dependencies")] := rfl
  rw [hgroups, List.mem_singleton] at hs
  rw [title_eq, ← (Prod.mk.inj hs).2]
  exact hmatch

theorem uses_title : (Regex.escape true dependenciesTitle).uses '\n' = false := by decide

theorem uses_headingText (h : headingText body = some heading) :
    (Markdown.headingRe heading false).uses '\n' = false := by
  refine Markdown.uses_headingRe ?_
  rw [Regex.uses_escape, List.contains_eq_mem]
  refine decide_eq_false fun hmem => ?_
  have huses := (matches_headingText h).uses '\n' hmem
  rw [uses_title] at huses
  cases huses

/-- A line with the heading that was found heads the section in any case. -/
theorem matches_headingRe (h : headingText body = some heading) (u : Text)
    (hu : Regex.Matches (Markdown.headingRe heading false) u) :
    Regex.Matches (Markdown.headingRe dependenciesTitle true) u := by
  obtain ⟨marks, _, rfl, hmarks, blanks, _, rfl, hblanks, title, tail, rfl, htitle, htail⟩ := hu
  rw [Regex.matches_escape_iff] at htitle
  exact ⟨marks, _, rfl, hmarks, blanks, _, rfl, hblanks, title, tail, rfl,
    htitle ▸ matches_headingText h, htail⟩

/-- Both readers come to the same section, where the headings are written in the same way. -/
theorem dependenciesSection_eq (h : SameHeading body) :
    dependenciesSection body = Markdown.extractSection body dependenciesTitle true := by
  have hnl := Markdown.uses_headingRe uses_title
  unfold dependenciesSection
  cases hfirst : firstHeading body with
  | none =>
    have hnone : Markdown.extractSection body dependenciesTitle true = [] := by
      have hmap := Regex.map_searchLines hnl (Markdown.maskFencedBlocks body)
      unfold firstHeading at hfirst
      rw [hfirst, Option.map_none, Option.map_eq_none_iff] at hmap
      unfold Markdown.extractSection
      dsimp only
      rw [hmap]
    cases hheading : headingText body with
    | none => exact hnone.symm
    | some heading =>
      refine extractSection_congr ?_
      rw [Regex.map_searchLines (uses_headingText hheading), Regex.map_searchLines hnl,
        Regex.firstLine_eq_none (matches_headingRe hheading) hfirst]
      exact congrArg (Option.map _) hfirst.symm
  | some line =>
    obtain ⟨heading, hheading, hline⟩ := h line hfirst
    rw [hheading]
    refine extractSection_congr ?_
    rw [Regex.map_searchLines (uses_headingText hheading), Regex.map_searchLines hnl,
      Regex.firstLine_eq (matches_headingRe hheading) hfirst hline]
    exact congrArg (Option.map _) hfirst.symm

/-! ## References -/

/-- The section refers to the issue by its number. -/
def NamedIn (section' : Text) (excludeSelf : Option Int) (issue : Int) : Prop :=
  ∃ ref ∈ references section', issue = Text.toNat ref ∧ some issue ≠ excludeSelf

/-- Every reference of the section is short enough to be read. -/
def Readable (section' : Text) : Prop := ∀ ref ∈ references section', ref.length ≤ 4300

theorem readReference_eq {ref : Text} (h : ref.length ≤ 4300) :
    readReference ref = .ok (Text.toNat ref : Int) :=
  if_neg (by omega)

theorem returns_readReference_iff {ref : Text} :
    Exceptions.Returns (readReference ref) ↔ ref.length ≤ 4300 := by
  constructor
  · rintro ⟨n, hn⟩
    unfold readReference at hn
    split_ifs at hn with hlong
    omega
  · exact fun h => ⟨_, readReference_eq h⟩

/-- The body is read unless a reference of its section is too long. -/
theorem returns_parseDependencies_iff {excludeSelf : Option Int} :
    Exceptions.Returns (parseDependencies body excludeSelf) ↔ Readable (dependenciesSection body) := by
  unfold parseDependencies Readable
  split_ifs with hbody
  · refine iff_of_true (Exceptions.returns_ok _) fun ref href => ?_
    rw [hbody] at href
    have hnone : references (dependenciesSection []) = [] := by decide
    rw [hnone] at href
    cases href
  · rw [Exceptions.returns_map_iff, Exceptions.returns_mapM_iff]
    exact forall₂_congr fun ref _ => returns_readReference_iff

/-- What is read is what the section names. -/
theorem mem_parseDependencies_iff {excludeSelf : Option Int} {deps : List Int} {issue : Int}
    (h : parseDependencies body excludeSelf = .ok deps) :
    issue ∈ deps ↔ NamedIn (dependenciesSection body) excludeSelf issue := by
  have hreadable := returns_parseDependencies_iff.mp ⟨deps, h⟩
  have hread : (references (dependenciesSection body)).mapM readReference =
      .ok ((references (dependenciesSection body)).map fun ref => (Text.toNat ref : Int)) := by
    rw [Exceptions.mapM_eq_ok_iff, List.forall₂_map_right_iff, List.forall₂_same]
    exact fun ref href => readReference_eq (hreadable ref href)
  have hmem : issue ∈ (((references (dependenciesSection body)).map fun ref => (Text.toNat ref : Int)).filter
      fun dep => some dep ≠ excludeSelf).eraseDups ↔ NamedIn (dependenciesSection body) excludeSelf issue := by
    rw [List.mem_eraseDups, List.mem_filter, List.mem_map, decide_eq_true_eq]
    constructor
    · rintro ⟨⟨ref, href, rfl⟩, hother⟩
      exact ⟨ref, href, rfl, hother⟩
    · rintro ⟨ref, href, rfl, hother⟩
      exact ⟨⟨ref, href, rfl⟩, hother⟩
  unfold parseDependencies at h
  split_ifs at h with hbody
  · rw [hbody] at hmem ⊢
    cases h
    exact hmem
  · dsimp only at h
    rw [hread] at h
    cases h
    exact hmem

/-- The body is read without an exception, and exactly what the given section names comes back. -/
def ReadsExactly (body section' : Text) (excludeSelf : Option Int) : Prop :=
  ∃ deps, parseDependencies body excludeSelf = .ok deps ∧
    ∀ issue, issue ∈ deps ↔ NamedIn section' excludeSelf issue

def twoBlanksBody : Text := "##  Dependencies\n- #7\n".toList

end Supervisor

import SovaVerified.Supervisor.Suitability

/-!
# The cached dependency graph is never older than an invalidation

An invalidation visits every key that it covers and that a build on its way is for, and moves its generation.
-/

namespace Supervisor

open Generations

variable {s s' : GraphCache} {adapter : GraphAdapter} {milestone key : Text} {now : Int}

namespace GraphCache

def generationOf (s : GraphCache) (key : Text) : Nat := (s.generation key).getD 0

/-- Where the build behind an entry began. -/
def beganOf (s : GraphCache) (key : Text) : Option Nat := (s.cache key).map GraphEntry.began

/-- The invariant of the module's state. -/
structure Inv (s : GraphCache) : Prop where
  sound : Sound repoCovers s.invalidations s.generationOf s.beganOf s.flights
  registered : ∀ f ∈ s.flights, (s.generation f.key).isSome = true

/-- An invalidation that covers a known key visits it. -/
theorem visited_of_covers {repo k : Text} (hknown : (s.cache k).isSome = true ∨ (s.generation k).isSome = true)
    (hcovers : repoCovers repo k) : s.visited repo k = true := by
  unfold visited
  rcases hcovers with rfl | rfl
  · rw [if_pos List.isEmpty_nil, Bool.or_eq_true]
    exact hknown
  · split
    · rw [Bool.or_eq_true]
      exact hknown
    · exact beq_self_eq_true repo

namespace Inv

theorem register (h : s.Inv) (key : Text) : (s.register key).Inv where
  sound := by
    have hsame : (s.register key).generationOf = s.generationOf := funext (counter_register s.generation key)
    rw [hsame]
    exact h.sound
  registered := fun f hf => isSome_register (.inr (h.registered f hf))

theorem startBuild (h : s.Inv) (adapter : GraphAdapter) (milestone : Text) (now : Int) :
    (s.startBuild adapter milestone now).2.Inv := by
  unfold GraphCache.startBuild
  split
  · have hregister := h.register adapter.key
    dsimp only
    cases (s.register adapter.key).lookup adapter.key now with
    | some e => exact hregister
    | none =>
      refine ⟨hregister.sound.start adapter.key, fun f hf => ?_⟩
      rcases List.mem_cons.mp hf with rfl | hf
      · exact isSome_register (.inl rfl)
      · exact hregister.registered f hf
  · exact h

theorem finishBuild (h : s.Inv) {fetch : Fetch Text Nat} (hfetch : fetch ∈ s.flights) (now : Int)
    (graph : Option DependencyGraph) : (s.finishBuild fetch now graph).Inv := by
  cases graph with
  | none => exact h
  | some graph =>
    unfold GraphCache.finishBuild
    dsimp only
    split
    next hcurrent => exact ⟨h.sound.put hfetch hcurrent fun _ _ hk => began_put hk, h.registered⟩
    next => exact h

theorem invalidate (h : s.Inv) (repo : Text) : (s.invalidate repo).Inv := by
  unfold GraphCache.invalidate
  refine ⟨h.sound.visit (fun k hk hcovers => visited_of_covers (.inl hk) hcovers) fun f hf hcovers => ?_,
    fun f hf => ?_⟩
  · exact visited_of_covers (.inr (h.registered f hf)) hcovers
  · exact isSome_visit (h.registered f hf)

theorem step (h : s.Inv) {action : GraphCacheAction} (hs : graphCacheStep s action = some s') : s'.Inv := by
  cases action with
  | build adapter milestone now => exact Option.some.inj hs ▸ h.startBuild adapter milestone now
  | finished fetch now graph =>
    simp only [graphCacheStep, Option.ite_none_right_eq_some, Option.some.injEq] at hs
    obtain ⟨hfetch, rfl⟩ := hs
    have hfinish := h.finishBuild hfetch now graph
    exact ⟨hfinish.sound.land List.erase_subset,
      fun f hf => hfinish.registered f (List.mem_of_mem_erase hf)⟩
  | invalidate repo => exact Option.some.inj hs ▸ h.invalidate repo

end Inv

end GraphCache

theorem graphCache_inv {actions : List GraphCacheAction} (h : Runs.exec graphCacheStep {} actions = some s) :
    s.Inv :=
  Runs.invariant (fun _ _ _ hinv hstep => GraphCache.Inv.step hinv hstep)
    ⟨Sound.empty _ _ _, fun _ hf => absurd hf List.not_mem_nil⟩ h

/-- A build that does not await anything returns a graph from the cache, whose fetch began after every
invalidation that covers its repository. -/
theorem startBuild_cached {actions : List GraphCacheAction} (h : Runs.exec graphCacheStep {} actions = some s)
    {graph : DependencyGraph} (hit : (s.startBuild adapter milestone now).1 = some graph) :
    ∃ e, s.cache adapter.key = some e ∧ e.graph = graph ∧
      ∀ repo ∈ s.invalidations.drop e.began, ¬ repoCovers repo adapter.key := by
  unfold GraphCache.startBuild at hit
  split at hit
  · dsimp only at hit
    split at hit
    next e hlookup =>
      have hentry : s.cache adapter.key = some e := (Option.filter_eq_some_iff.mp hlookup).1
      refine ⟨e, hentry, Option.some.inj hit, (graphCache_inv h).sound.entry adapter.key e.began ?_⟩
      unfold GraphCache.beganOf
      rw [hentry, Option.map_some]
    next => cases hit
  · cases hit

/-- A build that was on its way across an invalidation of every repository is not stored; the next one is. -/
theorem startBuild_cached_after_race :
    let adapter : GraphAdapter := ⟨"acme/shop".toList, []⟩
    let graph : DependencyGraph := ⟨[], [(7, [])]⟩
    let actions : List GraphCacheAction :=
      [.build adapter [] 0, .invalidate [], .finished ⟨adapter.key, 0, 0⟩ 1 (some ⟨[], []⟩),
        .build adapter [] 2, .finished ⟨adapter.key, 1, 1⟩ 3 (some graph)]
    ∃ s, Runs.exec graphCacheStep {} actions = some s ∧ (s.startBuild adapter [] 4).1 = some graph ∧
      ∃ e, s.cache adapter.key = some e ∧ e.graph = graph ∧
        ∀ repo ∈ s.invalidations.drop e.began, ¬ repoCovers repo adapter.key := by
  intro adapter graph actions
  exact ⟨_, rfl, rfl, @startBuild_cached _ adapter [] 4 actions rfl graph rfl⟩

end Supervisor

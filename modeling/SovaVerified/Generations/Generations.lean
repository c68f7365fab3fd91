import Mathlib.Logic.Function.Basic
import Mathlib.Order.Nat
import Mathlib.Tactic.Common

/-!
# Caches guarded by generations

A cache whose entries come from fetches that take a while. An invalidation says that what was fetched before
it is out of date, for every key that it covers. It cannot stop the fetches that are on their way; instead it
moves the generation of the key upward, and a fetch may store its result only while the generation is the
one it began with.

The log lists the invalidations so far. A fetch, and the entry that comes from it, is known by the number of
invalidations that had happened when it began. `Sound` says that no entry is out of date. There is one rule
for each operation of a cache. The last section is about caches whose entries and generations are two
dictionaries.
-/

namespace Generations

variable {κ ι γ : Type*}

/-- A fetch on its way. -/
structure Fetch (κ γ : Type*) where
  key : κ
  generation : γ
  /-- The number of invalidations when it began. -/
  began : Nat
  deriving DecidableEq

/-- No invalidation after the first `began` ones covers the key. -/
def FreshSince (covers : ι → κ → Prop) (log : List ι) (began : Nat) (key : κ) : Prop :=
  ∀ i ∈ log.drop began, ¬ covers i key

variable {covers : ι → κ → Prop} {log : List ι} {began : Nat} {key : κ} {i : ι}

theorem freshSince_length : FreshSince covers log log.length key := by
  intro i hi
  rw [List.drop_length] at hi
  cases hi

theorem FreshSince.append (h : FreshSince covers log began key) (hi : ¬ covers i key) :
    FreshSince covers (log ++ [i]) began key := by
  intro j hj
  rw [List.drop_append] at hj
  rcases List.mem_append.mp hj with hj | hj
  · exact h j hj
  · obtain rfl : j = i := by simpa using List.mem_of_mem_drop hj
    exact hi

variable [PartialOrder γ]

/-- No entry is out of date, and none can become so by a fetch that still has the generation of its key.
`entries` gives the place in the log at which the fetch behind an entry began. -/
structure Sound (covers : ι → κ → Prop) (log : List ι) (generation : κ → γ) (entries : κ → Option Nat)
    (flights : List (Fetch κ γ)) : Prop where
  entry : ∀ k began, entries k = some began → FreshSince covers log began k
  flight : ∀ f ∈ flights, f.generation ≤ generation f.key ∧
    (generation f.key = f.generation → FreshSince covers log f.began f.key)

namespace Sound

variable {generation generation' : κ → γ} {entries entries' : κ → Option Nat} {flights : List (Fetch κ γ)}
  {f : Fetch κ γ}

theorem empty (covers : ι → κ → Prop) (log : List ι) (generation : κ → γ) :
    Sound covers log generation (fun _ => none) [] where
  entry := fun _ _ h => nomatch h
  flight := fun _ h => nomatch h

/-- A fetch begins with the generation of its key. -/
theorem start (h : Sound covers log generation entries flights) (k : κ) :
    Sound covers log generation entries (⟨k, generation k, log.length⟩ :: flights) where
  entry := h.entry
  flight := by
    intro f hf
    rcases List.mem_cons.mp hf with rfl | hf
    · exact ⟨le_refl _, fun _ => freshSince_length⟩
    · exact h.flight f hf

/-- Fetches come back, or are given up. -/
theorem land {flights' : List (Fetch κ γ)} (h : Sound covers log generation entries flights)
    (hsub : flights' ⊆ flights) : Sound covers log generation entries flights' where
  entry := h.entry
  flight := fun f hf => h.flight f (hsub hf)

/-- Entries are dropped. -/
theorem drop (h : Sound covers log generation entries flights)
    (hentries : ∀ k began, entries' k = some began → entries k = some began) :
    Sound covers log generation entries' flights where
  entry := fun k began hk => h.entry k began (hentries k began hk)
  flight := h.flight

/-- A fetch that still has the generation of its key stores its result. -/
theorem put (h : Sound covers log generation entries flights) (hf : f ∈ flights)
    (hcurrent : generation f.key = f.generation)
    (hentries : ∀ k began, entries' k = some began → (k = f.key ∧ began = f.began) ∨ entries k = some began) :
    Sound covers log generation entries' flights where
  entry := by
    intro k began hk
    rcases hentries k began hk with ⟨rfl, rfl⟩ | hold
    · exact (h.flight f hf).2 hcurrent
    · exact h.entry k began hold
  flight := h.flight

/-- An invalidation drops the entries that it covers and moves the generations of the fetches that it covers. -/
theorem invalidate (h : Sound covers log generation entries flights)
    (hle : ∀ k, generation k ≤ generation' k)
    (hlt : ∀ f ∈ flights, covers i f.key → generation f.key < generation' f.key)
    (hentries : ∀ k began, entries' k = some began → entries k = some began ∧ ¬ covers i k) :
    Sound covers (log ++ [i]) generation' entries' flights where
  entry := by
    intro k began hk
    obtain ⟨hold, hnot⟩ := hentries k began hk
    exact (h.entry k began hold).append hnot
  flight := by
    intro f hf
    obtain ⟨hbefore, hfresh⟩ := h.flight f hf
    refine ⟨le_trans hbefore (hle f.key), fun hcurrent => ?_⟩
    have hsame : generation f.key = f.generation := le_antisymm (hcurrent ▸ hle f.key) hbefore
    refine (hfresh hsame).append fun hcovers => ?_
    have hmoved := hlt f hf hcovers
    rw [hcurrent, hsame] at hmoved
    exact lt_irrefl _ hmoved

end Sound

/-! ## Caches of two dictionaries

The entries are a dictionary, and so are the generations, where a key that is not there counts as `0`. -/

section Dictionaries

variable {β : Type*} {cache : κ → Option β} {beganOf : β → Nat} {counters : κ → Option Nat} {k : κ} {n : Nat}

section Update

variable [DecidableEq κ]

/-- To register a key moves no generation. -/
theorem counter_register (counters : κ → Option Nat) (key k : κ) :
    (Function.update counters key (some ((counters key).getD 0)) k).getD 0 = (counters k).getD 0 := by
  by_cases hk : k = key
  · rw [hk, Function.update_self, Option.getD_some]
  · rw [Function.update_of_ne hk]

theorem isSome_register (h : k = key ∨ (counters k).isSome = true) :
    (Function.update counters key (some n) k).isSome = true := by
  by_cases hk : k = key
  · rw [hk, Function.update_self, Option.isSome_some]
  · rw [Function.update_of_ne hk]
    exact h.resolve_left hk

theorem began_pop (h : (Function.update cache key none k).map beganOf = some n) :
    (cache k).map beganOf = some n := by
  by_cases hk : k = key
  · rw [hk, Function.update_self] at h
    cases h
  · rw [Function.update_of_ne hk] at h
    exact h

theorem began_put {entry : β} (h : (Function.update cache key (some entry) k).map beganOf = some n) :
    (k = key ∧ n = beganOf entry) ∨ (cache k).map beganOf = some n := by
  by_cases hk : k = key
  · rw [hk, Function.update_self] at h
    exact .inl ⟨hk, (Option.some.inj h).symm⟩
  · rw [Function.update_of_ne hk] at h
    exact .inr h

end Update

variable {visited : κ → Bool}

theorem isSome_visit (h : (counters k).isSome = true) :
    (if visited k then some ((counters k).getD 0 + 1) else counters k).isSome = true := by
  split
  · rfl
  · exact h

/-- An invalidation visits keys, drops their entries and counts them up. It has to visit every key that it covers
among those of the entries and of the fetches. -/
theorem Sound.visit {flights : List (Fetch κ Nat)}
    (h : Sound covers log (fun k => (counters k).getD 0) (fun k => (cache k).map beganOf) flights)
    (hentry : ∀ k, (cache k).isSome = true → covers i k → visited k = true)
    (hflight : ∀ f ∈ flights, covers i f.key → visited f.key = true) :
    Sound covers (log ++ [i]) (fun k => (if visited k then some ((counters k).getD 0 + 1) else counters k).getD 0)
      (fun k => (if visited k then none else cache k).map beganOf) flights := by
  refine h.invalidate (fun k => ?_) (fun f hf hcovers => ?_) (fun k began hk => ?_)
  · split
    · exact Nat.le_succ _
    · exact le_refl _
  · rw [if_pos (hflight f hf hcovers)]
    exact Nat.lt_succ_self _
  · split at hk
    · cases hk
    next hnot =>
      refine ⟨hk, fun hcovers => hnot (hentry k ?_ hcovers)⟩
      obtain ⟨e, he, -⟩ := Option.map_eq_some_iff.mp hk
      rw [he, Option.isSome_some]

end Dictionaries

end Generations

import Mathlib.Algebra.Ring.Nat
import Mathlib.Algebra.BigOperators.Group.List.Basic
import Mathlib.Data.List.Induction
import SovaVerified.Llm.Models

/-!
# What several turns come to

The counters of the merged result are sums over the turns. Its label is the one of the last turn, which is the
label of the whole only for some sequences.
-/

namespace Llm

open Core (CostSource combineCostSources)

/-! ## The label of a sequence -/

theorem combinedSource_snoc (sources : List CostSource) (s : CostSource) :
    combinedSource (sources ++ [s]) = some (combineCostSources (combinedSource sources) s) := by
  unfold combinedSource
  rw [List.foldl_append]
  rfl

theorem combineCostSources_eq_unknown_iff (current : Option CostSource) (s : CostSource) :
    combineCostSources current s = .unknown ↔ s = .unknown ∨ current = some .unknown := by
  rcases current with _ | current
  · simp [combineCostSources]
  · cases current <;> cases s <;> simp [combineCostSources]

/-- A label that is only given to turns which all have it. -/
theorem combineCostSources_eq_iff {s : CostSource} (hunknown : s ≠ .unknown) (hpriced : s ≠ .priced)
    (current : Option CostSource) (t : CostSource) :
    combineCostSources current t = s ↔ t = s ∧ (current = none ∨ current = some s) := by
  rcases current with _ | current
  · simp [combineCostSources]
  · cases current <;> cases s <;> cases t <;> simp_all [combineCostSources]

/-- The label of the last turn is the one of the whole. -/
theorem combineCostSources_eq_self_iff (current : Option CostSource) (s : CostSource) :
    combineCostSources current s = s ↔
      s = .unknown ∨ (s = .priced ∧ current ≠ some .unknown) ∨ current = none ∨ current = some s := by
  rcases current with _ | current
  · simp [combineCostSources]
  · cases current <;> cases s <;> simp [combineCostSources]

/-- One turn of unknown cost makes the whole unknown, and nothing else does. -/
theorem combinedSource_eq_unknown_iff (sources : List CostSource) :
    combinedSource sources = some .unknown ↔ CostSource.unknown ∈ sources := by
  induction sources using List.reverseRecOn with
  | nil => simp [combinedSource]
  | append_singleton sources s ih =>
    rw [combinedSource_snoc, Option.some.injEq, combineCostSources_eq_unknown_iff, ih, List.mem_append,
      List.mem_singleton, or_comm]
    exact or_congr_right eq_comm

theorem combinedSource_uniform_iff {s : CostSource} (hunknown : s ≠ .unknown) (hpriced : s ≠ .priced)
    (sources : List CostSource) :
    (combinedSource sources = none ∨ combinedSource sources = some s) ↔ ∀ t ∈ sources, t = s := by
  induction sources using List.reverseRecOn with
  | nil => simp [combinedSource]
  | append_singleton sources t ih =>
    rw [combinedSource_snoc, Option.some.injEq, combineCostSources_eq_iff hunknown hpriced, ih,
      List.forall_mem_append, List.forall_mem_singleton]
    simp [and_comm]

/-- The last turn has the label of the whole sequence: its cost is unknown, or no cost is unknown and it is
priced, or all turns are labelled alike. -/
def LastLabels (sources : List CostSource) (last : CostSource) : Prop :=
  last = .unknown ∨ (last = .priced ∧ CostSource.unknown ∉ sources) ∨ ∀ s ∈ sources, s = last

theorem combinedSource_snoc_eq_iff (sources : List CostSource) (last : CostSource) :
    combinedSource (sources ++ [last]) = some last ↔ LastLabels sources last := by
  rw [combinedSource_snoc, Option.some.injEq, combineCostSources_eq_self_iff, Ne,
    combinedSource_eq_unknown_iff]
  unfold LastLabels
  by_cases hunknown : last = .unknown
  · simp [hunknown]
  · by_cases hpriced : last = .priced
    · subst hpriced
      have hfree : (combinedSource sources = none ∨ combinedSource sources = some .priced) →
          CostSource.unknown ∉ sources := by
        intro h hmem
        have := (combinedSource_eq_unknown_iff sources).mpr hmem
        rcases h with h | h
        · rw [h] at this
          cases this
        · rw [h] at this
          cases this
      have hall : (∀ s ∈ sources, s = .priced) → CostSource.unknown ∉ sources := by
        intro h hmem
        cases h _ hmem
      tauto
    · rw [combinedSource_uniform_iff hunknown hpriced]

/-! ## The sums -/

/-- The total of a counter that a turn need not report. -/
structure IsReported (counts : List (Option Nat)) (total : Option Nat) : Prop where
  none_iff : total = none ↔ ∀ count ∈ counts, count = none
  sum : total.getD 0 = (counts.map (·.getD 0)).sum

theorem isReported_singleton (count : Option Nat) : IsReported [count] count where
  none_iff := by simp
  sum := by simp

theorem getD_sumOptional (a b : Option Nat) : (sumOptional a b).getD 0 = a.getD 0 + b.getD 0 := by
  cases a <;> cases b <;> simp [sumOptional]

theorem sumOptional_eq_none_iff (a b : Option Nat) : sumOptional a b = none ↔ a = none ∧ b = none := by
  cases a <;> cases b <;> simp [sumOptional]

theorem IsReported.snoc {counts : List (Option Nat)} {total : Option Nat} (h : IsReported counts total)
    (count : Option Nat) : IsReported (counts ++ [count]) (sumOptional total count) where
  none_iff := by
    rw [sumOptional_eq_none_iff, h.none_iff, List.forall_mem_append, List.forall_mem_singleton]
  sum := by
    rw [getD_sumOptional, h.sum, List.map_append, List.sum_append]
    simp

/-- A result whose counters are the sums over some turns. -/
structure IsSum (results : List LLMResult) (total : LLMResult) : Prop where
  cost : total.costUsd = (results.map (·.costUsd)).sum
  input : total.inputTokens = (results.map (·.inputTokens)).sum
  output : total.outputTokens = (results.map (·.outputTokens)).sum
  cacheRead : total.cacheReadTokens = (results.map (·.cacheReadTokens)).sum
  duration : total.durationMs = (results.map (·.durationMs)).sum
  cacheCreation : IsReported (results.map (·.cacheCreationTokens)) total.cacheCreationTokens
  reasoning : IsReported (results.map (·.reasoningOutputTokens)) total.reasoningOutputTokens
  turns : IsReported (results.map (·.numTurns)) total.numTurns
  saved : IsReported (results.map (·.tokensSaved)) total.tokensSaved
  preCompression :
    IsReported (results.map (·.preCompressionInputTokens)) total.preCompressionInputTokens

theorem isSum_singleton (result : LLMResult) : IsSum [result] result where
  cost := by simp
  input := by simp
  output := by simp
  cacheRead := by simp
  duration := by simp
  cacheCreation := isReported_singleton _
  reasoning := isReported_singleton _
  turns := isReported_singleton _
  saved := isReported_singleton _
  preCompression := isReported_singleton _

theorem IsSum.snoc {results : List LLMResult} {total : LLMResult} (h : IsSum results total)
    (latest : LLMResult) : IsSum (results ++ [latest]) (accumulateLlmResult (some total) latest) where
  cost := by simp [accumulateLlmResult, h.cost]
  input := by simp [accumulateLlmResult, h.input]
  output := by simp [accumulateLlmResult, h.output]
  cacheRead := by simp [accumulateLlmResult, h.cacheRead]
  duration := by simp [accumulateLlmResult, h.duration]
  cacheCreation := by
    rw [List.map_append]
    exact h.cacheCreation.snoc _
  reasoning := by
    rw [List.map_append]
    exact h.reasoning.snoc _
  turns := by
    rw [List.map_append]
    exact h.turns.snoc _
  saved := by
    rw [List.map_append]
    exact h.saved.snoc _
  preCompression := by
    rw [List.map_append]
    exact h.preCompression.snoc _

theorem accumulated_snoc (results : List LLMResult) (latest : LLMResult) :
    accumulated (results ++ [latest]) = some (accumulateLlmResult (accumulated results) latest) := by
  unfold accumulated
  rw [List.foldl_append]
  rfl

/-- The merged result of turns has their sums, and the label of the last. -/
theorem accumulated_spec (results : List LLMResult) (last : LLMResult) :
    ∃ total, accumulated (results ++ [last]) = some total ∧ IsSum (results ++ [last]) total ∧
      total.costSource = last.costSource := by
  induction results using List.reverseRecOn generalizing last with
  | nil => exact ⟨last, rfl, isSum_singleton last, rfl⟩
  | append_singleton results result ih =>
    obtain ⟨total, htotal, hsum, -⟩ := ih result
    refine ⟨accumulateLlmResult (some total) last, ?_, hsum.snoc last, rfl⟩
    rw [accumulated_snoc, htotal]

/-- Merging the turns of a spawn gives the sums of their counters and the label of their costs together
exactly when the last turn's label is the one of the whole. -/
theorem accumulated_labelled_iff (results : List LLMResult) (last : LLMResult) :
    (∃ total, accumulated (results ++ [last]) = some total ∧ IsSum (results ++ [last]) total ∧
        combinedSource ((results ++ [last]).map (·.costSource)) = some total.costSource) ↔
      LastLabels (results.map (·.costSource)) last.costSource := by
  rw [List.map_append, List.map_singleton, ← combinedSource_snoc_eq_iff]
  obtain ⟨total, htotal, hsum, hsource⟩ := accumulated_spec results last
  constructor
  · rintro ⟨total', htotal', -, hlabel⟩
    rw [htotal, Option.some.injEq] at htotal'
    rw [hlabel, ← htotal', hsource]
  · intro h
    exact ⟨total, htotal, hsum, by rw [h, hsource]⟩

/-- A turn of unknown cost, and then a turn on a subscription: the merged result passes for complete. -/
theorem accumulated_hides_unknown :
    let unpriced : LLMResult := { text := [], inputTokens := 10 }
    let subscribed : LLMResult := { text := [], costSource := .subscription, inputTokens := 7 }
    ¬ ∃ total, accumulated [unpriced, subscribed] = some total ∧ IsSum [unpriced, subscribed] total ∧
      combinedSource ([unpriced, subscribed].map (·.costSource)) = some total.costSource := by
  intro unpriced subscribed h
  obtain ⟨total, htotal, -, hlabel⟩ := h
  cases htotal
  cases hlabel

end Llm

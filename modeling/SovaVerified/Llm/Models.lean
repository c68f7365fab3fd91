import SovaVerified.Core.Usage

/-!
# Results of LLM calls

`sova/llm/models.py`: the result of a call with all of its fields, and the merging of the terminal results
of one spawn.
-/

namespace Llm

open Core (CostSource)

structure LLMResult extends Core.LLMResult where
  text : Text
  durationMs : Nat := 0
  sessionId : Text := []
  stopReason : Text := []
  preCompressionInputTokens : Option Nat := none
  truncated : Bool := false

/-- `_sum_optional`. -/
def sumOptional : Option Nat → Option Nat → Option Nat
  | none, none => none
  | a, b => some (a.getD 0 + b.getD 0)

def accumulateLlmResult (previous : Option LLMResult) (latest : LLMResult) : LLMResult :=
  match previous with
  | none => latest
  | some previous =>
    { latest with
      costUsd := previous.costUsd + latest.costUsd
      cost_nonneg := add_nonneg previous.cost_nonneg latest.cost_nonneg
      inputTokens := previous.inputTokens + latest.inputTokens
      outputTokens := previous.outputTokens + latest.outputTokens
      cacheReadTokens := previous.cacheReadTokens + latest.cacheReadTokens
      cacheCreationTokens := sumOptional previous.cacheCreationTokens latest.cacheCreationTokens
      reasoningOutputTokens := sumOptional previous.reasoningOutputTokens latest.reasoningOutputTokens
      numTurns := sumOptional previous.numTurns latest.numTurns
      durationMs := previous.durationMs + latest.durationMs
      tokensSaved := sumOptional previous.tokensSaved latest.tokensSaved
      preCompressionInputTokens :=
        sumOptional previous.preCompressionInputTokens latest.preCompressionInputTokens }

/-- The loop over the terminal results of a spawn. -/
def accumulated (results : List LLMResult) : Option LLMResult :=
  results.foldl (fun previous latest => some (accumulateLlmResult previous latest)) none

/-- `combine_cost_sources` over a sequence. -/
def combinedSource (sources : List CostSource) : Option CostSource :=
  sources.foldl (fun current new => some (Core.combineCostSources current new)) none

end Llm

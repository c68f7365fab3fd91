import Mathlib.Algebra.Order.Ring.Rat
import SovaVerified.Text.Text

/-!
# Token usage and cost records

The accounting of `sova/core/context.py` and of `_update_step_execution` in `sova/core/workflow.py`:
every result of an LLM call is added to the totals of the context and, when it came from a runtime of
its own or from a routed model, to a share of the current attempt. At the end of the attempt each share
gets a cost record, and the rest of the attempt's spend goes to the provider's.
-/

namespace Core

inductive CostSource where
  | priced
  | freeLocal
  | subscription
  | unknown
  deriving DecidableEq, Repr

/-- The part of an `LLMResult` that is accounted for. Counts and costs are not negative. -/
structure LLMResult where
  model : Text := []
  costUsd : ℚ := 0
  cost_nonneg : 0 ≤ costUsd := by decide
  costSource : CostSource := .unknown
  inputTokens : Nat := 0
  outputTokens : Nat := 0
  cacheReadTokens : Nat := 0
  cacheCreationTokens : Option Nat := none
  tokensSaved : Option Nat := none
  reasoningOutputTokens : Option Nat := none
  runtimeName : Option Text := none
  routedTaskTypeModel : Option Text := none
  numTurns : Option Nat := none

@[ext]
structure TokenUsage where
  inputTokens : Int := 0
  outputTokens : Int := 0
  cacheReadTokens : Int := 0
  cacheWriteTokens : Int := 0
  tokensSaved : Option Int := none
  compressedCalls : Int := 0
  cacheWriteReportedCalls : Int := 0
  reasoningTokens : Int := 0
  reasoningReportedCalls : Int := 0
  turns : Int := 0
  turnsReportedCalls : Int := 0
  deriving DecidableEq

/-- `_delta_saved`. -/
def deltaSaved (after before : Option Int) (compressedCalls : Int) : Option Int :=
  if compressedCalls ≤ 0 then none else some (after.getD 0 - before.getD 0)

/-- The sum of two savings stays `none` only when neither side ran compression. -/
def addSaved : Option Int → Option Int → Option Int
  | none, none => none
  | a, b => some (a.getD 0 + b.getD 0)

def TokenUsage.sub (a b : TokenUsage) : TokenUsage :=
  let compressedCalls := a.compressedCalls - b.compressedCalls
  { inputTokens := a.inputTokens - b.inputTokens
    outputTokens := a.outputTokens - b.outputTokens
    cacheReadTokens := a.cacheReadTokens - b.cacheReadTokens
    cacheWriteTokens := a.cacheWriteTokens - b.cacheWriteTokens
    tokensSaved := deltaSaved a.tokensSaved b.tokensSaved compressedCalls
    compressedCalls
    cacheWriteReportedCalls := a.cacheWriteReportedCalls - b.cacheWriteReportedCalls
    reasoningTokens := a.reasoningTokens - b.reasoningTokens
    reasoningReportedCalls := a.reasoningReportedCalls - b.reasoningReportedCalls
    turns := a.turns - b.turns
    turnsReportedCalls := a.turnsReportedCalls - b.turnsReportedCalls }

def TokenUsage.add (a b : TokenUsage) : TokenUsage where
  inputTokens := a.inputTokens + b.inputTokens
  outputTokens := a.outputTokens + b.outputTokens
  cacheReadTokens := a.cacheReadTokens + b.cacheReadTokens
  cacheWriteTokens := a.cacheWriteTokens + b.cacheWriteTokens
  tokensSaved := addSaved a.tokensSaved b.tokensSaved
  compressedCalls := a.compressedCalls + b.compressedCalls
  cacheWriteReportedCalls := a.cacheWriteReportedCalls + b.cacheWriteReportedCalls
  reasoningTokens := a.reasoningTokens + b.reasoningTokens
  reasoningReportedCalls := a.reasoningReportedCalls + b.reasoningReportedCalls
  turns := a.turns + b.turns
  turnsReportedCalls := a.turnsReportedCalls + b.turnsReportedCalls

instance : Sub TokenUsage := ⟨TokenUsage.sub⟩
instance : Add TokenUsage := ⟨TokenUsage.add⟩
instance : Zero TokenUsage := ⟨{}⟩

/-! ## The context -/

/-- One model that a step routed calls to. -/
structure RoutedSpend where
  model : Text
  reason : Text
  usage : TokenUsage := {}
  costUsd : ℚ := 0
  costSource : Option CostSource := none
  deriving DecidableEq

/-- The accounting fields of the context: totals of the run, and shares of the current attempt. -/
structure Spending where
  costUsd : ℚ := 0
  usage : TokenUsage := {}
  runtimeUsage : Option TokenUsage := none
  runtimeCostUsd : ℚ := 0
  runtimeCostSource : Option CostSource := none
  costSource : Option CostSource := none
  providerModel : Option Text := none
  /-- The buckets in the order in which their models came up. -/
  routedSpend : List RoutedSpend := []
  deriving DecidableEq

/-- `combine_cost_sources`. -/
def combineCostSources (current : Option CostSource) (new : CostSource) : CostSource :=
  match current with
  | none => new
  | some current =>
    if current = new then new
    else if current = .unknown ∨ new = .unknown then .unknown
    else .priced

/-- The counters after one more result, as `add_usage` adds it to the totals. -/
def addToTotals (u : TokenUsage) (result : LLMResult) : TokenUsage :=
  { u with
    inputTokens := u.inputTokens + result.inputTokens
    outputTokens := u.outputTokens + result.outputTokens
    cacheReadTokens := u.cacheReadTokens + result.cacheReadTokens
    cacheWriteTokens := match result.cacheCreationTokens with
      | some n => u.cacheWriteTokens + n
      | none => u.cacheWriteTokens
    cacheWriteReportedCalls := match result.cacheCreationTokens with
      | some _ => u.cacheWriteReportedCalls + 1
      | none => u.cacheWriteReportedCalls
    reasoningTokens := match result.reasoningOutputTokens with
      | some n => u.reasoningTokens + n
      | none => u.reasoningTokens
    reasoningReportedCalls := match result.reasoningOutputTokens with
      | some _ => u.reasoningReportedCalls + 1
      | none => u.reasoningReportedCalls
    turns := match result.numTurns with
      | some n => u.turns + n
      | none => u.turns
    turnsReportedCalls := match result.numTurns with
      | some _ => u.turnsReportedCalls + 1
      | none => u.turnsReportedCalls
    tokensSaved := match result.tokensSaved with
      | some n => some (u.tokensSaved.getD 0 + n)
      | none => u.tokensSaved
    compressedCalls := match result.tokensSaved with
      | some _ => u.compressedCalls + 1
      | none => u.compressedCalls }

/-- The usage of one result, as `_add_routed_spend` writes it down. -/
def resultUsage (result : LLMResult) : TokenUsage where
  inputTokens := result.inputTokens
  outputTokens := result.outputTokens
  cacheReadTokens := result.cacheReadTokens
  cacheWriteTokens := (result.cacheCreationTokens.getD 0 : Nat)
  tokensSaved := result.tokensSaved.map fun n => (n : Int)
  compressedCalls := if result.tokensSaved.isSome then 1 else 0
  cacheWriteReportedCalls := if result.cacheCreationTokens.isSome then 1 else 0
  reasoningTokens := (result.reasoningOutputTokens.getD 0 : Nat)
  reasoningReportedCalls := if result.reasoningOutputTokens.isSome then 1 else 0
  turns := (result.numTurns.getD 0 : Nat)
  turnsReportedCalls := if result.numTurns.isSome then 1 else 0

/-- The bucket of the model gets one more result. -/
def addToBucket (bucket : RoutedSpend) (result : LLMResult) : RoutedSpend :=
  { bucket with
    usage := bucket.usage + resultUsage result
    costUsd := bucket.costUsd + result.costUsd
    costSource := combineCostSources bucket.costSource result.costSource }

/-- `_add_routed_spend`, under the key of the model that ran. -/
def addRoutedSpend (key reason : Text) (result : LLMResult) : List RoutedSpend → List RoutedSpend
  | [] => [addToBucket { model := key, reason } result]
  | bucket :: buckets =>
    if bucket.model = key then addToBucket bucket result :: buckets
    else bucket :: addRoutedSpend key reason result buckets

/-- Which share of the attempt a call of `add_usage` goes to. -/
inductive Share where
  | runtime
  | routed (key reason : Text)
  | plain
  deriving DecidableEq

/-- A result with the `routed_reason` it is recorded with. -/
structure UsageEvent where
  result : LLMResult
  routedReason : Option Text := none

def UsageEvent.share (event : UsageEvent) : Share :=
  if event.result.runtimeName.isSome then .runtime
  else match event.routedReason, event.result.routedTaskTypeModel with
    | some reason, some routed =>
      .routed (if event.result.model.isEmpty then routed else event.result.model) reason
    | _, _ => .plain

/-- `add_usage`. -/
def addUsage (ctx : Spending) (event : UsageEvent) : Spending :=
  let result := event.result
  let totals := addToTotals ctx.usage result
  let spent := { ctx with costUsd := ctx.costUsd + result.costUsd, usage := totals }
  match event.share with
  | .routed key reason => { spent with routedSpend := addRoutedSpend key reason result ctx.routedSpend }
  | .plain =>
    { spent with
      costSource := combineCostSources ctx.costSource result.costSource
      providerModel := if result.model.isEmpty then ctx.providerModel else some result.model }
  | .runtime =>
    let delta := totals - ctx.usage
    { spent with
      runtimeUsage := match ctx.runtimeUsage with
        | none => some delta
        | some usage => some (usage + delta)
      runtimeCostUsd := ctx.runtimeCostUsd + result.costUsd
      runtimeCostSource := combineCostSources ctx.runtimeCostSource result.costSource }

/-- The reset before every attempt. -/
def resetShares (ctx : Spending) : Spending :=
  { costUsd := ctx.costUsd, usage := ctx.usage }

/-! ## Cost records -/

structure CostRecord where
  model : Text
  costUsd : ℚ
  costSource : Option CostSource
  modelSelectionReason : Option Text
  inputTokens : Int
  outputTokens : Int
  cacheTokens : Int
  cacheReadTokens : Int
  cacheWriteTokens : Option Int
  reasoningTokens : Option Int
  numTurns : Option Int
  tokensSaved : Option Int
  preCompressionInputTokens : Option Int
  deriving DecidableEq

def usageHasTokens (usage : TokenUsage) : Bool :=
  decide (0 < usage.inputTokens) || decide (0 < usage.outputTokens) ||
    decide (0 < usage.cacheReadTokens) || decide (0 < usage.cacheWriteTokens) ||
    decide (0 < usage.turnsReportedCalls)

/-- `_build_cost_record`; a figure that no call reported stays `none`. -/
def buildCostRecord (model : Text) (costUsd : ℚ) (costSource : Option CostSource)
    (modelSelectionReason : Option Text) (usage : TokenUsage) : CostRecord where
  model := model
  costUsd := costUsd
  costSource := costSource
  modelSelectionReason := modelSelectionReason
  inputTokens := usage.inputTokens
  outputTokens := usage.outputTokens
  cacheTokens := usage.cacheReadTokens + usage.cacheWriteTokens
  cacheReadTokens := usage.cacheReadTokens
  cacheWriteTokens := if usage.cacheWriteReportedCalls > 0 then some usage.cacheWriteTokens else none
  reasoningTokens := if usage.reasoningReportedCalls > 0 then some usage.reasoningTokens else none
  numTurns := if usage.turnsReportedCalls > 0 then some usage.turns else none
  tokensSaved := usage.tokensSaved
  preCompressionInputTokens := usage.tokensSaved.map (usage.inputTokens + ·)

/-- The models and reasons that cost records are labelled with. -/
structure RecordLabels where
  runtimeModel : Option Text := none
  runtimeModelReason : Option Text := none
  resolvedModel : Option Text := none
  stepModelSelectionReason : Option Text := none
  modelSelectionReason : Option Text := none
  deriving DecidableEq

/-- A name, or `unknown` when there is none. -/
def orUnknown (model : Option Text) : Text := (model.filter fun m => !m.isEmpty).getD "unknown".toList

/-- The cost records of `_update_step_execution`, for a step result with this cost and usage. -/
def costRecords (labels : RecordLabels) (ctx : Spending) (costUsd : ℚ) (usage : Option TokenUsage) :
    List CostRecord :=
  let totalUsage := usage.getD {}
  let runtime := match ctx.runtimeUsage with
    | some runtimeUsage => [buildCostRecord (orUnknown labels.runtimeModel) ctx.runtimeCostUsd
        ctx.runtimeCostSource labels.runtimeModelReason runtimeUsage]
    | none => []
  let afterRuntime : TokenUsage × ℚ := match ctx.runtimeUsage with
    | some runtimeUsage =>
      (if usage.isSome then totalUsage - runtimeUsage else {}, max (costUsd - ctx.runtimeCostUsd) 0)
    | none => (totalUsage, costUsd)
  let routed := ctx.routedSpend.map fun bucket =>
    buildCostRecord bucket.model bucket.costUsd bucket.costSource (some bucket.reason) bucket.usage
  let provider := ctx.routedSpend.foldl (fun (rest : TokenUsage × ℚ) bucket =>
    (if usage.isSome then rest.1 - bucket.usage else rest.1, max (rest.2 - bucket.costUsd) 0))
    afterRuntime
  let providerRecord :=
    if 0 < provider.2 ∨ usageHasTokens provider.1 then
      [buildCostRecord (orUnknown (ctx.providerModel.or labels.resolvedModel)) provider.2
        ctx.costSource (labels.stepModelSelectionReason.or labels.modelSelectionReason) provider.1]
    else []
  runtime ++ routed ++ providerRecord

/-! ## An attempt -/

/-- The context at the end of an attempt with these results. -/
def spendAttempt (ctx : Spending) (events : List UsageEvent) : Spending :=
  events.foldl addUsage (resetShares ctx)

/-- The cost of the step as the engine records it: what the step returned, or the context's figure when
that is more. -/
def attemptCost (ctx : Spending) (events : List UsageEvent) (returned : ℚ) : ℚ :=
  let stepCost := (spendAttempt ctx events).costUsd - ctx.costUsd
  if returned < stepCost then stepCost else returned

/-- The usage delta of the attempt. -/
def attemptUsage (ctx : Spending) (events : List UsageEvent) : TokenUsage :=
  (spendAttempt ctx events).usage - ctx.usage

/-- The cost records of an attempt whose step returned a result with the given cost. -/
def attemptRecords (labels : RecordLabels) (ctx : Spending) (events : List UsageEvent)
    (returned : ℚ) : List CostRecord :=
  costRecords labels (spendAttempt ctx events) (attemptCost ctx events returned)
    (some (attemptUsage ctx events))

end Core

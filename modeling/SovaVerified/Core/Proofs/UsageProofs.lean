import Mathlib.Tactic.Abel
import Mathlib.Tactic.Linarith
import SovaVerified.Core.Proofs.RetryProofs
import SovaVerified.Core.Proofs.WorkflowProofs
import SovaVerified.Core.Usage
import SovaVerified.Shares.Shares

/-!
# Conservation of the spend of an attempt

Every result of an attempt goes to one of three shares: the runtime's, a routed model's or the rest. The
totals of the context grow by the sum of all results, and each bucket by the sum of its own, so that
taking the buckets out of the attempt's delta leaves exactly the plain results. The one way to lose
some of it is the provider's record, which is not written for a share without cost, tokens or turns.
-/

namespace Core

open Shares

/-! ## Usage as a monoid -/

theorem addSaved_comm (a b : Option Int) : addSaved a b = addSaved b a := by
  cases a <;> cases b <;> simp [addSaved, add_comm]

theorem addSaved_assoc (a b c : Option Int) :
    addSaved (addSaved a b) c = addSaved a (addSaved b c) := by
  cases a <;> cases b <;> cases c <;> simp [addSaved, add_assoc]

theorem addSaved_none (a : Option Int) : addSaved none a = a := by
  cases a <;> simp [addSaved]

theorem getD_addSaved (a b : Option Int) : (addSaved a b).getD 0 = a.getD 0 + b.getD 0 := by
  cases a <;> cases b <;> simp [addSaved]

theorem TokenUsage.add_def (a b : TokenUsage) : a + b = TokenUsage.add a b := rfl

theorem TokenUsage.sub_def (a b : TokenUsage) : a - b = TokenUsage.sub a b := rfl

theorem TokenUsage.zero_def : (0 : TokenUsage) = {} := rfl

instance : AddCommMonoid TokenUsage where
  add_assoc a b c := by
    ext1 <;> simp [TokenUsage.add_def, TokenUsage.add, add_assoc, addSaved_assoc]
  zero_add a := by
    ext1 <;> simp [TokenUsage.add_def, TokenUsage.add, TokenUsage.zero_def, addSaved_none]
  add_zero a := by
    ext1 <;> simp [TokenUsage.add_def, TokenUsage.add, TokenUsage.zero_def, addSaved_comm a.tokensSaved,
      addSaved_none]
  add_comm a b := by
    ext1 <;> simp [TokenUsage.add_def, TokenUsage.add, add_comm, addSaved_comm a.tokensSaved]
  nsmul := nsmulRec

/-- Usage as a sum of results has it: no count is negative, and a figure that no call reported is
zero. -/
structure TokenUsage.Valid (u : TokenUsage) : Prop where
  input : 0 ≤ u.inputTokens
  output : 0 ≤ u.outputTokens
  cacheRead : 0 ≤ u.cacheReadTokens
  cacheWrite : 0 ≤ u.cacheWriteTokens
  reasoning : 0 ≤ u.reasoningTokens
  turns : 0 ≤ u.turns
  saved : 0 ≤ u.tokensSaved.getD 0
  cacheWriteCalls : 0 ≤ u.cacheWriteReportedCalls
  reasoningCalls : 0 ≤ u.reasoningReportedCalls
  turnsCalls : 0 ≤ u.turnsReportedCalls
  compressedCalls : 0 ≤ u.compressedCalls
  cacheWrite_reported : u.cacheWriteReportedCalls = 0 → u.cacheWriteTokens = 0
  reasoning_reported : u.reasoningReportedCalls = 0 → u.reasoningTokens = 0
  turns_reported : u.turnsReportedCalls = 0 → u.turns = 0
  saved_reported : u.compressedCalls = 0 ↔ u.tokensSaved = none

theorem TokenUsage.Valid.zero : TokenUsage.Valid 0 := by
  constructor <;> simp [TokenUsage.zero_def]

theorem addSaved_eq_none {a b : Option Int} : addSaved a b = none ↔ a = none ∧ b = none := by
  cases a <;> cases b <;> simp [addSaved]

theorem TokenUsage.Valid.add {a b : TokenUsage} (ha : a.Valid) (hb : b.Valid) : (a + b).Valid := by
  have hcw := ha.cacheWriteCalls
  have hcw' := hb.cacheWriteCalls
  have hr := ha.reasoningCalls
  have hr' := hb.reasoningCalls
  have ht := ha.turnsCalls
  have ht' := hb.turnsCalls
  have hc := ha.compressedCalls
  have hc' := hb.compressedCalls
  rw [TokenUsage.add_def]
  refine ⟨add_nonneg ha.input hb.input, add_nonneg ha.output hb.output,
    add_nonneg ha.cacheRead hb.cacheRead, add_nonneg ha.cacheWrite hb.cacheWrite,
    add_nonneg ha.reasoning hb.reasoning, add_nonneg ha.turns hb.turns, ?_, add_nonneg hcw hcw',
    add_nonneg hr hr', add_nonneg ht ht', add_nonneg hc hc', ?_, ?_, ?_, ?_⟩
  · show 0 ≤ (addSaved a.tokensSaved b.tokensSaved).getD 0
    rw [getD_addSaved]
    exact add_nonneg ha.saved hb.saved
  · intro h
    have h' : a.cacheWriteReportedCalls + b.cacheWriteReportedCalls = 0 := h
    show a.cacheWriteTokens + b.cacheWriteTokens = 0
    rw [ha.cacheWrite_reported (by omega), hb.cacheWrite_reported (by omega), add_zero]
  · intro h
    have h' : a.reasoningReportedCalls + b.reasoningReportedCalls = 0 := h
    show a.reasoningTokens + b.reasoningTokens = 0
    rw [ha.reasoning_reported (by omega), hb.reasoning_reported (by omega), add_zero]
  · intro h
    have h' : a.turnsReportedCalls + b.turnsReportedCalls = 0 := h
    show a.turns + b.turns = 0
    rw [ha.turns_reported (by omega), hb.turns_reported (by omega), add_zero]
  · show a.compressedCalls + b.compressedCalls = 0 ↔ addSaved a.tokensSaved b.tokensSaved = none
    rw [addSaved_eq_none, ← ha.saved_reported, ← hb.saved_reported]
    omega

/-- Subtracting a total from a later one leaves the usage in between. -/
theorem TokenUsage.add_sub_cancel_left (a : TokenUsage) {b : TokenUsage} (hb : b.Valid) :
    a + b - a = b := by
  have hcalls := hb.compressedCalls
  rw [TokenUsage.add_def, TokenUsage.sub_def]
  ext1
  case tokensSaved =>
    show deltaSaved (addSaved a.tokensSaved b.tokensSaved) a.tokensSaved
      (a.compressedCalls + b.compressedCalls - a.compressedCalls) = b.tokensSaved
    unfold deltaSaved
    by_cases hnone : b.compressedCalls = 0
    · rw [if_pos (by omega), hb.saved_reported.mp hnone]
    · obtain ⟨n, hn⟩ : ∃ n, b.tokensSaved = some n :=
        Option.ne_none_iff_exists'.mp fun h => hnone (hb.saved_reported.mpr h)
      rw [if_neg (by omega), getD_addSaved, hn]
      simp
  all_goals simp [TokenUsage.sub, TokenUsage.add]

/-! ## One result -/

theorem valid_resultUsage (result : LLMResult) : (resultUsage result).Valid := by
  constructor
  case saved => cases h : result.tokensSaved <;> simp [resultUsage, h]
  case saved_reported => cases h : result.tokensSaved <;> simp [resultUsage, h]
  case cacheWrite_reported => cases h : result.cacheCreationTokens <;> simp [resultUsage, h]
  case reasoning_reported => cases h : result.reasoningOutputTokens <;> simp [resultUsage, h]
  case turns_reported => cases h : result.numTurns <;> simp [resultUsage, h]
  case cacheWriteCalls => cases h : result.cacheCreationTokens <;> simp [resultUsage, h]
  case reasoningCalls => cases h : result.reasoningOutputTokens <;> simp [resultUsage, h]
  case turnsCalls => cases h : result.numTurns <;> simp [resultUsage, h]
  case compressedCalls => cases h : result.tokensSaved <;> simp [resultUsage, h]
  all_goals simp [resultUsage]

/-- The totals grow by the usage that a routed bucket would be given. -/
theorem addToTotals_eq (u : TokenUsage) (result : LLMResult) :
    addToTotals u result = u + resultUsage result := by
  rw [TokenUsage.add_def]
  ext1
  case tokensSaved =>
    cases h : result.tokensSaved <;> cases h' : u.tokensSaved <;>
      simp [addToTotals, TokenUsage.add, resultUsage, addSaved, h, h']
  case compressedCalls => cases h : result.tokensSaved <;> simp [addToTotals, TokenUsage.add, resultUsage, h]
  case cacheWriteTokens =>
    cases h : result.cacheCreationTokens <;> simp [addToTotals, TokenUsage.add, resultUsage, h]
  case cacheWriteReportedCalls =>
    cases h : result.cacheCreationTokens <;> simp [addToTotals, TokenUsage.add, resultUsage, h]
  case reasoningTokens =>
    cases h : result.reasoningOutputTokens <;> simp [addToTotals, TokenUsage.add, resultUsage, h]
  case reasoningReportedCalls =>
    cases h : result.reasoningOutputTokens <;> simp [addToTotals, TokenUsage.add, resultUsage, h]
  case turns => cases h : result.numTurns <;> simp [addToTotals, TokenUsage.add, resultUsage, h]
  case turnsReportedCalls =>
    cases h : result.numTurns <;> simp [addToTotals, TokenUsage.add, resultUsage, h]
  all_goals rfl

/-! ## The shares of an attempt -/

def usageOf (events : List UsageEvent) : TokenUsage := (events.map fun e => resultUsage e.result).sum

def costOf (events : List UsageEvent) : ℚ := (events.map fun e => e.result.costUsd).sum

/-- The event goes to the bucket of a routed model. -/
def UsageEvent.isRouted (e : UsageEvent) : Bool :=
  match e.share with
  | .routed _ _ => true
  | _ => false

def runtimeEvents (events : List UsageEvent) : List UsageEvent := events.filter (·.share = .runtime)

def routedEvents (events : List UsageEvent) : List UsageEvent := events.filter UsageEvent.isRouted

def plainEvents (events : List UsageEvent) : List UsageEvent := events.filter (·.share = .plain)

theorem usageOf_append (a b : List UsageEvent) : usageOf (a ++ b) = usageOf a + usageOf b := by
  simp [usageOf]

theorem costOf_append (a b : List UsageEvent) : costOf (a ++ b) = costOf a + costOf b := by
  simp [costOf]

theorem valid_sum {l : List TokenUsage} (h : ∀ u ∈ l, u.Valid) : l.sum.Valid := by
  induction l with
  | nil => exact TokenUsage.Valid.zero
  | cons u l ih =>
    rw [List.sum_cons]
    exact (h u (List.mem_cons_self ..)).add (ih fun v hv => h v (List.mem_cons_of_mem _ hv))

theorem valid_usageOf (events : List UsageEvent) : (usageOf events).Valid := by
  refine valid_sum ?_
  intro u hu
  obtain ⟨e, -, rfl⟩ := List.mem_map.mp hu
  exact valid_resultUsage e.result

theorem costOf_nonneg (events : List UsageEvent) : 0 ≤ costOf events := by
  refine List.sum_nonneg ?_
  intro c hc
  obtain ⟨e, -, rfl⟩ := List.mem_map.mp hc
  exact e.result.cost_nonneg

/-- Every event is in one of the three shares. -/
theorem sum_shares {M : Type*} [AddCommMonoid M] (f : UsageEvent → M) (events : List UsageEvent) :
    (events.map f).sum = ((runtimeEvents events).map f).sum +
      (((routedEvents events).map f).sum + ((plainEvents events).map f).sum) := by
  induction events with
  | nil => simp [runtimeEvents, routedEvents, plainEvents]
  | cons e events ih =>
    rw [List.map_cons, List.sum_cons, ih]
    unfold runtimeEvents routedEvents plainEvents
    cases hshare : e.share with
    | runtime => simp [hshare, UsageEvent.isRouted, add_assoc]
    | routed key reason =>
      simp [hshare, UsageEvent.isRouted]
      abel
    | plain =>
      simp [hshare, UsageEvent.isRouted]
      abel

/-- What the accounting fields hold after the events of an attempt. -/
structure Ledger (start : Spending) (events : List UsageEvent) (s : Spending) : Prop where
  cost : s.costUsd = start.costUsd + costOf events
  usage : s.usage = start.usage + usageOf events
  runtimeCost : s.runtimeCostUsd = costOf (runtimeEvents events)
  runtimeUsage : s.runtimeUsage =
    if runtimeEvents events = [] then none else some (usageOf (runtimeEvents events))
  routedUsage : (s.routedSpend.map RoutedSpend.usage).sum = usageOf (routedEvents events)
  routedCost : (s.routedSpend.map RoutedSpend.costUsd).sum = costOf (routedEvents events)
  routedValid : ∀ b ∈ s.routedSpend, b.usage.Valid ∧ 0 ≤ b.costUsd

theorem valid_addToBucket {b : RoutedSpend} (result : LLMResult)
    (hb : b.usage.Valid ∧ 0 ≤ b.costUsd) :
    (addToBucket b result).usage.Valid ∧ 0 ≤ (addToBucket b result).costUsd :=
  ⟨hb.1.add (valid_resultUsage result), add_nonneg hb.2 result.cost_nonneg⟩

/-- The buckets together grow by what the bucket of one result grows by. -/
theorem sum_addRoutedSpend {M : Type*} [AddCommMonoid M] (g : RoutedSpend → M) {result : LLMResult}
    {x : M} (hnew : ∀ key reason, g { model := key, reason } = 0)
    (hadd : ∀ b, g (addToBucket b result) = g b + x) (key reason : Text)
    (buckets : List RoutedSpend) :
    ((addRoutedSpend key reason result buckets).map g).sum = (buckets.map g).sum + x := by
  induction buckets with
  | nil => simp [addRoutedSpend, hadd, hnew]
  | cons b buckets ih =>
    unfold addRoutedSpend
    by_cases hkey : b.model = key
    · rw [if_pos hkey]
      simp only [List.map_cons, List.sum_cons, hadd]
      abel
    · rw [if_neg hkey]
      simp only [List.map_cons, List.sum_cons, ih]
      abel

theorem addRoutedSpend_valid {key reason : Text} {result : LLMResult} {buckets : List RoutedSpend}
    (h : ∀ b ∈ buckets, b.usage.Valid ∧ 0 ≤ b.costUsd) :
    ∀ b ∈ addRoutedSpend key reason result buckets, b.usage.Valid ∧ 0 ≤ b.costUsd := by
  induction buckets with
  | nil =>
    intro b hb
    have heq : b = addToBucket { model := key, reason } result := List.mem_singleton.mp hb
    rw [heq]
    exact valid_addToBucket result ⟨TokenUsage.Valid.zero, le_refl 0⟩
  | cons b₀ buckets ih =>
    have hb₀ := h b₀ (List.mem_cons_self ..)
    have hrest : ∀ b ∈ buckets, b.usage.Valid ∧ 0 ≤ b.costUsd := fun b hb =>
      h b (List.mem_cons_of_mem _ hb)
    intro b hb
    unfold addRoutedSpend at hb
    by_cases hkey : b₀.model = key
    · rw [if_pos hkey, List.mem_cons] at hb
      rcases hb with hb | hb
      · rw [hb]
        exact valid_addToBucket result hb₀
      · exact hrest b hb
    · rw [if_neg hkey, List.mem_cons] at hb
      rcases hb with hb | hb
      · rw [hb]
        exact hb₀
      · exact ih hrest b hb

theorem Ledger.addUsage {start s : Spending} {events : List UsageEvent} (h : Ledger start events s)
    (e : UsageEvent) : Ledger start (events ++ [e]) (addUsage s e) := by
  have hcost : s.costUsd + e.result.costUsd = start.costUsd + costOf (events ++ [e]) := by
    rw [h.cost, costOf_append]
    simp [costOf, add_assoc]
  have husage : addToTotals s.usage e.result = start.usage + usageOf (events ++ [e]) := by
    rw [addToTotals_eq, h.usage, usageOf_append]
    simp [usageOf, add_assoc]
  have hone : usageOf [e] = resultUsage e.result := by simp [usageOf]
  have hone' : costOf [e] = e.result.costUsd := by simp [costOf]
  have hruntime : runtimeEvents (events ++ [e]) =
      runtimeEvents events ++ if e.share = .runtime then [e] else [] := by
    simp [runtimeEvents, List.filter_cons]
  have hrouted : routedEvents (events ++ [e]) =
      routedEvents events ++ if e.isRouted then [e] else [] := by
    simp [routedEvents, List.filter_cons]
  unfold Core.addUsage
  cases hshare : e.share with
  | runtime =>
    have hrouted' : routedEvents (events ++ [e]) = routedEvents events := by
      simp [hrouted, UsageEvent.isRouted, hshare]
    rw [hshare, if_pos rfl] at hruntime
    refine ⟨hcost, husage, ?_, ?_, ?_, ?_, h.routedValid⟩
    · show s.runtimeCostUsd + e.result.costUsd = _
      rw [h.runtimeCost, hruntime, costOf_append, hone']
    · have hdelta : addToTotals s.usage e.result - s.usage = resultUsage e.result := by
        rw [addToTotals_eq, TokenUsage.add_sub_cancel_left s.usage (valid_resultUsage e.result)]
      rw [hruntime, if_neg (by simp), usageOf_append, hone]
      simp only [hdelta, h.runtimeUsage]
      by_cases hempty : runtimeEvents events = []
      · simp [hempty, usageOf]
      · simp [hempty]
    · rw [hrouted']
      exact h.routedUsage
    · rw [hrouted']
      exact h.routedCost
  | routed key reason =>
    rw [hshare, if_neg (by simp), List.append_nil] at hruntime
    have hrouted' : routedEvents (events ++ [e]) = routedEvents events ++ [e] := by
      simp [hrouted, UsageEvent.isRouted, hshare]
    refine ⟨hcost, husage, ?_, ?_, ?_, ?_, addRoutedSpend_valid h.routedValid⟩
    · rw [hruntime]
      exact h.runtimeCost
    · rw [hruntime]
      exact h.runtimeUsage
    · show ((addRoutedSpend key reason e.result s.routedSpend).map RoutedSpend.usage).sum = _
      rw [sum_addRoutedSpend RoutedSpend.usage (fun _ _ => rfl) (fun _ => rfl), h.routedUsage,
        hrouted', usageOf_append, hone]
    · show ((addRoutedSpend key reason e.result s.routedSpend).map RoutedSpend.costUsd).sum = _
      rw [sum_addRoutedSpend RoutedSpend.costUsd (fun _ _ => rfl) (fun _ => rfl), h.routedCost,
        hrouted', costOf_append, hone']
  | plain =>
    rw [hshare, if_neg (by simp), List.append_nil] at hruntime
    have hrouted' : routedEvents (events ++ [e]) = routedEvents events := by
      simp [hrouted, UsageEvent.isRouted, hshare]
    refine ⟨hcost, husage, ?_, ?_, ?_, ?_, h.routedValid⟩
    · rw [hruntime]
      exact h.runtimeCost
    · rw [hruntime]
      exact h.runtimeUsage
    · rw [hrouted']
      exact h.routedUsage
    · rw [hrouted']
      exact h.routedCost

theorem Ledger.foldl {start s : Spending} {before : List UsageEvent} (events : List UsageEvent)
    (h : Ledger start before s) : Ledger start (before ++ events) (events.foldl Core.addUsage s) := by
  induction events generalizing before s with
  | nil => simpa using h
  | cons e events ih =>
    have hnext := ih (h.addUsage e)
    rw [List.append_assoc] at hnext
    exact hnext

theorem ledger_spendAttempt (ctx : Spending) (events : List UsageEvent) :
    Ledger ctx events (spendAttempt ctx events) := by
  have hreset : Ledger ctx [] (resetShares ctx) := by
    refine ⟨?_, ?_, rfl, rfl, rfl, rfl, ?_⟩
    · simp [resetShares, costOf]
    · simp [resetShares, usageOf]
    · intro b hb
      cases hb
  exact hreset.foldl events

/-! ## The fields of a record -/

/-- The counts of a cost record. -/
inductive TokenField where
  | input
  | output
  | cache
  | cacheRead
  | cacheWrite
  | reasoning
  | turns
  | saved
  deriving DecidableEq

def TokenField.ofUsage : TokenField → TokenUsage → Int
  | .input, u => u.inputTokens
  | .output, u => u.outputTokens
  | .cache, u => u.cacheReadTokens + u.cacheWriteTokens
  | .cacheRead, u => u.cacheReadTokens
  | .cacheWrite, u => u.cacheWriteTokens
  | .reasoning, u => u.reasoningTokens
  | .turns, u => u.turns
  | .saved, u => u.tokensSaved.getD 0

/-- A figure that was not reported counts as zero. -/
def TokenField.ofRecord : TokenField → CostRecord → Int
  | .input, r => r.inputTokens
  | .output, r => r.outputTokens
  | .cache, r => r.cacheTokens
  | .cacheRead, r => r.cacheReadTokens
  | .cacheWrite, r => r.cacheWriteTokens.getD 0
  | .reasoning, r => r.reasoningTokens.getD 0
  | .turns, r => r.numTurns.getD 0
  | .saved, r => r.tokensSaved.getD 0

theorem TokenField.ofUsage_add (f : TokenField) (a b : TokenUsage) :
    f.ofUsage (a + b) = f.ofUsage a + f.ofUsage b := by
  cases f with
  | saved => exact getD_addSaved a.tokensSaved b.tokensSaved
  | cache => exact add_add_add_comm a.cacheReadTokens b.cacheReadTokens a.cacheWriteTokens b.cacheWriteTokens
  | _ => rfl

theorem TokenField.ofUsage_zero (f : TokenField) : f.ofUsage 0 = 0 := by
  cases f <;> rfl

theorem TokenField.ofUsage_sum (f : TokenField) (l : List TokenUsage) :
    f.ofUsage l.sum = (l.map f.ofUsage).sum := by
  induction l with
  | nil => exact f.ofUsage_zero
  | cons u l ih => rw [List.sum_cons, f.ofUsage_add, ih, List.map_cons, List.sum_cons]

theorem TokenField.ofUsage_nonneg (f : TokenField) {u : TokenUsage} (hu : u.Valid) :
    0 ≤ f.ofUsage u := by
  cases f with
  | input => exact hu.input
  | output => exact hu.output
  | cache => exact add_nonneg hu.cacheRead hu.cacheWrite
  | cacheRead => exact hu.cacheRead
  | cacheWrite => exact hu.cacheWrite
  | reasoning => exact hu.reasoning
  | turns => exact hu.turns
  | saved => exact hu.saved

/-- A figure that is left out because no call reported it was zero. -/
theorem getD_reported {calls tokens : Int} (hcalls : 0 ≤ calls) (hzero : calls = 0 → tokens = 0) :
    (if calls > 0 then some tokens else none).getD 0 = tokens := by
  by_cases hpos : calls > 0
  · rw [if_pos hpos]
    rfl
  · rw [if_neg hpos, hzero (by omega)]
    rfl

theorem TokenField.ofRecord_buildCostRecord (f : TokenField) {u : TokenUsage} (hu : u.Valid)
    (model : Text) (cost : ℚ) (source : Option CostSource) (reason : Option Text) :
    f.ofRecord (buildCostRecord model cost source reason u) = f.ofUsage u := by
  cases f with
  | cacheWrite => exact getD_reported hu.cacheWriteCalls hu.cacheWrite_reported
  | reasoning => exact getD_reported hu.reasoningCalls hu.reasoning_reported
  | turns => exact getD_reported hu.turnsCalls hu.turns_reported
  | _ => rfl

/-! ## The records of an attempt -/

theorem attemptUsage_eq (ctx : Spending) (events : List UsageEvent) :
    attemptUsage ctx events = usageOf events := by
  unfold attemptUsage
  rw [(ledger_spendAttempt ctx events).usage]
  exact TokenUsage.add_sub_cancel_left ctx.usage (valid_usageOf events)

theorem attemptCost_eq (ctx : Spending) (events : List UsageEvent) (returned : ℚ) :
    attemptCost ctx events returned = max returned (costOf events) := by
  have hcost : (spendAttempt ctx events).costUsd - ctx.costUsd = costOf events := by
    rw [(ledger_spendAttempt ctx events).cost]
    exact add_sub_cancel_left ctx.costUsd (costOf events)
  unfold attemptCost
  simp only [hcost, max_def]
  by_cases hlt : returned < costOf events
  · rw [if_pos hlt, if_pos hlt.le]
  · rw [if_neg hlt]
    by_cases hle : returned ≤ costOf events
    · rw [if_pos hle]
      exact le_antisymm hle (not_lt.mp hlt)
    · rw [if_neg hle]

/-- Taking the buckets out of a total that starts with them leaves the rest. -/
theorem foldl_buckets {buckets : List RoutedSpend} {rest : TokenUsage} (cost : ℚ)
    (hbuckets : ∀ b ∈ buckets, b.usage.Valid ∧ 0 ≤ b.costUsd) (hrest : rest.Valid) :
    buckets.foldl (fun (left : TokenUsage × ℚ) bucket =>
        (left.1 - bucket.usage, max (left.2 - bucket.costUsd) 0))
        ((buckets.map RoutedSpend.usage).sum + rest, cost) =
      (rest, leftover cost (buckets.map RoutedSpend.costUsd)) := by
  induction buckets generalizing cost with
  | nil => simp [leftover]
  | cons b buckets ih =>
    have htail : ∀ b ∈ buckets, b.usage.Valid ∧ 0 ≤ b.costUsd := fun b hb =>
      hbuckets b (List.mem_cons_of_mem _ hb)
    have hvalid : ((buckets.map RoutedSpend.usage).sum + rest).Valid := by
      refine (valid_sum ?_).add hrest
      intro u hu
      obtain ⟨b', hb', rfl⟩ := List.mem_map.mp hu
      exact (htail b' hb').1
    have hsub : b.usage + (buckets.map RoutedSpend.usage).sum + rest - b.usage =
        (buckets.map RoutedSpend.usage).sum + rest := by
      rw [add_assoc]
      exact TokenUsage.add_sub_cancel_left b.usage hvalid
    rw [List.foldl_cons, List.map_cons, List.sum_cons, hsub, ih _ htail]
    rfl

/-- The cost of an attempt covers the shares that are taken out of it. -/
theorem shares_le_attemptCost (ctx : Spending) (events : List UsageEvent) (returned : ℚ) :
    costOf (runtimeEvents events) + costOf (routedEvents events) ≤
      attemptCost ctx events returned := by
  have hsplit : costOf events = _ := sum_shares (fun e => e.result.costUsd) events
  have hplain := costOf_nonneg (plainEvents events)
  have hmax : costOf events ≤ max returned (costOf events) := le_max_right ..
  rw [attemptCost_eq]
  unfold costOf at *
  linarith

/-- What is left of the attempt's cost for the provider. -/
def providerCost (ctx : Spending) (events : List UsageEvent) (returned : ℚ) : ℚ :=
  attemptCost ctx events returned - costOf (runtimeEvents events) - costOf (routedEvents events)

/-- The provider's record is written. -/
def ProviderWritten (ctx : Spending) (events : List UsageEvent) (returned : ℚ) : Prop :=
  0 < providerCost ctx events returned ∨ usageHasTokens (usageOf (plainEvents events)) = true

instance (ctx : Spending) (events : List UsageEvent) (returned : ℚ) :
    Decidable (ProviderWritten ctx events returned) :=
  inferInstanceAs (Decidable (_ ∨ _))

theorem providerCost_nonneg (ctx : Spending) (events : List UsageEvent) (returned : ℚ) :
    0 ≤ providerCost ctx events returned := by
  have hle := shares_le_attemptCost ctx events returned
  unfold providerCost
  linarith

/-- What the buckets are taken out of, once the runtime's share is gone, leaves the provider's. -/
theorem foldl_routedSpend (ctx : Spending) (events : List UsageEvent) (returned : ℚ) {cost : ℚ}
    (hcost : cost = attemptCost ctx events returned - costOf (runtimeEvents events)) :
    (spendAttempt ctx events).routedSpend.foldl (fun (left : TokenUsage × ℚ) bucket =>
        (left.1 - bucket.usage, max (left.2 - bucket.costUsd) 0))
        (usageOf (routedEvents events) + usageOf (plainEvents events), cost) =
      (usageOf (plainEvents events), providerCost ctx events returned) := by
  have hledger := ledger_spendAttempt ctx events
  have hle := shares_le_attemptCost ctx events returned
  have hbuckets : ∀ c ∈ (spendAttempt ctx events).routedSpend.map RoutedSpend.costUsd, 0 ≤ c := by
    intro c hc
    obtain ⟨b, hb, rfl⟩ := List.mem_map.mp hc
    exact (hledger.routedValid b hb).2
  have hsum : ((spendAttempt ctx events).routedSpend.map RoutedSpend.costUsd).sum ≤ cost := by
    rw [hledger.routedCost, hcost]
    linarith
  rw [← hledger.routedUsage, foldl_buckets cost hledger.routedValid (valid_usageOf _),
    leftover_eq_sub hbuckets hsum, hledger.routedCost, hcost]
  rfl

/-- The records of an attempt: the runtime's, one for each routed model, and the provider's, whose usage
is the one of the plain results. -/
theorem attemptRecords_eq (labels : RecordLabels) (ctx : Spending) (events : List UsageEvent)
    (returned : ℚ) : ∃ (rmodel pmodel : Text) (rsource psource : Option CostSource)
      (rreason preason : Option Text),
    attemptRecords labels ctx events returned =
      (if runtimeEvents events = [] then []
        else [buildCostRecord rmodel (costOf (runtimeEvents events)) rsource rreason
          (usageOf (runtimeEvents events))]) ++
      (spendAttempt ctx events).routedSpend.map (fun bucket =>
        buildCostRecord bucket.model bucket.costUsd bucket.costSource (some bucket.reason)
          bucket.usage) ++
      (if ProviderWritten ctx events returned then
        [buildCostRecord pmodel (providerCost ctx events returned) psource preason
          (usageOf (plainEvents events))]
      else []) := by
  have hledger := ledger_spendAttempt ctx events
  have hsplit : usageOf events = _ := sum_shares (fun e => resultUsage e.result) events
  have hrest := valid_usageOf (plainEvents events)
  have hle := shares_le_attemptCost ctx events returned
  have hrouted := costOf_nonneg (routedEvents events)
  refine ⟨orUnknown labels.runtimeModel,
    orUnknown ((spendAttempt ctx events).providerModel.or labels.resolvedModel),
    (spendAttempt ctx events).runtimeCostSource, (spendAttempt ctx events).costSource,
    labels.runtimeModelReason, labels.stepModelSelectionReason.or labels.modelSelectionReason, ?_⟩
  unfold attemptRecords costRecords
  simp only [Option.isSome_some, if_true, Option.getD_some, attemptUsage_eq, hledger.runtimeUsage,
    hledger.runtimeCost]
  by_cases hempty : runtimeEvents events = []
  · have hzero : costOf (runtimeEvents events) = 0 := by simp [hempty, costOf]
    have husage : usageOf events = usageOf (routedEvents events) + usageOf (plainEvents events) := by
      rw [hsplit]
      simp [hempty, usageOf]
    simp only [hempty, if_true, husage]
    rw [foldl_routedSpend ctx events returned (by rw [hzero, sub_zero])]
    rfl
  · have husage : usageOf events - usageOf (runtimeEvents events) =
        usageOf (routedEvents events) + usageOf (plainEvents events) := by
      rw [hsplit]
      exact TokenUsage.add_sub_cancel_left (usageOf (runtimeEvents events))
        ((valid_usageOf (routedEvents events)).add hrest)
    have hmax : max (attemptCost ctx events returned - costOf (runtimeEvents events)) 0 =
        attemptCost ctx events returned - costOf (runtimeEvents events) :=
      max_eq_left (by linarith)
    simp only [hempty, if_false, husage, hmax]
    rw [foldl_routedSpend ctx events returned rfl]
    rfl

/-! ## Conservation -/

/-- The records of an attempt add up to its cost and to every count of its usage, and none of them has
a negative share. -/
structure Conserved (records : List CostRecord) (cost : ℚ) (usage : TokenUsage) : Prop where
  cost : (records.map CostRecord.costUsd).sum = cost
  tokens : ∀ f : TokenField, (records.map f.ofRecord).sum = f.ofUsage usage
  nonneg : ∀ r ∈ records, 0 ≤ r.costUsd ∧ ∀ f : TokenField, 0 ≤ f.ofRecord r

/-- The amount of a record that is written only under a condition. -/
theorem sum_ite_singleton {α M : Type*} [AddCommMonoid M] (g : α → M) (c : Prop) [Decidable c] (x : α) :
    ((if c then [x] else []).map g).sum = if c then g x else 0 := by
  by_cases hc : c
  · simp [hc]
  · simp [hc]

theorem sum_ite_singleton_not {α M : Type*} [AddCommMonoid M] (g : α → M) (c : Prop) [Decidable c]
    (x : α) : ((if c then [] else [x]).map g).sum = if c then 0 else g x := by
  by_cases hc : c
  · simp [hc]
  · simp [hc]

theorem sum_records_cost (labels : RecordLabels) (ctx : Spending) (events : List UsageEvent)
    (returned : ℚ) :
    ((attemptRecords labels ctx events returned).map CostRecord.costUsd).sum =
      attemptCost ctx events returned := by
  obtain ⟨rmodel, pmodel, rsource, psource, rreason, preason, hrecords⟩ :=
    attemptRecords_eq labels ctx events returned
  have hledger := ledger_spendAttempt ctx events
  have hbuckets : ((spendAttempt ctx events).routedSpend.map (CostRecord.costUsd ∘ fun bucket =>
      buildCostRecord bucket.model bucket.costUsd bucket.costSource (some bucket.reason)
        bucket.usage)).sum = costOf (routedEvents events) := hledger.routedCost
  have hruntime : (if runtimeEvents events = [] then (0 : ℚ) else costOf (runtimeEvents events)) =
      costOf (runtimeEvents events) := by
    by_cases hempty : runtimeEvents events = []
    · simp [hempty, costOf]
    · rw [if_neg hempty]
  have hprovider : (if ProviderWritten ctx events returned then providerCost ctx events returned
      else 0) = providerCost ctx events returned := by
    by_cases hwritten : ProviderWritten ctx events returned
    · rw [if_pos hwritten]
    · rw [if_neg hwritten]
      have hzero : ¬ 0 < providerCost ctx events returned := fun h => hwritten (.inl h)
      exact le_antisymm (providerCost_nonneg ctx events returned) (not_lt.mp hzero)
  rw [hrecords, List.map_append, List.map_append, List.sum_append, List.sum_append, List.map_map,
    sum_ite_singleton, sum_ite_singleton_not, hbuckets]
  show (if runtimeEvents events = [] then 0 else costOf (runtimeEvents events)) +
    costOf (routedEvents events) + (if ProviderWritten ctx events returned
      then providerCost ctx events returned else 0) = _
  rw [hruntime, hprovider]
  unfold providerCost
  abel

theorem sum_records_tokens (labels : RecordLabels) (ctx : Spending) (events : List UsageEvent)
    (returned : ℚ) (f : TokenField) :
    ((attemptRecords labels ctx events returned).map f.ofRecord).sum +
        (if ProviderWritten ctx events returned then 0 else f.ofUsage (usageOf (plainEvents events))) =
      f.ofUsage (attemptUsage ctx events) := by
  obtain ⟨rmodel, pmodel, rsource, psource, rreason, preason, hrecords⟩ :=
    attemptRecords_eq labels ctx events returned
  have hledger := ledger_spendAttempt ctx events
  have hbuckets : ((spendAttempt ctx events).routedSpend.map (f.ofRecord ∘ fun bucket =>
      buildCostRecord bucket.model bucket.costUsd bucket.costSource (some bucket.reason)
        bucket.usage)).sum = f.ofUsage (usageOf (routedEvents events)) := by
    rw [← hledger.routedUsage, f.ofUsage_sum, List.map_map]
    refine congrArg List.sum (List.map_congr_left fun b hb => ?_)
    exact f.ofRecord_buildCostRecord (hledger.routedValid b hb).1 _ _ _ _
  have hruntime : (if runtimeEvents events = [] then (0 : Int)
      else f.ofUsage (usageOf (runtimeEvents events))) = f.ofUsage (usageOf (runtimeEvents events)) := by
    by_cases hempty : runtimeEvents events = []
    · rw [if_pos hempty, hempty]
      exact f.ofUsage_zero.symm
    · rw [if_neg hempty]
  have hsplit : usageOf events = _ := sum_shares (fun e => resultUsage e.result) events
  rw [hrecords, List.map_append, List.map_append, List.sum_append, List.sum_append, List.map_map,
    sum_ite_singleton, sum_ite_singleton_not, hbuckets,
    f.ofRecord_buildCostRecord (valid_usageOf _), f.ofRecord_buildCostRecord (valid_usageOf _),
    hruntime, attemptUsage_eq, hsplit, f.ofUsage_add, f.ofUsage_add]
  by_cases hwritten : ProviderWritten ctx events returned
  · rw [if_pos hwritten, if_pos hwritten, add_zero, add_assoc]
    rfl
  · rw [if_neg hwritten, if_neg hwritten, add_zero, add_assoc]
    rfl

theorem records_nonneg (labels : RecordLabels) (ctx : Spending) (events : List UsageEvent)
    (returned : ℚ) : ∀ r ∈ attemptRecords labels ctx events returned,
      0 ≤ r.costUsd ∧ ∀ f : TokenField, 0 ≤ f.ofRecord r := by
  obtain ⟨rmodel, pmodel, rsource, psource, rreason, preason, hrecords⟩ :=
    attemptRecords_eq labels ctx events returned
  have hbuild : ∀ (model : Text) (cost : ℚ) (source : Option CostSource) (reason : Option Text)
      (u : TokenUsage), 0 ≤ cost → u.Valid →
      0 ≤ (buildCostRecord model cost source reason u).costUsd ∧
        ∀ f : TokenField, 0 ≤ f.ofRecord (buildCostRecord model cost source reason u) := by
    intro model cost source reason u hcost hu
    refine ⟨hcost, fun f => ?_⟩
    rw [f.ofRecord_buildCostRecord hu]
    exact f.ofUsage_nonneg hu
  intro r hr
  rw [hrecords, List.mem_append, List.mem_append] at hr
  rcases hr with (hr | hr) | hr
  · split at hr
    · cases hr
    · rw [List.mem_singleton.mp hr]
      exact hbuild _ _ _ _ _ (costOf_nonneg _) (valid_usageOf _)
  · obtain ⟨b, hb, rfl⟩ := List.mem_map.mp hr
    have hvalid := (ledger_spendAttempt ctx events).routedValid b hb
    exact hbuild _ _ _ _ _ hvalid.2 hvalid.1
  · split at hr
    · rw [List.mem_singleton.mp hr]
      exact hbuild _ _ _ _ _ (providerCost_nonneg ctx events returned) (valid_usageOf _)
    · cases hr

/-- Only what the plain results add up to can be lost, and only when the provider's record is not
written. -/
theorem conserved_iff_written (labels : RecordLabels) (ctx : Spending) (events : List UsageEvent)
    (returned : ℚ) :
    Conserved (attemptRecords labels ctx events returned) (attemptCost ctx events returned)
        (attemptUsage ctx events) ↔
      ProviderWritten ctx events returned ∨
        ∀ f : TokenField, f.ofUsage (usageOf (plainEvents events)) = 0 := by
  have hcost := sum_records_cost labels ctx events returned
  have htokens := sum_records_tokens labels ctx events returned
  have hnonneg := records_nonneg labels ctx events returned
  by_cases hwritten : ProviderWritten ctx events returned
  · refine ⟨fun _ => .inl hwritten, fun _ => ⟨hcost, fun f => ?_, hnonneg⟩⟩
    have hf := htokens f
    rw [if_pos hwritten, add_zero] at hf
    exact hf
  · refine ⟨fun h => .inr fun f => ?_, fun h => ⟨hcost, fun f => ?_, hnonneg⟩⟩
    · have hf := htokens f
      rw [if_neg hwritten, h.tokens f] at hf
      exact add_eq_left.mp hf
    · have hf := htokens f
      have hzero := (h.resolve_left hwritten) f
      rw [if_neg hwritten, hzero, add_zero] at hf
      exact hf

/-! ## Which results get the provider's record written -/

theorem usageOf_pos_iff (φ : TokenUsage → Int) (hadd : ∀ a b, φ (a + b) = φ a + φ b) (hzero : φ 0 = 0)
    (hnonneg : ∀ r, 0 ≤ φ (resultUsage r)) (events : List UsageEvent) :
    0 < φ (usageOf events) ↔ ∃ e ∈ events, 0 < φ (resultUsage e.result) := by
  have hsum : ∀ l : List UsageEvent, φ (usageOf l) = (l.map fun e => φ (resultUsage e.result)).sum := by
    intro l
    induction l with
    | nil => exact hzero
    | cons e l ih =>
      have hcons : usageOf (e :: l) = resultUsage e.result + usageOf l := by simp [usageOf]
      rw [hcons, hadd, ih, List.map_cons, List.sum_cons]
  rw [hsum]
  exact sum_pos_iff_exists fun e _ => hnonneg e.result

theorem usageHasTokens_usageOf (events : List UsageEvent) :
    usageHasTokens (usageOf events) = true ↔
      ∃ e ∈ events, usageHasTokens (resultUsage e.result) = true := by
  have hinput := usageOf_pos_iff TokenUsage.inputTokens (fun _ _ => rfl) rfl
    (fun r => (valid_resultUsage r).input) events
  have houtput := usageOf_pos_iff TokenUsage.outputTokens (fun _ _ => rfl) rfl
    (fun r => (valid_resultUsage r).output) events
  have hread := usageOf_pos_iff TokenUsage.cacheReadTokens (fun _ _ => rfl) rfl
    (fun r => (valid_resultUsage r).cacheRead) events
  have hwrite := usageOf_pos_iff TokenUsage.cacheWriteTokens (fun _ _ => rfl) rfl
    (fun r => (valid_resultUsage r).cacheWrite) events
  have hturns := usageOf_pos_iff TokenUsage.turnsReportedCalls (fun _ _ => rfl) rfl
    (fun r => (valid_resultUsage r).turnsCalls) events
  unfold usageHasTokens
  simp only [Bool.or_eq_true, decide_eq_true_eq, hinput, houtput, hread, hwrite, hturns, ← exists_or,
    ← and_or_left]

/-- The result alone would get the provider's record written. -/
def UsageEvent.Recorded (e : UsageEvent) : Prop :=
  0 < e.result.costUsd ∨ usageHasTokens (resultUsage e.result) = true

theorem providerWritten_iff (ctx : Spending) (events : List UsageEvent) (returned : ℚ) :
    ProviderWritten ctx events returned ↔
      costOf (runtimeEvents events) + costOf (routedEvents events) < returned ∨
        ∃ e ∈ plainEvents events, e.Recorded := by
  have hsplit : costOf events = _ := sum_shares (fun e => e.result.costUsd) events
  have hplain : 0 < costOf (plainEvents events) ↔ ∃ e ∈ plainEvents events, 0 < e.result.costUsd :=
    sum_pos_iff_exists fun e _ => e.result.cost_nonneg
  have hcost : 0 < providerCost ctx events returned ↔
      costOf (runtimeEvents events) + costOf (routedEvents events) < returned ∨
        0 < costOf (plainEvents events) := by
    unfold providerCost
    rw [attemptCost_eq, sub_sub, sub_pos, lt_max_iff, hsplit]
    refine or_congr_right ?_
    show _ < costOf (runtimeEvents events) + (costOf (routedEvents events) +
      costOf (plainEvents events)) ↔ _
    rw [← add_assoc, lt_add_iff_pos_right]
  unfold ProviderWritten UsageEvent.Recorded
  rw [hcost, hplain, usageHasTokens_usageOf, or_assoc, ← exists_or]
  simp only [and_or_left]

/-- A count of some events is zero when it is zero for each of them: counts are not negative. -/
theorem ofUsage_usageOf_eq_zero_iff (f : TokenField) (events : List UsageEvent) :
    f.ofUsage (usageOf events) = 0 ↔ ∀ e ∈ events, f.ofUsage (resultUsage e.result) = 0 := by
  have hpos := usageOf_pos_iff f.ofUsage f.ofUsage_add f.ofUsage_zero
    (fun r => f.ofUsage_nonneg (valid_resultUsage r)) events
  have hf := f.ofUsage_nonneg (valid_usageOf events)
  have hnot : f.ofUsage (usageOf events) = 0 ↔ ¬ 0 < f.ofUsage (usageOf events) := by omega
  rw [hnot, hpos]
  simp only [not_exists, not_and]
  refine forall₂_congr fun e _ => ?_
  have he := f.ofUsage_nonneg (valid_resultUsage e.result)
  omega

/-- A share that does not get its record written has no counts but savings and reasoning tokens. -/
theorem fields_eq_zero_iff {events : List UsageEvent} (h : usageHasTokens (usageOf events) = false) :
    (∀ f : TokenField, f.ofUsage (usageOf events) = 0) ↔
      ∀ e ∈ events, e.result.tokensSaved.getD 0 = 0 ∧ e.result.reasoningOutputTokens.getD 0 = 0 := by
  have hvalid := valid_usageOf events
  have hzero := fun f : TokenField => ofUsage_usageOf_eq_zero_iff f events
  have hsaved : ∀ r : LLMResult, TokenField.saved.ofUsage (resultUsage r) = 0 ↔
      r.tokensSaved.getD 0 = 0 := by
    intro r
    cases hs : r.tokensSaved <;> simp [TokenField.ofUsage, resultUsage, hs]
  have hreasoning : ∀ r : LLMResult, TokenField.reasoning.ofUsage (resultUsage r) = 0 ↔
      r.reasoningOutputTokens.getD 0 = 0 := by
    intro r
    simp [TokenField.ofUsage, resultUsage]
  refine ⟨fun hall e he => ?_, fun hall f => ?_⟩
  · exact ⟨(hsaved e.result).mp ((hzero .saved).mp (hall .saved) e he),
      (hreasoning e.result).mp ((hzero .reasoning).mp (hall .reasoning) e he)⟩
  · simp only [usageHasTokens, Bool.or_eq_false_iff, decide_eq_false_iff_not, not_lt] at h
    obtain ⟨⟨⟨⟨hin, hout⟩, hread⟩, hwrite⟩, hturns⟩ := h
    have hcr : (usageOf events).cacheReadTokens = 0 := le_antisymm hread hvalid.cacheRead
    have hcw : (usageOf events).cacheWriteTokens = 0 := le_antisymm hwrite hvalid.cacheWrite
    cases f with
    | input => exact le_antisymm hin hvalid.input
    | output => exact le_antisymm hout hvalid.output
    | cacheRead => exact hcr
    | cacheWrite => exact hcw
    | cache =>
      show (usageOf events).cacheReadTokens + (usageOf events).cacheWriteTokens = 0
      rw [hcr, hcw, add_zero]
    | turns => exact hvalid.turns_reported (le_antisymm hturns hvalid.turnsCalls)
    | reasoning => exact (hzero .reasoning).mpr fun e he => (hreasoning e.result).mpr (hall e he).2
    | saved => exact (hzero .saved).mpr fun e he => (hsaved e.result).mpr (hall e he).1

/-- The records of an attempt conserve its cost and usage exactly when the step reports more cost than
the runtime's and the routed results, some plain result has a cost, tokens or turns, or the plain
results neither save tokens nor report reasoning tokens. -/
theorem attempt_conserved_iff (labels : RecordLabels) (ctx : Spending) (events : List UsageEvent)
    (returned : ℚ) :
    Conserved (attemptRecords labels ctx events returned) (attemptCost ctx events returned)
        (attemptUsage ctx events) ↔
      costOf (runtimeEvents events) + costOf (routedEvents events) < returned ∨
        (∃ e ∈ plainEvents events, e.Recorded) ∨
        ∀ e ∈ plainEvents events,
          e.result.tokensSaved.getD 0 = 0 ∧ e.result.reasoningOutputTokens.getD 0 = 0 := by
  rw [conserved_iff_written, ← or_assoc, ← providerWritten_iff ctx events returned]
  by_cases hwritten : ProviderWritten ctx events returned
  · simp [hwritten]
  · have htokens : usageHasTokens (usageOf (plainEvents events)) = false := by
      have hnot : ¬ usageHasTokens (usageOf (plainEvents events)) = true := fun h => hwritten (.inr h)
      simpa using hnot
    rw [fields_eq_zero_iff htokens]

/-- A provider that reports no usage for a call whose prompt was compressed. -/
def compressedCall : UsageEvent := { result := { tokensSaved := some 120 } }

/-- The saving of a compressed call without reported tokens is in no record. -/
theorem attempt_not_conserved_compressed :
    ¬ ∀ (labels : RecordLabels) (ctx : Spending) (events : List UsageEvent) (returned : ℚ),
      Conserved (attemptRecords labels ctx events returned) (attemptCost ctx events returned)
        (attemptUsage ctx events) := by
  intro hclaim
  have hsaved := (hclaim {} {} [compressedCall] 0).tokens .saved
  exact absurd hsaved (by decide +kernel)

end Core

/-!
# What a successful run reports as its cost

The context collects the cost of every attempt and of its gates. The result of the run adds up what the
records say, and a record keeps the result of the last attempt only, taken before its gates ran.
-/

namespace Core

/-! ## The attempts at a step -/

theorem tryFallbacks_made (cfg : EngineConfig) (step : Step) (chain : List Text) (ctx : Context)
    (record : StepRecord) :
    AttemptsMade step ctx record (tryFallbacks cfg step chain ctx record).1
      (tryFallbacks cfg step chain ctx record).2.1 (tryFallbacks cfg step chain ctx record).2.2 := by
  induction chain generalizing ctx record with
  | nil => exact AttemptsMade.none rfl rfl (by simp [tryFallbacks])
  | cons candidate rest ih =>
    unfold tryFallbacks
    dsimp only
    split
    · have hrest := ih { ctx with fallbackModelIndex := ctx.fallbackModelIndex + 1 } record
      exact ⟨hrest.le_attempts, hrest.cost, hrest.unpassed, hrest.done⟩
    · have heffect := tryStepWithRetries_effect cfg step (step.maxRetries + 1) 0 false
        { ctx with
          fallbackModelIndex := ctx.fallbackModelIndex + 1
          resolvedModel := candidate } record
      have hround := heffect.made
      split
      · next ctx' record' heq =>
        rw [heq] at hround
        have hfirst : AttemptsMade step ctx record .billingExhausted ctx' record' :=
          ⟨hround.le_attempts, hround.cost, hround.unpassed, hround.done⟩
        exact hfirst.trans (by simp) (ih ctx' record')
      · exact ⟨hround.le_attempts, hround.cost, hround.unpassed, hround.done⟩

theorem executeWithRetries_made (cfg : EngineConfig) (step : Step) (ctx : Context) :
    AttemptsMade step ctx { stepName := step.name, status := .pending }
      (executeWithRetries cfg step ctx).1 (executeWithRetries cfg step ctx).2.1
      (executeWithRetries cfg step ctx).2.2 := by
  unfold executeWithRetries
  dsimp only
  have hround := (tryStepWithRetries_effect cfg step (step.maxRetries + 1) 0 false ctx
    { stepName := step.name, status := .pending }).made
  split
  · next ctx' record' heq =>
    rw [heq] at hround
    exact hround.trans (by simp) (tryFallbacks_made cfg step _ ctx' record')
  · exact hround

/-- The first attempt that passes its gates, among those that the step can get. -/
def firstPass (cfg : EngineConfig) (step : Step) : Option Nat :=
  (List.range ((step.maxRetries + 1) * (1 + cfg.fallbackModels.length))).find? fun n =>
    (step.attempt n).passes

/-- What an executed step spends besides its passing attempt: the attempts before it, and the gates. -/
def unreportedCost (cfg : EngineConfig) (step : Step) : ℚ :=
  if step.canSkip = some false then
    match firstPass cfg step with
    | some n => spentBy step n + (step.attempt n).gateCost
    | none => 0
  else 0

/-- What the passing attempt of an executed step reports beyond what it spends. -/
def overreportedCost (cfg : EngineConfig) (step : Step) : ℚ :=
  if step.canSkip = some false then
    match firstPass cfg step with
    | some n => (step.attempt n).reported step.name - (step.attempt n).executionCost
    | none => 0
  else 0

/-- A step that is done has stopped at its first passing attempt, whose result is in its record. -/
theorem executeWithRetries_done {cfg : EngineConfig} {step : Step} {ctx : Context}
    (hdone : (executeWithRetries cfg step ctx).1 = .done) :
    ∃ n, firstPass cfg step = some n ∧
      (executeWithRetries cfg step ctx).2.1.costUsd = ctx.costUsd + spentBy step (n + 1) ∧
      (executeWithRetries cfg step ctx).2.2.result = (step.attempt n).result step.name := by
  have hmade := executeWithRetries_made cfg step ctx
  obtain ⟨e, -, hexec, hbound⟩ := retryLoop_bound cfg step ctx.fallbackModelIndex ctx
    { stepName := step.name, status := .pending } [] (Describes.start step) ⟨by simp, by simp⟩
  have hattempts : (executeWithRetries cfg step ctx).2.2.totalAttempts = e.record.totalAttempts :=
    congrArg (fun tried => tried.2.2.totalAttempts) hexec
  obtain ⟨n, -, hlast, hpassed, hresult, hbefore⟩ := hmade.done hdone
  refine ⟨n, ?_, ?_, hresult⟩
  · -- the attempts of the loop are within the range that is searched
    have hle := hbound.attempts
    rw [← hattempts, hlast] at hle
    have hmodels : 1 + remainingModels cfg ctx ≤ 1 + cfg.fallbackModels.length := by
      unfold remainingModels
      omega
    have hmul := Nat.mul_le_mul_left (step.maxRetries + 1) hmodels
    unfold firstPass
    rw [List.find?_range_eq_some]
    refine ⟨hpassed, ?_, ?_⟩
    · rw [List.mem_range]
      dsimp only at hle
      omega
    · intro k hk
      simpa using hbefore k (Nat.zero_le _) hk
  · rw [hmade.cost, hlast]
    simp [spentBy]

/-! ## The run -/

/-- How far the result of a run is ahead of the context. -/
def costGap (s : EngineState) : ℚ := s.result.totalCostUsd - s.ctx.costUsd

theorem afterStep_goOn {s s' : EngineState} {outcome : TryOutcome} {record : StepRecord}
    (h : afterStep s outcome record = .goOn s') :
    outcome ≠ .cancelled ∧ record.status ≠ .runaway ∧ record.status ≠ .failed ∧ s'.ctx = s.ctx ∧
      s'.result.totalCostUsd =
        s.result.totalCostUsd + ((record.result.map StepResult.costUsd).getD 0) := by
  unfold afterStep at h
  split at h
  · cases h
  · next hcancelled =>
    dsimp only at h
    split at h
    · cases h
    · next hrunaway =>
      split at h
      · cases h
      · next hfailed =>
        split at h
        · cases h
        · cases h
          refine ⟨hcancelled, hrunaway, hfailed, rfl, ?_⟩
          cases record.result <;> rfl

theorem executeStep_goOn_gap {cfg : EngineConfig} {s s' : EngineState} {step : Step}
    (h : executeStep cfg s step = .goOn s') :
    costGap s' = costGap s + overreportedCost cfg step - unreportedCost cfg step := by
  unfold executeStep at h
  split at h
  · cases h
  · split at h
    · cases h
    · split at h
      · cases h
      · split at h
        · cases h
        · next hskip =>
          cases h
          simp [costGap, skipStep, overreportedCost, unreportedCost, hskip]
        · next hskip =>
          obtain ⟨hcancelled, hrunaway, hfailed, hctx, hcost⟩ := afterStep_goOn h
          have hend := executeWithRetries_end cfg step s.ctx
          have hdone : (executeWithRetries cfg step s.ctx).1 = .done := by
            cases houtcome : (executeWithRetries cfg step s.ctx).1 with
            | done => rfl
            | failed => exact absurd (hend.failed (.inl houtcome)).1 hfailed
            | billingExhausted => exact absurd (hend.failed (.inr houtcome)).1 hfailed
            | runaway => exact absurd (hend.runaway houtcome) hrunaway
            | cancelled => exact absurd houtcome hcancelled
          obtain ⟨n, hfirst, hspent, hresult⟩ := executeWithRetries_done hdone
          unfold costGap overreportedCost unreportedCost
          rw [if_pos hskip, if_pos hskip, hfirst, hctx, hcost, hresult]
          dsimp only [leaveStep]
          rw [hspent]
          simp only [spentBy, Attempt.reported]
          ring

theorem runSteps_gap {cfg : EngineConfig} {s s' : EngineState} {steps : List Step}
    (hunfinished : s.result.success = false) (h : runSteps cfg s steps = .returned s')
    (hsuccess : s'.result.success = true) :
    costGap s' = costGap s + (steps.map (overreportedCost cfg)).sum -
      (steps.map (unreportedCost cfg)).sum := by
  induction steps generalizing s with
  | nil =>
    cases h
    simp [costGap, finalize, updateTaskRunStatus]
  | cons step steps ih =>
    have heffect := executeStep_effect cfg s step
    have hgap := @executeStep_goOn_gap cfg s
    unfold runSteps at h
    cases hstep : executeStep cfg s step with
    | goOn s₁ =>
      rw [hstep] at h heffect
      cases heffect with
      | goOn hname hpassed hhandled hrecords hsame =>
        rw [ih (hsame.trans hunfinished) h, hgap hstep]
        simp only [List.map_cons, List.sum_cons]
        ring
    | abort s₁ =>
      -- a run that is aborted is not a success
      rw [hstep] at h heffect
      cases h
      cases heffect with
      | stopBefore hhandled hrecords hsame hpersisted =>
        rw [hsame, hunfinished] at hsuccess
        cases hsuccess
      | stopAfter hname hpassed hhandled hrecords hsame hpersisted hfailure =>
        rw [hsame, hunfinished] at hsuccess
        cases hsuccess
    | raised s₁ =>
      rw [hstep] at h
      cases h

/-- The total of a successful run is what the run has added to the context's cost exactly when what its
steps leave out is made up for by what their results report too much: the attempts before the passing
one, and the gates, against the surplus of the passing results. -/
theorem run_totalCost_iff {cfg : EngineConfig} {inputs : RunInputs} {steps : List Step} {s : EngineState}
    (h : run cfg inputs steps = .returned s) (hsuccess : s.result.success = true) :
    s.result.totalCostUsd = s.ctx.costUsd - inputs.ctx.costUsd ↔
      (steps.map (unreportedCost cfg)).sum = (steps.map (overreportedCost cfg)).sum := by
  have hgap : costGap s = costGap (initialState inputs) + (steps.map (overreportedCost cfg)).sum -
      (steps.map (unreportedCost cfg)).sum := by
    unfold run at h
    dsimp only at h
    split at h
    · cases h
      cases hsuccess
    · exact runSteps_gap rfl h hsuccess
  have hstart : costGap (initialState inputs) = -inputs.ctx.costUsd := by simp [costGap, initialState]
  rw [hstart] at hgap
  unfold costGap at hgap
  constructor
  · intro htotal
    linarith
  · intro hbalance
    linarith

/-- A step that fails once before it succeeds, each attempt at its own cost. -/
def costlyStep (first second : ℚ) : Step where
  name := "develop".toList
  maxRetries := 1
  attempt := fun n =>
    if n = 0 then .ran (.raised "boom".toList) first (.returned { passed := true })
      (.returned { passed := true }) 0
    else .ran (.returned { success := true, summary := [] }) second (.returned { passed := true })
      (.returned { passed := true }) 0

theorem run_totalCost_free_failure :
    (run plainConfig {} [costlyStep 0 2]).state.result.totalCostUsd =
      (run plainConfig {} [costlyStep 0 2]).state.ctx.costUsd - ({} : RunInputs).ctx.costUsd := by
  have hrun : run plainConfig {} [costlyStep 0 2] =
      .returned (run plainConfig {} [costlyStep 0 2]).state := by decide +kernel
  exact (run_totalCost_iff hrun (by decide +kernel)).mpr (by decide +kernel)

/-- The failed attempt cost 1 and the other 2; the total says 2. -/
theorem run_totalCost_lost :
    ¬ ∀ (cfg : EngineConfig) (inputs : RunInputs) (steps : List Step) (s : EngineState),
      run cfg inputs steps = .returned s → s.result.success = true →
        s.result.totalCostUsd = s.ctx.costUsd - inputs.ctx.costUsd := by
  intro hclaim
  have htotal := hclaim plainConfig {} [costlyStep 1 2] (run plainConfig {} [costlyStep 1 2]).state
    (by decide +kernel) (by decide +kernel)
  have hreported : (run plainConfig {} [costlyStep 1 2]).state.result.totalCostUsd = 2 := by decide +kernel
  have hspent : (run plainConfig {} [costlyStep 1 2]).state.ctx.costUsd = 3 := by decide +kernel
  rw [hreported, hspent] at htotal
  exact absurd htotal (by decide +kernel)

end Core

import Mathlib.Algebra.Order.Field.Rat
import SovaVerified.Llm.ModelAliases
import SovaVerified.Outside.Outside

/-!
# The chain of fallback models

`sova/llm/client.py`: `_build_candidate_chain`, `_drop_unavailable` and `walk_model_chain`. The executor, the
clock, the predicate of the caller and the negative cache, which other tasks use as well, are outside: they
have a state of any type. A time is a rational number of seconds.

Every attempt is written down with what came of it, and before them the chain that is walked.
-/

namespace Llm.ModelChain

open Outside

/-- The part of the project's configuration that a walk reads. -/
structure ProjectConfig where
  llm : LLMConfig := {}
  apiBase : Text := []
  fallbackModels : List Text := []

/-- `provider_identity`. -/
def providerIdentity : Option ProjectConfig → Text
  | none => "unknown:".toList
  | some cfg => cfg.llm.provider.value ++ ':' :: cfg.apiBase

/-! ## The candidates -/

/-- The chain so far, and the normalized names that are in it. -/
structure Chain where
  chain : List (Option Text) := []
  seen : List Text := []

/-- No model and an empty name stand for the provider's default. -/
def named (model : Option Text) : Option Text := model.filter (· ≠ [])

def addHead (normalize : Text → Text) (c : Chain) (head : Option Text) : Chain :=
  match named head with
  | none => { c with chain := c.chain ++ [head] }
  | some name =>
    if normalize name ∈ c.seen then c
    else { chain := c.chain ++ [head], seen := normalize name :: c.seen }

def addCandidate (normalize : Text → Text) (c : Chain) (candidate : Text) : Chain :=
  if normalize candidate ∈ c.seen then c
  else { chain := c.chain ++ [some candidate], seen := normalize candidate :: c.seen }

/-- `[prepend, primary] if prepend else [primary]`. -/
def heads (prepend primary : Option Text) : List (Option Text) :=
  match named prepend with
  | none => [primary]
  | some name => [some name, primary]

/-- What a call of `walk_model_chain` is given. -/
structure Call where
  primary : Option Text
  prepend : Option Text := none
  cfg : Option ProjectConfig := none
  callerFallback : Option Text := none
  timeout : ℚ
  maxBudgetUsd : Option ℚ := none
  /-- `none`: not given; `some none`: the negative cache is not used. -/
  identity : Option (Option Text) := none
  normalize : Text → Text := id

def Call.cacheIdentity (call : Call) : Option Text :=
  call.identity.getD (some (providerIdentity call.cfg))

variable (print : Printing) (env : Environment)

def addEntry (normalize : Text → Text) (llm : LLMConfig) (c : Chain) (entry : Text) :
    Except PyException Chain :=
  (resolveAlias print llm env entry).map (addCandidate normalize c)

/-- `_build_candidate_chain`. -/
def buildCandidateChain (call : Call) : Except PyException (List (Option Text)) :=
  let front := (heads call.prepend call.primary).foldl (addHead call.normalize) {}
  match call.cfg with
  | none => .ok front.chain
  | some cfg =>
    ((cfg.fallbackModels.filter (· ≠ [])).foldlM (addEntry print env call.normalize cfg.llm) front).map
      (·.chain)

/-! ## What is outside -/

/-- The arguments of an attempt. -/
structure Attempt where
  model : Option Text
  nextHop : Option Text
  timeout : ℚ
  budget : Option ℚ

/-- What is known of the errors: `is_fallback_eligible`, `resolve_error_category` and the ones that the walk
raises itself. -/
structure Errors (ε : Type) where
  isException : ε → Bool
  isFallbackEligible : ε → Bool
  isModelUnavailable : ε → Bool
  ofPython : PyException → ε
  noAttempt : ε

/-- An attempt with what came of it. -/
structure Tried (ε α : Type) where
  attempt : Attempt
  /-- The time since the deadline was set. -/
  elapsed : ℚ
  outcome : Except ε α
  /-- It failed, and both predicates accept the error. -/
  eligible : Bool

inductive Event (ε α : Type) where
  | walking (chain : List (Option Text))
  | tried (t : Tried ε α)

structure Services (ω ε α : Type) where
  attempt : Attempt → ω → Except ε α × ω
  monotonic : ω → ℚ × ω
  isEligible : ε → ω → Bool × ω
  /-- The entries of the negative cache with the times at which they expire. -/
  expiry : ω → Assoc (Text × Text) ℚ
  setExpiry : Assoc (Text × Text) ℚ → ω → ω

variable {ω ε α : Type} (errors : Errors ε) (svc : Services ω ε α)

/-- What a run writes down are attempts. -/
abbrev Walk (ω ε α β : Type) := Prog ω (Event ε α) ε β

def asking {β : Type} (question : ω → β × ω) : Walk ω ε α β :=
  act fun w => (.ok (question w).1, (question w).2)

/-! ## The negative cache -/

def ttlSeconds : ℚ := 300

def isUnavailable (identity : Text) : Option Text → Walk ω ε α Bool
  | none => pure false
  | some model => do
    let entries ← asking fun w => (svc.expiry w, w)
    match Assoc.get entries (identity, model) with
    | none => pure false
    | some expiry => do
      let now ← asking svc.monotonic
      if expiry ≤ now then do
        asking fun w => ((), svc.setExpiry (Assoc.del (svc.expiry w) (identity, model)) w)
        pure false
      else pure true

def markUnavailable (identity : Text) : Option Text → Walk ω ε α Unit
  | none => pure ()
  | some model => do
    let now ← asking svc.monotonic
    asking fun w => ((), svc.setExpiry (Assoc.put (svc.expiry w) (identity, model) (now + ttlSeconds)) w)

def available (call : Call) (identity : Text) : List (Option Text) → Walk ω ε α (List (Option Text))
  | [] => pure []
  | model :: chain => do
    let unavailable ← isUnavailable svc identity (model.map call.normalize)
    let kept ← available call identity chain
    pure (if unavailable then kept else model :: kept)

/-- `_drop_unavailable`. -/
def dropUnavailable (call : Call) (identity : Text) (chain : List (Option Text)) :
    Walk ω ε α (List (Option Text)) := do
  let kept ← available svc call identity chain
  pure (if kept ≠ [] then kept else chain.drop (chain.length - 1))

/-! ## The walk -/

def minAttemptSeconds : ℚ := 60

def deadlineSafetyMargin : ℚ := 95 / 100

/-- An attempt, and whether its error lets the walk go on. -/
def tryOnce (elapsed : ℚ) (attempt : Attempt) : Walk ω ε α (Except ε α × Bool) := do
  let outcome ← asking (svc.attempt attempt)
  let eligible ← match outcome with
    | .ok _ => pure false
    | .error e =>
      if errors.isException e && errors.isFallbackEligible e then asking (svc.isEligible e) else pure false
  note (.tried { attempt, elapsed, outcome, eligible })
  pure (outcome, eligible)

/-- The model of an attempt is remembered as unavailable when its error says so. -/
def rememberUnavailable (call : Call) (model : Option Text) (e : ε) : Walk ω ε α Unit :=
  match call.cacheIdentity with
  | some identity =>
    if errors.isModelUnavailable e then markUnavailable svc identity (model.map call.normalize)
    else pure ()
  | none => pure ()

/-- The loop over the rest of the chain. The deadline was set at `start`. -/
def walkFrom (call : Call) (start : ℚ) : Option ε → List (Option Text) → Walk ω ε α α
  | lastError, [] => raise (lastError.getD errors.noAttempt)
  | lastError, model :: rest => do
    let now ← asking svc.monotonic
    let remaining := start + call.timeout * deadlineSafetyMargin - now
    if lastError.isSome ∧ remaining < minAttemptSeconds then
      raise (lastError.getD errors.noAttempt)
    else do
      let (outcome, eligible) ← tryOnce errors svc (now - start)
        { model, nextHop := rest.head?.join, timeout := remaining, budget := call.maxBudgetUsd }
      match outcome with
      | .ok result => pure result
      | .error e =>
        if eligible then do
          rememberUnavailable errors svc call model e
          walkFrom call start (some e) rest
        else raise e

/-- The attempt of a chain that has no other candidate. -/
def soleAttempt (call : Call) (model : Option Text) : Attempt where
  model
  nextHop := call.callerFallback
  timeout := call.timeout
  budget := call.maxBudgetUsd

def walkChain (call : Call) : List (Option Text) → Walk ω ε α α
  | [model] => do
    let outcome ← asking (svc.attempt (soleAttempt call model))
    note (.tried { attempt := soleAttempt call model, elapsed := 0, outcome, eligible := false })
    match outcome with
    | .ok result => pure result
    | .error e => raise e
  | chain => do
    let start ← asking svc.monotonic
    walkFrom errors svc call start none chain

def walkModelChain (call : Call) : Walk ω ε α α :=
  match buildCandidateChain print env call with
  | .error e => raise (errors.ofPython e)
  | .ok candidates => do
    let chain ← match call.cacheIdentity with
      | some identity => dropUnavailable svc call identity candidates
      | none => pure candidates
    note (.walking chain)
    walkChain errors svc call chain

end Llm.ModelChain

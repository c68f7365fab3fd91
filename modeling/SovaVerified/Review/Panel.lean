import SovaVerified.Assoc.Assoc
import SovaVerified.Loops.Loops
import SovaVerified.Review.Findings

/-!
# The review panel

`sova/roles/panel_review.py`: a diff is reviewed chunk by chunk, for each dimension of the panel.
Dimensions that share a model are asked about in one combined call; a dimension that the remaining
budget does not pay for is skipped, and a critical finding ends the review.

The calls of the model are a sequence: the outcome of the `n`-th call of a review is `llm n`, whatever
was asked. Prompts are left out, as nothing but the model reads them. Beside the state of the source,
a review keeps its turns: which dimension of which chunk was tried, and what came of it.
-/

namespace Review

open Loops

/-- A call of the model fails, or returns a result. -/
inductive Outcome where
  | raised
  | returned (result : LlmResult)

/-- What came of trying a chunk: it was not paid for, the call failed, the answer holds no review, or
it was read. -/
inductive Fate where
  | skipped
  | raised
  | unread
  | read (findings : List ReviewFinding)
  deriving DecidableEq

/-- One try of a chunk, for a dimension of the panel or (`none`) by the single reviewer, and the number
of the call it was made with. A skipped turn has the number of the next call. -/
structure Turn where
  chunk : Nat
  dimension : Option Text
  call : Nat
  fate : Fate
  deriving DecidableEq

/-- A turn that got a review out of the model. -/
def Turn.isRead (t : Turn) : Bool :=
  match t.fate with
  | .read _ => true
  | _ => false

/-- A turn that a call was made for and that got no review. -/
def Turn.isLost (t : Turn) : Bool :=
  match t.fate with
  | .raised => true
  | .unread => true
  | _ => false

/-- The findings of a turn. -/
def Turn.findings (t : Turn) : List ReviewFinding :=
  match t.fate with
  | .read findings => findings
  | _ => []

def Turn.isSkipped (t : Turn) : Bool :=
  match t.fate with
  | .skipped => true
  | _ => false

/-- `ReviewPanelConfig`. -/
structure PanelConfig where
  enabled : Bool := false
  combined : Bool := true
  dimensions : List Text :=
    ["correctness".toList, "security".toList, "error_handling".toList, "design".toList,
      "test_coverage".toList]
  dimensionModels : Assoc Text Text := []
  lineProximity : Nat := 3

/-- `_DIMENSION_PRIORITY.get(dim, 99)`. -/
def dimensionPriority (dim : Text) : Nat :=
  if dim = "correctness".toList then 1
  else if dim = "security".toList then 2
  else if dim = "error_handling".toList then 3
  else if dim = "design".toList then 4
  else if dim = "test_coverage".toList then 5
  else 99

/-- `sorted(panel_config.dimensions, key=...)`: stable. -/
def sortDimensions (dims : List Text) : List Text :=
  dims.insertionSort fun a b => dimensionPriority a ≤ dimensionPriority b

/-- `panel_config.dimension_models.get(dim, default_model)`. -/
def PanelConfig.modelOf (cfg : PanelConfig) (defaultModel dim : Text) : Text :=
  (cfg.dimensionModels.get dim).getD defaultModel

/-- `groups.setdefault(model, []).append(dim)`; groups keep the order in which they came up. -/
def addToGroup (model dim : Text) : List (Text × List Text) → List (Text × List Text)
  | [] => [(model, [dim])]
  | (m, dims) :: groups =>
    if m = model then (m, dims ++ [dim]) :: groups
    else (m, dims) :: addToGroup model dim groups

/-- `_group_dimensions_by_model`. -/
def groupDimensionsByModel (cfg : PanelConfig) (defaultModel : Text) (dims : List Text) :
    List (Text × List Text) :=
  dims.foldl (fun groups dim => addToGroup (cfg.modelOf defaultModel dim) dim groups) []

/-! ## Deduplication -/

/-- `abs(existing.line - candidate.line) <= line_proximity`, when both have a line. -/
def linesNear (lineProximity : Nat) : Option Int → Option Int → Bool
  | some a, some b => (a - b).natAbs ≤ lineProximity
  | _, _ => false

/-- `_is_duplicate`. -/
def isDuplicate (candidate : ReviewFinding) (kept : List ReviewFinding) (lineProximity : Nat) : Bool :=
  kept.any fun existing => existing.file = candidate.file && existing.category = candidate.category &&
    linesNear lineProximity existing.line candidate.line

/-- The loop of `deduplicate_findings`. -/
def keepNew (lineProximity : Nat) (kept : List ReviewFinding) : List ReviewFinding → List ReviewFinding
  | [] => kept
  | candidate :: rest =>
    if isDuplicate candidate kept lineProximity then keepNew lineProximity kept rest
    else keepNew lineProximity (kept ++ [candidate]) rest

/-- `deduplicate_findings`: most severe first. -/
def deduplicateFindings (findings : List ReviewFinding) (lineProximity : Nat) : List ReviewFinding :=
  keepNew lineProximity [] (findings.insertionSort fun a b => b.severity ≤ a.severity)

/-! ## Budget -/

/-- `_MODEL_FAMILIES`. -/
def modelFamilies : List Text :=
  ["opus".toList, "sonnet".toList, "haiku".toList, "fable".toList]

/-- `get_model_family`. -/
def getModelFamily (model : Text) : Option Text :=
  modelFamilies.find? fun family => family <:+: Text.lower model

/-- `_estimate_call_cost`. -/
def estimateCallCost (model : Text) : ℚ :=
  match getModelFamily model with
  | some family =>
    if family = "opus".toList then 5 / 100
    else if family = "sonnet".toList then 1 / 100
    else if family = "haiku".toList then 2 / 1000
    else 1 / 100
  | none => 1 / 100

/-- `_PanelState`, with the number of calls made so far and the turns. -/
structure PanelState where
  result : ReviewResult := {}
  budgetRemaining : Option ℚ := none
  skippedDimensions : List Text := []
  findings : List ReviewFinding := []
  criticalExit : Bool := false
  made : Nat := 0
  turns : List Turn := []

/-- The same turn for several dimensions. -/
def PanelState.note (st : PanelState) (chunk : Nat) (dims : List Text) (fate : Fate) : PanelState :=
  { st with
    turns := st.turns ++ dims.map fun dim => ⟨chunk, some dim, st.made, fate⟩ }

/-- A call that failed. -/
def PanelState.failCall (st : PanelState) : PanelState :=
  { st with
    made := st.made + 1 }

/-- `record_call`. -/
def PanelState.recordCall (st : PanelState) (r : LlmResult) : PanelState :=
  { st with
    result :=
      { st.result with
        totalCost := st.result.totalCost + r.costUsd
        llmResults := st.result.llmResults ++ [r] }
    budgetRemaining := st.budgetRemaining.map (· - r.costUsd)
    made := st.made + 1 }

/-- `add_summary`. -/
def PanelState.addSummary (st : PanelState) (fragment : Text) : PanelState :=
  { st with
    result :=
      { st.result with
        summary :=
          if st.result.summary = [] then fragment
          else st.result.summary ++ " | ".toList ++ fragment } }

/-- `_CRITICAL_SEVERITY`. -/
def criticalSeverity : Int := 9

/-- `note_critical`. -/
def PanelState.noteCritical (st : PanelState) (findings : List ReviewFinding) : PanelState :=
  { st with
    criticalExit := st.criticalExit || findings.any fun f => criticalSeverity ≤ f.severity }

/-- `state.findings.extend(findings)`. -/
def PanelState.extend (st : PanelState) (findings : List ReviewFinding) : PanelState :=
  { st with
    findings := st.findings ++ findings }

/-- `_affordable_dimensions`. A dimension that is not returned has had its turn: it is skipped. -/
def affordableDimensions (st : PanelState) (chunk : Nat) (dims : List Text) (model : Text) :
    PanelState × List Text :=
  let active := dims.filter fun dim => dim ∉ st.skippedDimensions
  if active = [] then (st.note chunk dims .skipped, [])
  else
    let estimatedCost := estimateCallCost model * max 1 active.length
    if st.budgetRemaining.any (· < estimatedCost) then
      (({ st with
          skippedDimensions := st.skippedDimensions ++ active } : PanelState).note chunk dims .skipped,
        [])
    else (st.note chunk (dims.filter fun dim => dim ∈ st.skippedDimensions) .skipped, active)

/-! ## Reviewing -/

/-- What an answer is read as: findings, when the object that is found in it is a review. -/
def fateOf (reader : Reader) (text : Text) : Fate :=
  match (reader.loadFindingsJson text).filter Payload.isReview with
  | some data => .read (findingsFromData data)
  | none => .unread

/-- The turn is what the outcome of its call was. An answer that did not meet the schema is retried, or
read as far as it can be. -/
def Turn.Stands (reader : Reader) (llm : Nat → Outcome) (t : Turn) : Prop :=
  match t.fate with
  | .skipped => True
  | .raised => llm t.call = .raised
  | .unread => ∃ r, llm t.call = .returned r ∧
      (reader.tryParseAndValidate r.text = none ∨ fateOf reader r.text = .unread)
  | .read findings => ∃ r, llm t.call = .returned r ∧
      (fateOf reader r.text = .read findings ∨
        ∃ data, reader.tryParseAndValidate r.text = some data ∧ findings = findingsFromData data)

/-- An outcome that either reviewer can use: a text that meets the schema and is read as a review. -/
def Outcome.Answers (reader : Reader) : Outcome → Prop
  | .raised => False
  | .returned r => reader.tryParseAndValidate r.text ≠ none ∧ fateOf reader r.text ≠ .unread

/-- `_summary_fragments`. -/
def summaryFragments (dims : List Text) (data : Payload) : List Text :=
  let summaries := data.summaries.getD []
  let fragments := dims.filterMap fun dim =>
    match summaries.lookup dim with
    | some (c :: t) => some (dim ++ ": ".toList ++ (c :: t))
    | _ => none
  match fragments, data.summary with
  | [], some (c :: t) => [Text.join "+".toList dims ++ ": ".toList ++ (c :: t)]
  | fragments, _ => fragments

section Review

variable (reader : Reader) (llm : Nat → Outcome) (cfg : PanelConfig) (defaultModel : Text)
  (chunk : Nat)

/-- One turn of the loop of `_review_dimensions`. -/
def reviewDimension (st : PanelState) (dim : Text) : PanelState :=
  match affordableDimensions st chunk [dim] (cfg.modelOf defaultModel dim) with
  | (st, []) => st
  | (st, _ :: _) =>
    match llm st.made with
    | .raised => (st.note chunk [dim] .raised).failCall
    | .returned r =>
      let parsed := parseFindings reader r.text
      let st := ((st.note chunk [dim] (fateOf reader r.text)).recordCall r).extend parsed.1
      let st :=
        if chunk = 0 ∧ parsed.2 ≠ [] then st.addSummary (dim ++ ": ".toList ++ parsed.2) else st
      st.noteCritical parsed.1

/-- `_review_dimensions`. -/
def reviewDimensions (st : PanelState) (dims : List Text) : PanelState :=
  untilStop PanelState.criticalExit (reviewDimension reader llm cfg defaultModel chunk) st dims

/-- One turn of the loop of `_review_groups`: a group of one is asked about like a single dimension,
and an answer that is not a review is followed by a call for each dimension. -/
def reviewGroup (st : PanelState) (group : Text × List Text) : PanelState :=
  match affordableDimensions st chunk group.2 group.1 with
  | (st, []) => st
  | (st, [dim]) => reviewDimensions reader llm cfg defaultModel chunk st [dim]
  | (st, active) =>
    match llm st.made with
    | .raised => (st.note chunk active .raised).failCall
    | .returned r =>
      match (reader.loadFindingsJson r.text).filter Payload.isReview with
      | none =>
        reviewDimensions reader llm cfg defaultModel chunk
          ((st.note chunk active .unread).recordCall r) active
      | some data =>
        let found := findingsFromData data
        let st := ((st.note chunk active (.read found)).recordCall r).extend found
        let st :=
          if chunk = 0 then (summaryFragments active data).foldl PanelState.addSummary st else st
        st.noteCritical found

/-- `_review_groups`. -/
def reviewGroups (st : PanelState) (groups : List (Text × List Text)) : PanelState :=
  untilStop PanelState.criticalExit (reviewGroup reader llm cfg defaultModel chunk) st groups

end Review

/-- One turn of the loop of `run_panel_review`, for the chunk with the given index. -/
def reviewChunk (reader : Reader) (llm : Nat → Outcome) (cfg : PanelConfig) (defaultModel : Text)
    (st : PanelState) (chunk : Nat) : PanelState :=
  let dims := sortDimensions cfg.dimensions
  if cfg.combined then
    reviewGroups reader llm cfg defaultModel chunk st (groupDimensionsByModel cfg defaultModel dims)
  else reviewDimensions reader llm cfg defaultModel chunk st dims

/-- What a review leaves: its result and the turns it took. -/
structure Reviewed where
  result : ReviewResult
  turns : List Turn

/-- `run_panel_review`. -/
def runPanelReview (reader : Reader) (llm : Nat → Outcome) (cfg : PanelConfig) (chunks : List Text)
    (budgetRemaining : Option ℚ) (defaultModel : Text) : Reviewed :=
  let st := untilStop PanelState.criticalExit (reviewChunk reader llm cfg defaultModel)
    { budgetRemaining := budgetRemaining } (List.range chunks.length)
  let findings := deduplicateFindings st.findings cfg.lineProximity
  { result :=
      { st.result with
        findings := findings
        summary :=
          if findings = [] ∧ st.result.summary = [] then
            "All dimensions report no issues: code looks good.".toList
          else st.result.summary }
    turns := st.turns }

end Review

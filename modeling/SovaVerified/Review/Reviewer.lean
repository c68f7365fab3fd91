import SovaVerified.Review.Panel

/-!
# The reviewer

`sova/roles/reviewer.py`: the single reviewer asks about each chunk of the diff once and, when the
answer does not meet the schema, up to two times more (`validate_step_output` of
`sova/core/schema_validation.py`). The findings of the review, single or by the panel, and the finding
for protected paths are formatted into the body that is posted.
-/

namespace Review

/-- The part of the configuration that a review reads. -/
structure ReviewConfig where
  thresholds : Thresholds := {}
  panel : PanelConfig := {}
  protectedPaths : List Text := []
  /-- `agent.max_budget`. -/
  maxBudget : ℚ := 10

/-- The pull request under review, and what the run knows about it. -/
structure ReviewContext where
  files : List Text := []
  /-- The head commit, when it is known. -/
  sha : Option Sha := none
  /-- What the run has spent before the review. -/
  costUsd : ℚ := 0
  /-- `_resolve_review_model`. -/
  model : Text := "sonnet".toList
  /-- The note of a spec that is not current. -/
  stalenessNote : Option Text := none

/-! ## The single reviewer -/

/-- `_run_single_review` in the middle of a chunk: the result so far, the calls made, the turns, and
the local variables of the chunk. -/
structure ChunkState where
  result : ReviewResult := {}
  made : Nat := 0
  turns : List Turn := []
  chunkSpent : ℚ := 0
  lastRetryText : Text := []
  /-- The number of the call that returned `lastRetryText`. -/
  lastCall : Nat := 0

/-- A call of the model that returned: it is charged, and its text is the latest answer. -/
def ChunkState.charge (st : ChunkState) (r : LlmResult) : ChunkState :=
  { st with
    result :=
      { st.result with
        totalCost := st.result.totalCost + r.costUsd
        llmResults := st.result.llmResults ++ [r] }
    made := st.made + 1
    chunkSpent := st.chunkSpent + r.costUsd
    lastRetryText := r.text
    lastCall := st.made }

/-- A call that failed. -/
def ChunkState.failCall (st : ChunkState) (chunk : Nat) : ChunkState :=
  { st with
    made := st.made + 1
    turns := st.turns ++ [⟨chunk, none, st.made, .raised⟩] }

/-- What came of the latest answer. -/
def ChunkState.note (st : ChunkState) (chunk : Nat) (fate : Fate) : ChunkState :=
  { st with
    turns := st.turns ++ [⟨chunk, none, st.lastCall, fate⟩] }

section Single

variable (reader : Reader) (llm : Nat → Outcome) (chunkBudget : ℚ) (chunk : Nat)

/-- `retry_review`, asked for when the latest answer did not meet the schema. The error is the
exception, with the state it leaves. -/
def retryReview (st : ChunkState) : Except ChunkState ChunkState :=
  if chunkBudget - st.chunkSpent ≤ 0 then .error st
  else
    match llm st.made with
    | .raised => .error (st.failCall chunk)
    | .returned r => .ok ((st.note chunk .unread).charge r)

/-- `validate_step_output` with so many retries left. The error is its `ValidationError`. -/
def validateStepOutput : Nat → ChunkState → Except ChunkState (Payload × ChunkState)
  | retries, st =>
    match reader.tryParseAndValidate st.lastRetryText with
    | some data => .ok (data, st)
    | none =>
      match retries with
      | 0 => .error st
      | retries + 1 =>
        match retryReview llm chunkBudget chunk st with
        | .error st => .error st
        | .ok st => validateStepOutput retries st

/-- The findings and the summary of a chunk, added to the result. -/
def ChunkState.addFindings (st : ChunkState) (findings : List ReviewFinding) (summary : Text) :
    ChunkState :=
  { st with
    result :=
      { st.result with
        findings := st.result.findings ++ findings
        summary := if chunk = 0 ∨ st.result.summary = [] then summary else st.result.summary } }

/-- One turn of the loop of `_run_single_review`. An exception of the first call leaves the chunk
without findings; an answer that never met the schema is read as far as it can be. -/
def singleReviewChunk (st : ChunkState) : ChunkState :=
  match llm st.made with
  | .raised =>
    let st := st.failCall chunk
    if st.result.findings = [] then
      { st with
        result :=
          { st.result with
            summary := "LLM review unavailable: manual review recommended".toList } }
    else st
  | .returned r =>
    match validateStepOutput reader llm chunkBudget chunk 2 ({ st with chunkSpent := 0 }.charge r) with
    | .ok (data, st) =>
      let findings := findingsFromData data
      (st.note chunk (.read findings)).addFindings chunk findings (data.summary.getD [])
    | .error st =>
      let parsed := parseFindings reader st.lastRetryText
      (st.note chunk (fateOf reader st.lastRetryText)).addFindings chunk parsed.1 parsed.2

end Single

/-- `_run_single_review`. -/
def runSingleReview (reader : Reader) (llm : Nat → Outcome) (chunks : List Text) (maxBudget : ℚ) :
    Reviewed :=
  let st := (List.range chunks.length).foldl
    (fun st chunk => singleReviewChunk reader llm (maxBudget / chunks.length) chunk st)
    ({} : ChunkState)
  { result := st.result
    turns := st.turns }

/-! ## The review that is posted -/

/-- `[Spec freshness: ...]` in front of the summary. -/
def withStalenessNote (note : Option Text) (summary : Text) : Text :=
  match note with
  | some (c :: t) =>
    let front := "[Spec freshness: ".toList ++ (c :: t) ++ "]".toList
    if summary = [] then front else Text.strip (front ++ " ".toList ++ summary)
  | _ => summary

/-- `_run_review`, on the chunks of the diff. -/
def runReview (reader : Reader) (llm : Nat → Outcome) (cfg : ReviewConfig) (ctx : ReviewContext)
    (chunks : List Text) : Reviewed :=
  let reviewed :=
    if cfg.panel.enabled then
      runPanelReview reader llm cfg.panel chunks (some (cfg.maxBudget - ctx.costUsd)) ctx.model
    else runSingleReview reader llm chunks cfg.maxBudget
  { reviewed with
    result :=
      { reviewed.result with
        summary := withStalenessNote ctx.stalenessNote reviewed.result.summary } }

/-- The findings that `_execute` posts: those of the review and the one for protected paths. -/
def postedFindings (cfg : ReviewConfig) (ctx : ReviewContext) (reviewed : Reviewed) :
    List ReviewFinding :=
  reviewed.result.findings ++ protectedPathFindings ctx.files cfg.protectedPaths

/-- The bodies that `_post_review` tries, one after the other: with references to the inline comments,
then with every finding in full, as a review and as a comment. -/
def postedBodies (cfg : ReviewConfig) (ctx : ReviewContext) (inlineCommentKeys : List (Text × Int))
    (reviewed : Reviewed) : List Text :=
  let body := formatFindingsBody (postedFindings cfg ctx reviewed) reviewed.result.summary
    (ctx.sha.map Sha.digits) cfg.thresholds
  [body inlineCommentKeys, body []]

/-- A body carries an approve verdict marker. -/
def Approves (body : Text) : Prop :=
  ∃ sha, parseVerdictMarker body = some ("approve".toList, sha)

/-! ## What was reviewed -/

/-- What a review has to cover in each chunk. -/
def dueDimensions (cfg : ReviewConfig) : List (Option Text) :=
  if cfg.panel.enabled then cfg.panel.dimensions.map some else [none]

/-- The chunk was read for the dimension, or the dimension is skipped, from this chunk or an earlier
one on. -/
def Settled (turns : List Turn) (chunk : Nat) (dimension : Option Text) : Prop :=
  ∃ t ∈ turns, t.dimension = dimension ∧
    ((t.chunk = chunk ∧ t.isRead = true) ∨ (t.chunk ≤ chunk ∧ t.isSkipped = true))

/-- Every chunk was read, for each dimension that is not skipped: what an approval should rest on. -/
def FullyReviewed (cfg : ReviewConfig) (chunks : List Text) (turns : List Turn) : Prop :=
  ∀ chunk < chunks.length, ∀ dimension ∈ dueDimensions cfg, Settled turns chunk dimension

/-- A finding of this severity keeps the verdict from being an approval. -/
def Thresholds.Blocks (th : Thresholds) (severity : Int) : Prop :=
  th.reviseAt ≤ clampSeverity severity ∨ th.blockAt ≤ clampSeverity severity

/-- A finding that blocks was read, or a protected path is touched and its finding blocks. -/
def BlockingFound (cfg : ReviewConfig) (ctx : ReviewContext) (turns : List Turn) : Prop :=
  (∃ t ∈ turns, ∃ f ∈ t.findings, cfg.thresholds.Blocks f.severity) ∨
    (checkProtectedPaths ctx.files cfg.protectedPaths ≠ [] ∧ cfg.thresholds.Blocks 1)

/-- What a failed call was about was settled by another one: a retry, or the call for one dimension
that follows a combined one. -/
def LossesMadeGood (turns : List Turn) : Prop :=
  ∀ t ∈ turns, t.isLost = true → Settled turns t.chunk t.dimension

/-- A finding was read that ends the review of a panel. -/
def CriticalFound (turns : List Turn) : Prop :=
  ∃ t ∈ turns, ∃ f ∈ t.findings, criticalSeverity ≤ f.severity

/-- Everything had its turn, whatever came of it. -/
def Covered (cfg : ReviewConfig) (chunks : List Text) (turns : List Turn) : Prop :=
  ∀ chunk < chunks.length, ∀ dimension ∈ dueDimensions cfg, ∃ t ∈ turns, t.dimension = dimension ∧
    (t.chunk = chunk ∨ (t.chunk ≤ chunk ∧ t.isSkipped = true))

/-- Nothing is approved that was not reviewed. -/
def ApprovesOnlyReviewed (reader : Reader) (llm : Nat → Outcome) (cfg : ReviewConfig)
    (ctx : ReviewContext) (chunks : List Text) (inlineCommentKeys : List (Text × Int)) : Prop :=
  let reviewed := runReview reader llm cfg ctx chunks
  ∀ body ∈ postedBodies cfg ctx inlineCommentKeys reviewed,
    Approves body → FullyReviewed cfg chunks reviewed.turns

end Review

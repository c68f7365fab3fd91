import SovaVerified.Review.Reviewer

/-!
# What a review leaves behind

The end of `_execute` in `sova/roles/reviewer.py`: the review is posted with a verdict marker, the issue gets
a verdict label, and the handoffs for the next agent and for the dashboard are written. Each of the three
takes the verdict from the findings on its own.
-/

namespace Review

/-- `review.revise_severity` and `review.block_severity` as `ReviewConfig` accepts them. -/
structure ConfiguredThresholds extends Thresholds where
  one_le : 1 ≤ reviseAt
  revise_le_block : reviseAt ≤ blockAt
  block_le_ten : blockAt ≤ 10

/-! ## The findings that count -/

def protectedPath : Text := "protected-path".toList

/-- `ReviewResult.actionable`. -/
def ReviewResult.actionable (review : ReviewResult) : List ReviewFinding :=
  review.findings.filter fun f => f.category ≠ protectedPath

/-- `ReviewResult.blocking`. -/
def ReviewResult.blocking (review : ReviewResult) (reviseAt : Int) : List ReviewFinding :=
  review.actionable.filter fun f => reviseAt ≤ clampSeverity f.severity

/-- `_verdict_label`. -/
def verdictLabel (findings : List ReviewFinding) (th : Thresholds) : Verdict :=
  verdictFromSeverities th (findings.map ReviewFinding.severity)

/-- `_VERDICT_TO_LABEL`. -/
def verdictToLabel : Verdict → Text
  | .approve => "sova:approved".toList
  | .revise => "sova:revise".toList
  | .block => "sova:block".toList

/-- `_sova_verdict_label_name`. -/
def sovaVerdictLabelName (findings : List ReviewFinding) (th : Thresholds) : Text :=
  verdictToLabel (verdictLabel findings th)

/-! ## Posting -/

/-- An inline comment on the right side of the diff. -/
structure InlineComment where
  path : Text
  line : Int
  body : Text
  deriving DecidableEq

/-- `_format_inline_comment`. -/
def formatInlineComment (f : ReviewFinding) : Text :=
  let first := "**[".toList ++ severityLabel f.severity ++ "] ".toList ++ f.category ++ "**: ".toList ++ f.description
  Text.join "\n".toList
    (first :: if f.suggestion = [] then [] else ["\n**Suggestion**: ".toList ++ f.suggestion])

/-- The inline comments of `_build_review_comments`; `diffLines` gives the lines of a file in the diff. -/
def buildReviewComments (findings : List ReviewFinding) (diffLines : Text → List Int) : List InlineComment :=
  findings.filterMap fun f =>
    match f.line with
    | some line => if line ≠ 0 ∧ line ∈ diffLines f.file then some ⟨f.file, line, formatInlineComment f⟩ else none
    | none => none

/-- What comes of the attempts to post: a request may post its body, post the fallback body because the inline
comments were rejected, or raise. -/
inductive PostOutcome where
  | posted
  | postedFallback
  | raised
  deriving DecidableEq

/-- The three attempts of `_post_review`: the review, the review without inline comments, the comment. -/
structure PostOutcomes where
  review : PostOutcome
  bodyOnly : Bool
  comment : Bool
  deriving DecidableEq

/-- `_post_review`: the body that was posted, `none` when every attempt failed. -/
def postReview (review : ReviewResult) (th : Thresholds) (sha : Option Sha) (diffLines : Text → List Int)
    (outcomes : PostOutcomes) : Option Text :=
  let inlineComments := buildReviewComments (review.blocking th.reviseAt) diffLines
  let body := formatFindingsBody review.findings review.summary (sha.map Sha.digits) th
  match outcomes.review with
  | .posted => some (body (inlineComments.map fun c => (c.path, c.line)))
  | .postedFallback => some (body [])
  | .raised =>
    if inlineComments ≠ [] ∧ outcomes.bodyOnly = true then some (body [])
    else if outcomes.comment then some (body [])
    else none

/-! ## The handoffs -/

structure HandoffAction where
  id : Text
  label : Text
  description : Text
  style : Text
  mode : Text
  command : Text := []
  role : Option Text := none
  autoExecute : Bool := false
  deriving DecidableEq

/-- The `AgentHandoff` and the `DashboardHandoff` of a review: the verdict of the metadata, and what both name
as the next action and as the pending findings. -/
structure ReviewHandoff where
  summary : Text
  dashboardSummary : Text
  nextAction : Text
  verdict : Option Text
  reviewHeadSha : Option Text
  pendingFindings : List ReviewFinding
  actions : List HandoffAction
  deriving DecidableEq

def postFailedSummary : Text :=
  "Review completed but could not be posted to GitHub. Re-run the reviewer to retry posting.".toList

def integrateAction (pr : Int) (description : String) : HandoffAction where
  id := "integrate".toList
  label := "Integrate PR".toList
  description := description.toList
  style := "approve".toList
  mode := "claude-command".toList
  command := "/integrate-pr ".toList ++ Text.ofInt pr

/-- `_write_handoff`. -/
def writeHandoff (review : ReviewResult) (postFailed : Bool) (th : Thresholds) (sha : Option Sha) (pr : Int)
    (autoAddressReview : Bool) : ReviewHandoff :=
  let actionable := review.actionable
  let blocking := review.blocking th.reviseAt
  if postFailed then
    { summary := postFailedSummary
      dashboardSummary := postFailedSummary
      nextAction := "review_post_failed".toList
      verdict := none
      reviewHeadSha := sha.map Sha.digits
      pendingFindings := actionable
      actions :=
        [{ id := "rerun_review".toList
           label := "Re-run Review".toList
           description := "Retry posting the review to GitHub".toList
           style := "neutral".toList
           mode := "agent".toList
           role := some "reviewer".toList }] }
  else
    let protectedOnly := actionable = [] ∧ review.findings ≠ []
    { summary := review.summary
      dashboardSummary := Text.ofInt review.findings.length ++ " findings (".toList ++ Text.ofInt blocking.length ++
        " blocking)".toList
      nextAction :=
        if blocking ≠ [] then "address_review".toList
        else if protectedOnly then "needs_human_review".toList
        else "approve".toList
      verdict := some (Text.lower (verdictLabel actionable th).name)
      reviewHeadSha := sha.map Sha.digits
      pendingFindings := actionable
      actions :=
        if blocking ≠ [] then
          [{ id := "address_review".toList
             label := "Address Review".toList
             description := "Fix ".toList ++ Text.ofInt blocking.length ++ " blocking findings".toList
             style := "approve".toList
             mode := "agent".toList
             role := some "developer".toList
             autoExecute := autoAddressReview }]
        else if protectedOnly then
          [integrateAction pr "Code review passed. Protected paths touched: human approval required."]
        else [integrateAction pr "No blocking findings: rebase, merge, cleanup, and learn"] }

/-! ## The end of a review -/

/-- What a review leaves behind. -/
structure Published where
  /-- The body that was posted. -/
  body : Option Text
  /-- The verdict label that the issue gets. -/
  label : Option Text
  handoff : ReviewHandoff

/-- The end of `_execute`: the review is posted, then the label and the handoffs are written. -/
def publish (review : ReviewResult) (th : Thresholds) (sha : Option Sha) (diffLines : Text → List Int)
    (outcomes : PostOutcomes) (hasIssue : Bool) (pr : Int) (autoAddressReview : Bool) : Published :=
  let body := postReview review th sha diffLines outcomes
  { body := body
    label := if body.isSome && hasIssue then some (sovaVerdictLabelName review.actionable th) else none
    handoff := writeHandoff review body.isNone th sha pr autoAddressReview }

/-- The marker of the posted body, the label and the handoff say one verdict. -/
def Published.OneVerdict (p : Published) : Prop :=
  ∃ v : Verdict, (∃ body sha, p.body = some body ∧ parseVerdictMarker body = some (Text.lower v.name, sha)) ∧
    (∀ label ∈ p.label, label = verdictToLabel v) ∧
    p.handoff.verdict = some (Text.lower v.name) ∧
    (p.handoff.nextAction = "address_review".toList ↔ v ≠ .approve)

end Review

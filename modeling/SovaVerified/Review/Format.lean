import Mathlib.Data.List.Sort
import SovaVerified.Regex.Regex

/-!
# The markers of a review body

`sova/utils/review_markers.py`: the two comments that SOVA embeds in its GitHub reviews, and how they
are read back. A verdict marker names the verdict and, when known, the reviewed commit; an addressed
marker says that an address cycle has pushed its fixes.
-/

namespace Review

/-- `[0-9a-f]` under `re.IGNORECASE`. -/
def isHexCI (c : Char) : Bool :=
  ('0' ≤ c && c ≤ '9') || ('a' ≤ c && c ≤ 'f') || ('A' ≤ c && c ≤ 'F')

/-- `[0-9a-f]{7,40}` under `re.IGNORECASE`. -/
def shaPattern : Regex := .rep 7 (some 40) isHexCI

/-- `SOVA_ADDRESSED_MARKER_RE`. -/
def sovaAddressedMarkerRe : Regex :=
  Regex.cat [Regex.lit "<!--", Regex.spaces, Regex.lit "sova-addressed",
    Regex.opt (Regex.cat [Regex.spaces, Regex.lit ":", Regex.spaces, Regex.lit "sha=",
      .cap 1 shaPattern]),
    Regex.spaces, Regex.lit "-->"]

/-- `SOVA_VERDICT_MARKER_RE`. -/
def sovaVerdictMarkerRe : Regex :=
  Regex.cat [Regex.lit "<!--", Regex.spaces, Regex.lit "sova-review:", Regex.spaces,
    .cap 1 (.alt (Regex.lit "approve") (.alt (Regex.lit "revise") (Regex.lit "block"))),
    Regex.opt (Regex.cat [Regex.spaces1, Regex.lit "sha=", .cap 2 shaPattern]),
    Regex.spaces, Regex.lit "-->"]

/-- `INLINE_COMMENT_STUB`. -/
def inlineCommentStub : Text := "see inline comment above.".toList

/-- `SOVA_ADDRESSED_MARKER_RE.search(body)` as a test. -/
def hasAddressedMarker (body : Text) : Bool :=
  (sovaAddressedMarkerRe.search body).isSome

/-- `parse_verdict_marker`: the verdict, in lower case, and the reviewed commit of the first verdict
marker of a body. -/
def parseVerdictMarker (body : Text) : Option (Text × Option Text) :=
  match sovaVerdictMarkerRe.search body with
  | none => none
  | some g =>
    some (Text.lower ((g.get 1).getD []),
      (g.get 2).bind fun sha => if sha.isEmpty then none else some (Text.lower sha))

/-- `SHA_RE.fullmatch`. -/
def isSha (t : Text) : Bool := shaPattern.fullMatch t

/-- A commit id that a marker can carry. -/
structure Sha where
  /-- The hexadecimal digits. -/
  digits : Text
  /-- The digits are accepted by `SHA_RE`. -/
  valid : isSha digits = true

/-- `addressed_marker`. -/
def addressedMarker (sha : Option Text) : Text :=
  match sha with
  | some s =>
    if isSha s then "<!-- sova-addressed: sha=".toList ++ Text.lower s ++ " -->".toList
    else "<!-- sova-addressed -->".toList
  | none => "<!-- sova-addressed -->".toList

end Review

/-!
# Formatting a review

`sova/roles/_review_format.py`: severities, the verdict of a list of findings, and the markdown body
that is posted on the pull request.
-/

namespace Review

/-- A finding as `format_review_body` reads it: a dict whose keys may be missing. -/
structure Finding where
  file : Option Text := none
  line : Option Int := none
  severity : Option Int := none
  category : Option Text := none
  description : Option Text := none
  suggestion : Option Text := none
  deriving DecidableEq

/-- The verdict of a review. -/
inductive Verdict where
  | approve
  | revise
  | block
  deriving DecidableEq, Repr

/-- The verdict as the body's heading spells it. -/
def Verdict.name : Verdict → Text
  | .approve => "APPROVE".toList
  | .revise => "REVISE".toList
  | .block => "BLOCK".toList

/-- The severity thresholds of a project: `review.revise_severity` and `review.block_severity`. -/
structure Thresholds where
  /-- Severity from which a finding asks for changes. -/
  reviseAt : Int := 3
  /-- Severity from which a finding blocks. -/
  blockAt : Int := 7
  deriving DecidableEq

/-- `clamp_severity`. -/
def clampSeverity (severity : Int) : Int := max 1 (min 10 severity)

/-- `severity_label`. -/
def severityLabel (severity : Int) : Text :=
  if clampSeverity severity ≥ 7 then "CRITICAL".toList
  else if clampSeverity severity ≥ 5 then "HIGH".toList
  else if clampSeverity severity ≥ 3 then "MEDIUM".toList
  else "LOW".toList

/-- The largest clamped severity of a nonempty list. -/
def maxSeverity (s : Int) (severities : List Int) : Int :=
  severities.foldl (fun m x => max m (clampSeverity x)) (clampSeverity s)

/-- `verdict_from_severities`. -/
def verdictFromSeverities (th : Thresholds) : List Int → Verdict
  | [] => .approve
  | s :: severities =>
    if maxSeverity s severities ≥ th.blockAt then .block
    else if maxSeverity s severities ≥ th.reviseAt then .revise
    else .approve

/-- `f.get("severity", 5)`. -/
def Finding.severityOr5 (f : Finding) : Int := f.severity.getD 5

/-- `verdict_from_findings`. -/
def verdictFromFindings (th : Thresholds) (findings : List Finding) : Verdict :=
  verdictFromSeverities th (findings.map Finding.severityOr5)

/-- `_verdict_action`. -/
def verdictAction : Verdict → Text
  | .approve => "Approved".toList
  | .block => "Block".toList
  | .revise => "Request changes".toList

/-- `_SEVERITY_LABEL_ORDER`, each label with its lower case. -/
def severityLabelOrder : List (Text × Text) :=
  [("CRITICAL".toList, "critical".toList), ("HIGH".toList, "high".toList),
    ("MEDIUM".toList, "medium".toList), ("LOW".toList, "low".toList)]

/-- `_verdict_rationale`. -/
def verdictRationale (th : Thresholds) (verdict : Verdict) (findings : List Finding) : Text :=
  if verdict = .approve ∨ findings = [] then "no issues found".toList
  else
    let blocking := (findings.map fun f => clampSeverity f.severityOr5).filter (· ≥ th.reviseAt)
    if blocking = [] then "no issues found".toList
    else
      let labels := blocking.map severityLabel
      let parts := (severityLabelOrder.filter fun l => l.1 ∈ labels).map fun l =>
        Text.ofInt (labels.count l.1) ++ " ".toList ++ l.2
      Text.join ", ".toList parts ++ " finding(s) require changes".toList

/-- `f.get("file") or "unknown"`. -/
def Finding.filePath (f : Finding) : Text :=
  match f.file with
  | some (c :: t) => c :: t
  | _ => "unknown".toList

/-- `f.get("category", "other")`. -/
def Finding.cat (f : Finding) : Text := f.category.getD "other".toList

/-- The location of a finding, between the backticks of its line. -/
def Finding.loc (f : Finding) : Text :=
  match f.line with
  | some n => f.filePath ++ ":".toList ++ Text.ofInt n
  | none => f.filePath

/-- The description on one line. -/
def Finding.desc (f : Finding) : Text :=
  match f.description with
  | some (c :: t) => Text.flatten (c :: t)
  | _ => "Issue detected".toList

/-- The suggestion on one line. -/
def Finding.fix (f : Finding) : Text := Text.flatten (f.suggestion.getD [])

/-- The finding already has its own inline comment: `(file_path, line_num) in inline_comment_keys`. -/
def Finding.inlined (keys : List (Text × Int)) (f : Finding) : Bool :=
  match f.line with
  | some n => (f.filePath, n) ∈ keys
  | none => false

/-- The front of a finding's line, up to its category. -/
def findingHead (f : Finding) : Text :=
  let sev := clampSeverity f.severityOr5
  "- **[".toList ++ severityLabel sev ++ " ".toList ++ Text.ofInt sev ++ "/10]** [".toList

/-- `_format_finding_line`. -/
def formatFindingLine (keys : List (Text × Int)) (f : Finding) : Text :=
  let front := findingHead f ++ f.cat ++ "] `".toList ++ f.loc ++ "`: ".toList
  if f.inlined keys then front ++ inlineCommentStub
  else if f.fix = [] then front ++ f.desc
  else front ++ f.desc ++ " Fix: ".toList ++ f.fix

/-- `sorted(..., key=clamp_severity, reverse=True)`: stable, most severe first. -/
def sortBySeverity (findings : List Finding) : List Finding :=
  findings.insertionSort fun a b => clampSeverity b.severityOr5 ≤ clampSeverity a.severityOr5

/-- The findings that block the verdict. -/
def blockingOf (th : Thresholds) (findings : List Finding) : List Finding :=
  findings.filter fun f => clampSeverity f.severityOr5 ≥ th.reviseAt

/-- The findings below the revise threshold. -/
def advisoryOf (th : Thresholds) (findings : List Finding) : List Finding :=
  findings.filter fun f => clampSeverity f.severityOr5 < th.reviseAt

/-- `"finding" if len(fs) == 1 else "findings"`, with the number in bold. -/
def countLine (fs : List Finding) : Text :=
  "**".toList ++ Text.ofInt fs.length ++
    (if fs.length = 1 then " finding".toList else " findings".toList) ++ "**".toList

/-- The first line of a body: the verdict marker. -/
def verdictMarker (verdict : Verdict) (sha : Option Text) : Text :=
  "<!-- sova-review: ".toList ++ Text.lower verdict.name ++
    (match sha with
      | some (c :: t) => " sha=".toList ++ (c :: t)
      | _ => []) ++ " -->".toList

/-- What `format_review_body` is called with. -/
structure ReviewBody where
  /-- The findings. -/
  findings : List Finding
  /-- The summary, written by the model. -/
  summary : Text := []
  /-- Positive observations; the section is left out when there are none. -/
  positives : List Text := []
  /-- The reviewed head commit. -/
  sha : Option Text := none
  /-- The severity thresholds. -/
  thresholds : Thresholds := {}
  /-- `(file, line)` of the findings that have an inline comment. -/
  inlineCommentKeys : List (Text × Int) := []

/-- The verdict of a body. -/
def ReviewBody.verdict (b : ReviewBody) : Verdict := verdictFromFindings b.thresholds b.findings

/-- `(summary or "").strip() or "Review of changes."`. -/
def effectiveSummary (summary : Text) : Text :=
  if Text.strip summary = [] then "Review of changes.".toList else Text.strip summary

/-- The lines under `### Findings`. -/
def findingLines (b : ReviewBody) : List Text :=
  let blocking := blockingOf b.thresholds b.findings
  if blocking = [] then
    [if b.findings = [] then "No issues found after thorough review.".toList
      else "No blocking issues found after thorough review.".toList]
  else
    [countLine blocking, []] ++
      (sortBySeverity blocking).map (formatFindingLine b.inlineCommentKeys)

/-- The advisory section, when there are advisory findings. -/
def advisoryLines (b : ReviewBody) : List Text :=
  let advisory := advisoryOf b.thresholds b.findings
  if advisory = [] then []
  else
    [[], "### Advisory (not blocking)".toList, [],
      countLine advisory ++ " (recorded for a later fix round, does not block approval)".toList,
      []] ++ (sortBySeverity advisory).map (formatFindingLine [])

/-- The section of positive observations, when there are any. -/
def positiveLines (b : ReviewBody) : List Text :=
  if b.positives = [] then []
  else [[], "### What's Done Well".toList] ++ b.positives.map ("- ".toList ++ ·)

/-- `format_review_body`. -/
def formatReviewBody (b : ReviewBody) : Text :=
  Text.join "\n".toList
    ([verdictMarker b.verdict b.sha, [], "## Review: ".toList ++ b.verdict.name, [],
        effectiveSummary b.summary, [], "### Findings".toList, []] ++
      findingLines b ++ advisoryLines b ++ positiveLines b ++
      [[], "### Verdict".toList, "**".toList ++ verdictAction b.verdict ++ "**: ".toList ++
        verdictRationale b.thresholds b.verdict b.findings ++ ".".toList])

/-- `normalize_sha`: a malformed anchor leaves the marker unanchored. -/
def normalizeSha (value : Option Text) : Option Text :=
  match value with
  | some v => if isSha v then some (Text.lower v) else none
  | none => none

end Review

import SovaVerified.Review.AddressReview
import SovaVerified.Review.Handoff

/-!
# Inline comments read back

`sova/core/steps/address_review.py`: a finding that has its own inline comment stands in the body of its
review as a stub only. The address step reads its text back out of the comments of the pull request, by
the file and the line. Fetching the comments, and taking their JSON apart, is left out: what is
modelled starts with the comments that came.
-/

namespace Review

open Text

/-- A comment of a pull request, as far as it is read. -/
structure Comment where
  isBot : Bool := false
  isReply : Bool := false
  path : Text
  line : Option Int
  originalLine : Option Int := none
  body : Text

/-- `_INLINE_COMMENT_HEAD_RE`. -/
def inlineCommentHeadRe (A : Alphabet) : Regex :=
  .cat [.exact "**[", .rep 1 none A.isWord, .exact "]", .rep 0 none (· != '*'), .exact "**:", .spaces]

/-- `_INLINE_SUGGESTION_RE`. Fewer line feeds than there are lead to no match, so the group need not be
atomic. -/
def inlineSuggestionRe : Regex :=
  .cat [.rep 1 none (· == '\n'), .exact "**Suggestion**:", .spaces]

/-- `_INLINE_SUGGESTION_RE.split(text, maxsplit=1)`. -/
def cutSuggestion : Text → Text × Option Text
  | [] => ([], none)
  | c :: t =>
    match inlineSuggestionRe.matchRest (c :: t) with
    | some (_, rest) => ([], some rest)
    | none =>
      let (front, back) := cutSuggestion t
      (c :: front, back)

/-- `_INLINE_COMMENT_HEAD_RE.sub("", text, count=1)`. -/
def withoutHead (A : Alphabet) (text : Text) : Text :=
  match (inlineCommentHeadRe A).matchRest text with
  | some (_, rest) => rest
  | none => text

/-- `_parse_inline_comment_body`. -/
def parseInlineCommentBody (A : Alphabet) (text : Text) : Text × Text :=
  let (front, back) := cutSuggestion text
  (strip (withoutHead A (strip front)), (back.map strip).getD [])

/-- What a comment may hold for a finding at its location. -/
structure Candidate where
  description : Text
  suggestion : Text
  isSovaShaped : Bool
  deriving DecidableEq

/-- The line that a comment is kept under. -/
def Comment.anchor (c : Comment) : Option Int := c.line.or c.originalLine

/-- One turn of the loop of `_load_inline_review_comments`. -/
def readComment (A : Alphabet) (c : Comment) : Option ((Text × Int) × Candidate) :=
  if c.isBot || c.isReply then none
  else
    match c.anchor with
    | none => none
    | some line =>
      let body := strip c.body
      if c.path = [] ∨ body = [] then none
      else
        let (description, suggestion) := parseInlineCommentBody A body
        some ((c.path, line), {
          description := description
          suggestion := suggestion
          isSovaShaped := ((inlineCommentHeadRe A).matchRest body).isSome })

/-- `_load_inline_review_comments`. -/
def loadInlineReviewComments (A : Alphabet) (comments : List Comment) : Assoc (Text × Int) (List Candidate) :=
  (comments.filterMap (readComment A)).foldl (fun m e => m.push e.1 e.2) []

/-- The comments that a finding may be hydrated from: those of SOVA's own shape before the others. -/
def candidatesOf (found : List Candidate) : List Candidate :=
  let sovaShaped := found.filter Candidate.isSovaShaped
  if sovaShaped = [] then found else sovaShaped

/-- One turn of the loop of `_hydrate_collapsed_findings`. A finding without a line is at no location of a
comment. -/
def hydrateFinding (inline : Assoc (Text × Int) (List Candidate)) (f : ParsedFinding) : ParsedFinding :=
  match f.line with
  | none => f
  | some line =>
    match candidatesOf ((inline.get (f.file, line)).getD []) with
    | [m] =>
      if m.description = [] then f
      else
        { f with
          description := m.description
          suggestion := if m.suggestion = [] then f.suggestion else m.suggestion }
    -- none at the location, or no safe way to tell which one belongs to the finding
    | _ => f

/-- `_hydrate_collapsed_findings`. -/
def hydrateCollapsedFindings (A : Alphabet) (comments : List Comment) (findings : List ParsedFinding) :
    List ParsedFinding :=
  findings.map fun f =>
    if f.description = inlineCommentStub then hydrateFinding (loadInlineReviewComments A comments) f else f

/-! ## What of a finding comes back -/

/-- The inline comment that a comment of the pull request is, when it is read at all. -/
def Comment.inline (c : Comment) : Option InlineComment :=
  if c.isBot || c.isReply then none else c.anchor.map fun line => ⟨c.path, line, c.body⟩

/-- The comment starts as SOVA's own ones do. -/
def InlineComment.isSovaShaped (A : Alphabet) (c : InlineComment) : Bool :=
  ((inlineCommentHeadRe A).matchRest (strip c.body)).isSome

/-- What the body of a review is formatted from when these comments are posted with it. -/
def bodyBeside (review : ReviewResult) (th : Thresholds) (sha : Option Sha) (posted : List InlineComment) :
    ReviewBody where
  findings := review.findings.map ReviewFinding.toDict
  summary := review.summary
  sha := sha.map Sha.digits
  thresholds := th
  inlineCommentKeys := posted.map fun c => (c.path, c.line)

/-- The number of SOVA's comments at a location. -/
def sovaShapedAt (A : Alphabet) (comments : List InlineComment) (location : Text × Int) : Nat :=
  comments.countP fun c => decide ((c.path, c.line) = location) && c.isSovaShaped A

/-- The comment of the finding can be read back: it has one, the category does not end its head early, and
the description is neither blank nor holds the line that opens the suggestion. -/
structure ReviewFinding.Quotable (f : ReviewFinding) : Prop where
  category : f.category ≠ protectedPath ∧ '*' ∉ f.category
  description : strip f.description ≠ []
  separate : isIn "\n**Suggestion**:".toList f.description = false

/-- The body of a review holds a stub in place of the finding's text. -/
def ReviewFinding.Collapsed (th : Thresholds) (posted : List InlineComment) (f : ReviewFinding) : Prop :=
  th.reviseAt ≤ clampSeverity f.severity ∧ ∃ line, f.line = some line ∧
    (f.file, line) ∈ posted.map fun c => (c.path, c.line)

/-- The parsed finding still holds the stub. -/
def ParsedFinding.IsStub (p : ParsedFinding) : Prop := p.description = inlineCommentStub ∧ p.suggestion = []

/-- The parsed finding is the stub of a finding, which names its file. -/
structure StubOf (f : ReviewFinding) (p : ParsedFinding) : Prop where
  named : f.file ≠ []
  location : p.file = f.file ∧ p.line = f.line
  stub : p.IsStub

/-- What becomes of the stub of a finding, where these comments are found. -/
structure Restored (A : Alphabet) (found : List InlineComment) (f : ReviewFinding) (p : ParsedFinding) : Prop where
  location : p.file = f.file ∧ p.line = f.line
  /-- The only comment at the location gives the text back. -/
  alone : f.Quotable → ∀ line ∈ f.line, sovaShapedAt A found (f.file, line) ≤ 1 →
    p.description = strip f.description ∧ p.suggestion = strip f.suggestion
  /-- Of several comments none is taken. -/
  ambiguous : ∀ line ∈ f.line, 1 < sovaShapedAt A found (f.file, line) → p.IsStub

/-- What the address step has of a finding in the end. -/
structure HandedOver (A : Alphabet) (th : Thresholds) (posted found : List InlineComment) (f : ReviewFinding)
    (p : ParsedFinding) : Prop where
  location : p.file = f.file ∧ p.line = f.line
  severity : p.severity = clampSeverity f.severity
  category : p.category = lower (strip f.category)
  collapsed : f.Collapsed th posted → Restored A found f p
  /-- What was never collapsed stays as the line of the body is read. -/
  whole : ¬ f.Collapsed th posted → ∀ q, readFindingLine A (formatFindingLine [] f.toDict) = [some q] →
    q.description ≠ inlineCommentStub → p = q

end Review

import SovaVerified.Hashing.Sha256
import SovaVerified.Regex.Regex
import SovaVerified.Utils.Gh

/-!
# The revision stamp of a spec

`_stamp_issue_revision` of `sova/core/steps/spec.py`, which writes into a spec which revision of its issue it
was made for, and `check_spec_freshness` of `sova/core/spec_utils.py`, which reads it back.
-/

namespace Core.SpecStamp

open Utils

/-! ## The revision of an issue -/

/-- `\n*-{3,}\s*` in front of `$`. -/
def separatorRe : Regex :=
  .seq (.rep 0 none (· == '\n')) (.seq (.rep 3 none (· == '-')) Regex.spaces)

/-- Takes the separator away where only the end of the text, or its last line feed, is behind it. -/
def separator : Regex.Matcher Text := fun _ t =>
  (Regex.run separatorRe t [] fun rest _ => if rest = [] ∨ rest = ['\n'] then some rest else none).map
    fun rest => ([], t.length - rest.length)

def unwrapOriginalDescription (body : Text) : Text :=
  let original := Markdown.extractSection body "Original Description".toList false
  if original = [] then body else Text.strip (Regex.subAll separator none 0 original)

/-- `_APPENDED_SECTION_RE` between `^` and `$`. -/
def appendedSectionRe : Regex :=
  .seq (Regex.exact "## ")
    (.seq (.alt (Regex.exact "Triage Assessment") (Regex.exact "Research")) Regex.spaces)

def stripAppendedSections (body : Text) : Text :=
  let body := unwrapOriginalDescription body
  let masked := Markdown.maskFencedBlocks body
  match Regex.searchLineSpan appendedSectionRe masked with
  | some (found, _) => Text.strip (body.take (masked.length - found.length))
  | none => Text.strip body

/-- `_ISSUE_REVISION_HASH_LEN`. -/
def issueRevisionHashLen : Nat := 12

def computeIssueRevisionHash (title body : Text) : Text :=
  (Sha256.hexdigest (Sha256.encode (Text.strip title ++ "\n\n".toList ++ stripAppendedSections body))).take
    issueRevisionHashLen

/-! ## The frontmatter -/

/-- `_frontmatter_span`: the masked text up to the first heading of a section. -/
def frontmatterSpan (text : Text) : Text :=
  let masked := Markdown.maskFencedBlocks text
  match Regex.searchLineStart (Regex.exact "## ") masked with
  | some boundary => masked.take (masked.length - boundary.length)
  | none => masked

/-- `.`. -/
def isDot (c : Char) : Bool := c != '\n'

/-- `_COMPLEXITY_LINE_RE` between `^` and `$`. -/
def complexityLineRe : Regex := .seq (Regex.exact "**Complexity**:") (.rep 0 none isDot)

/-- `_TITLE_HEADING_RE` between `^` and `$`. -/
def titleHeadingRe : Regex := .seq (Regex.exact "# ") (.rep 0 none isDot)

/-- `match.end()` of a search for a line. -/
def lineEnd (r : Regex) (text : Text) : Option Nat :=
  (Regex.searchLineSpan r text).map fun found => text.length - found.2.length

/-! ## Writing -/

def revisionLine (title body : Text) : Text :=
  "**Issue revision**: ".toList ++ computeIssueRevisionHash title body

def stampIssueRevision (content title body : Text) : Text :=
  let frontmatter := frontmatterSpan content
  match lineEnd complexityLineRe frontmatter with
  | some stop => content.take stop ++ '\n' :: revisionLine title body ++ content.drop stop
  | none =>
    match lineEnd titleHeadingRe frontmatter with
    | some stop => content.take stop ++ '\n' :: '\n' :: revisionLine title body ++ content.drop stop
    | none => revisionLine title body ++ '\n' :: '\n' :: content

/-! ## Reading -/

inductive SpecFreshness where
  | current
  | stale
  | unmatched
  | unverifiable
  deriving DecidableEq, Repr

/-- `Task` of the tracker, as far as a spec is checked against it. -/
structure Task where
  title : Text
  body : Text := []

/-- `_ISSUE_REVISION_MARKER_RE`. -/
def issueRevisionMarkerRe : Regex :=
  .seq (Regex.exact "**Issue revision**:")
    (.seq (.rep 0 none Markdown.isBlank) (.cap 1 (.rep 0 none Gh.isVisible)))

/-- `_HEX_RE`. -/
def hexRe : Regex :=
  .rep issueRevisionHashLen (some issueRevisionHashLen) fun c =>
    ('0' ≤ c && c ≤ '9') || ('a' ≤ c && c ≤ 'f') || ('A' ≤ c && c ≤ 'F')

/-- `_SPEC_TITLE_RE` between `^` and `$`. -/
def specTitleRe : Regex := .seq (Regex.exact "# ") (.cap 1 (.rep 1 none isDot))

/-- The value of the first marker in a text. -/
def markerValue (text : Text) : Option Text := (Regex.search issueRevisionMarkerRe text).bind (·.get 1)

/-- The value is the fingerprint of a revision. -/
def stands (raw currentHash : Text) : Bool := Regex.fullMatch hexRe raw && Text.lower raw == currentHash

def checkSpecFreshness (specText : Text) (task : Option Task) : SpecFreshness :=
  match task with
  | none => .unverifiable
  | some task =>
    match markerValue (frontmatterSpan specText) with
    | some raw => if stands raw (computeIssueRevisionHash task.title task.body) then .current else .stale
    | none =>
      match (Regex.searchLines specTitleRe (Markdown.maskFencedBlocks specText)).bind (·.1.get 1) with
      | none => .current
      | some title =>
        let specTitle := Text.withoutFront "Spec: ".toList (Text.strip title)
        if specTitle = Text.strip task.title then .current else .unmatched

end Core.SpecStamp

import SovaVerified.Assoc.Assoc
import SovaVerified.Utils.Gh

/-!
# The body of a pull request

`sova/core/steps/_pr_body.py`: the criteria of an issue, the closing decision that a body ends with, and the
sections of a generated body that are written into the one there is.

A verdict is the text that the code keeps it as: met, unmet, owner or unknown.
-/

namespace Core.PrBody

open Utils
open Utils.Markdown (isBlank)

/-! ## Criteria -/

/-- `(?:\[[ xX]\][ \t]*)?`. -/
def checkboxRe : Regex :=
  Regex.opt (.seq (.chr (· == '[')) (.seq (.chr fun c => c == ' ' || c == 'x' || c == 'X')
    (.seq (.chr (· == ']')) (.rep 0 none isBlank))))

/-- `_CRITERION_LINE_RE` between `^` and `$`. -/
def criterionLineRe : Regex :=
  .seq (.chr Gh.isMarker) (.seq (.rep 1 none isBlank) (.seq checkboxRe Gh.restOfLineRe))

/-- The criterion on a line: an indented line has none. -/
def criterionOf (line : Text) : Option Text :=
  if line ≠ Text.lstrip line then none
  else
    match (Regex.matchLine criterionLineRe line).bind (·.get 1) with
    | none => none
    | some found => if Text.strip found = [] then none else some (Text.strip found)

def extractAcceptanceCriteria (issueBody : Text) : List Text :=
  if issueBody = [] then []
  else
    let section' := Markdown.extractSection issueBody "Acceptance Criteria".toList true
    if section' = [] then [] else (Text.lines (Markdown.maskFencedBlocks section')).filterMap criterionOf

/-! ## The closing decision -/

/-- `_UNPARSEABLE_NOTE`. -/
def unparseableNote : Text :=
  "Per-criterion verdicts could not be parsed; every criterion is listed conservatively below.".toList

/-- The suffix of a criterion that is not met. -/
def suffix (verdict : Text) : Text :=
  if verdict = "owner".toList then " (requires owner/manual action)".toList
  else if verdict = "unknown".toList then " (unverified)".toList
  else []

/-- A criterion that is not met, as it is listed. -/
def itemText (entry : Text × Text) : Text := entry.1 ++ suffix entry.2

/-- The verdicts that are not met. -/
def unmetOf (verdicts : List (Text × Text)) : List (Text × Text) :=
  verdicts.filter fun entry => entry.2 ≠ "met".toList

/-- The lines of a decision that leaves something open. -/
def partOfLines (issueNumber : Text) (unmet : List (Text × Text)) : List Text :=
  ["Part of #".toList ++ issueNumber, []] ++
    (if unmet.any fun entry => entry.2 == "unknown".toList then [unparseableNote, []] else []) ++
    [Gh.notDoneLabel] ++ unmet.map fun entry => "- ".toList ++ itemText entry

def renderClosingBlock (issueNumber : Text) (verdicts : Option (List (Text × Text))) : Text :=
  match verdicts with
  | none => "Closes #".toList ++ issueNumber
  | some verdicts =>
    let unmet := unmetOf verdicts
    if unmet = [] then "Closes #".toList ++ issueNumber else Text.join ['\n'] (partOfLines issueNumber unmet)

/-! ## Sections -/

/-- `_BODY_HEADING_RE` between `^` and `$`. -/
def bodyHeadingRe : Regex := .seq (Regex.exact "##") (.seq (.rep 1 none isBlank) Gh.restOfLineRe)

/-- The matches of an expression that takes no line feed, between `^` and `$`: the groups, the text from the
match on, and what stands behind it. -/
def findLines (r : Regex) (t : Text) : List (Regex.Groups × Text × Text) :=
  (Regex.lineStarts t).filterMap fun s => (Regex.matchToLineEnd r s).map fun m => (m.1, s, m.2)

/-- The headings with their contents, in order. -/
def sectionEntries (markdown masked : Text) : List (Regex.Groups × Text × Text) → List (Text × Text)
  | [] => []
  | (groups, _, rest) :: headings =>
    let behind := markdown.drop (masked.length - rest.length)
    let content :=
      match headings with
      | [] => behind
      | (_, next, _) :: _ => behind.take (rest.length - next.length)
    (Text.strip ((groups.get 1).getD []), Text.strip content) :: sectionEntries markdown masked headings

/-- A heading that is repeated goes on with the section that it has. -/
def addSection (sections : Assoc Text Text) (entry : Text × Text) : Assoc Text Text :=
  match sections.get entry.1 with
  | some old => sections.set entry.1 (Text.strip (old ++ "\n\n".toList ++ entry.2))
  | none => sections.set entry.1 entry.2

def splitSections (markdown : Text) : Assoc Text Text :=
  let masked := Markdown.maskFencedBlocks markdown
  (sectionEntries markdown masked (findLines bodyHeadingRe masked)).foldl addSection []

def applySections (body : Text) (sections : Assoc Text Text) : Text :=
  sections.foldl (fun body entry => Markdown.upsertSection body entry.1 entry.2) body

end Core.PrBody

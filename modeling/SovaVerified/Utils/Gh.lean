import SovaVerified.Regex.Regex
import SovaVerified.Utils.Markdown

/-!
# What a pull request body says

`sova/utils/gh.py`: the items that the body of a pull request lists as not done.
-/

namespace Utils.Gh

open Markdown (isBlank)

/-! ## Items that are not done -/

/-- `NOT_DONE_LABEL`. -/
def notDoneLabel : Text := "Not done in this PR:".toList

/-- `[-*+]`. -/
def isMarker (c : Char) : Bool := c == '-' || c == '*' || c == '+'

/-- `\S`. -/
def isVisible (c : Char) : Bool := !Text.isSpace c

/-- `(\S.*)`. -/
def restOfLineRe : Regex := .cap 1 (.seq (.chr isVisible) (.rep 0 none (· != '\n')))

/-- `_NOT_DONE_ITEM_RE` between `^` and `$`. -/
def notDoneItemRe : Regex := .seq (.chr isMarker) (.seq (.rep 1 none isBlank) restOfLineRe)

/-- `_SHALLOW_HEADING_RE` in front of what ends its marks. -/
def shallowHeadingRe : Regex := .seq (.rep 0 (some 1) (· == ' ')) (.rep 1 (some 6) (· == '#'))

def isShallowHeading (line : Text) : Bool :=
  (Regex.run shallowHeadingRe line [] fun rest g =>
    if rest.head?.any isBlank || rest == [] || rest == ['\n'] then some g else none).isSome

/-- The bullets below a label, with those that were read before. -/
def listedItems (items : List Text) : List Text → List Text
  | [] => items
  | candidate :: lines =>
    if items = [] ∧ Text.strip candidate = [] then listedItems items lines
    else
      let lineText := Text.rstrip candidate
      match (Regex.matchLine notDoneItemRe lineText).bind (·.get 1) with
      | some item => listedItems (items ++ [item]) lines
      | none =>
        if items ≠ [] ∧ lineText.head?.any isBlank ∧ isShallowHeading lineText = false then
          listedItems (items.dropLast ++ [items.getLast?.getD [] ++ '\n' :: lineText]) lines
        else items

/-- The loop over the lines of the section: a label with nothing under it is skipped. -/
def notDoneIn : List Text → Option (List Text)
  | [] => none
  | line :: lines =>
    if Text.strip line = notDoneLabel then
      let items := listedItems [] lines
      if items = [] then notDoneIn lines else some items
    else notDoneIn lines

def parseNotDoneItems (body : Text) : Option (List Text) :=
  notDoneIn (Text.lines (Markdown.extractSection (Markdown.maskFencedBlocks body) "Issue".toList false))

end Utils.Gh

/-!
# The issues that a pull request links to

`sova/utils/gh.py`: the closing keywords, the links in the body of a pull request, and the issue number of a
branch. The alphabet is the one that `\b` of a regular expression goes by.
-/

namespace Utils.Gh

variable (A : Text.Alphabet)

/-! ## Closing keywords -/

/-- `[sd]`. -/
def endsVerb (c : Char) : Bool := Regex.foldEq 's' c || Regex.foldEq 'd' c

/-- `CLOSING_KEYWORDS`. -/
def closingKeywords : Regex :=
  .alt (.seq (Regex.lit "close") (.rep 0 (some 1) endsVerb))
    (.alt (.seq (Regex.lit "fix") (Regex.opt (.seq (Regex.lit "e") (.chr endsVerb))))
      (.seq (Regex.lit "resolve") (.rep 0 (some 1) endsVerb)))

/-- `CLOSING_SEPARATOR`. -/
def closingSeparator : Regex :=
  .seq Regex.spaces (.seq (.rep 0 (some 1) (· == ':')) Regex.spaces1)

/-- `CLOSING_REFERENCE_PREFIX` behind its `\b`. -/
def closingReferencePrefix : Regex := .seq closingKeywords closingSeparator

/-- A prefix with `#(\d+)` behind it. -/
def referenceRe (front : Regex) : Regex :=
  .seq front (.seq (.chr (· == '#')) (.cap 1 (.rep 1 none Text.isDecimal)))

/-- `CLOSES_RE` behind its `\b`. -/
def closesRe : Regex := referenceRe closingReferencePrefix

/-- `\b` at the beginning of a match. -/
def atWord (prev : Option Char) (t : Text) : Bool := Regex.isBoundary A prev t.head?

/-- A match at the beginning of the text with `\b` behind it. -/
def matchesWord (r : Regex) (t : Text) : Bool :=
  (Regex.run r t [] fun rest _ =>
    if Regex.isBoundary A (t.take (t.length - rest.length)).getLast? rest.head? then some () else none).isSome

/-- `re.fullmatch(r"[0-9]+", issue_num)`. -/
def isNumeric (issueNum : Text) : Bool := issueNum ≠ [] && issueNum.all Char.isDigit

/-- `closing_pattern_for(issue_num).search(body)`. -/
def closesIssue (issueNum body : Text) : Bool :=
  let hashPrefix : Regex := if isNumeric issueNum then .chr (· == '#') else .rep 0 (some 1) (· == '#')
  let pattern : Regex := .seq closingReferencePrefix (.seq hashPrefix (Regex.escape true issueNum))
  Regex.anyPlace (fun prev t => atWord A prev t && matchesWord A pattern t) none body

/-! ## The links of a body -/

/-- `part of\s+`. -/
def partOfPrefix : Regex := .seq (Regex.lit "part of") Regex.spaces1

/-- `_PART_OF_RE`. -/
def partOfRe : Regex := referenceRe partOfPrefix

/-- `INLINE_CODE_RE`. -/
def inlineCodeRe : Regex :=
  .seq (.chr (· == '`')) (.seq (.rep 0 none fun c => c != '`' && c != '\n') (.chr (· == '`')))

/-- The body without fenced blocks and code spans. -/
def proseOf (body : Text) : Text :=
  Regex.subAll (fun _ t => (Regex.matchRest inlineCodeRe t).map fun m => ([' '], t.length - m.2.length)) none 0
    (Markdown.maskFencedBlocks body)

/-- The numbers that a pattern captures, without repetition. -/
def numbersOf (guard : Option Char → Text → Bool) (r : Regex) (t : Text) : List Text :=
  ((Regex.findAll (Regex.matcher guard r) none 0 t).filterMap fun g => g.get 1).eraseDups

structure IssueLinks where
  closes : List Text
  partOf : List Text

/-- `part_of_scope`. -/
def partOfScope (prose : Text) : Text :=
  let section' := Markdown.extractSection prose "Issue".toList false
  if section' = [] then prose else section'

def parseIssueLinks (body : Text) : IssueLinks :=
  let prose := proseOf body
  let closes := numbersOf (atWord A) closesRe prose
  { closes, partOf := (numbersOf (fun _ _ => true) partOfRe (partOfScope prose)).filter fun n => n ∉ closes }

/-! ## The issue of a branch -/

/-- `BRANCH_ISSUE_RE` behind the beginning of a component of the branch. -/
def branchIssueRe : Regex := .seq (Regex.exact "issue-") (.cap 1 (.rep 1 none Text.isDecimal))

/-- `(?=$|[-_/])`. -/
def endsComponent (rest : Text) : Bool :=
  rest == [] || rest == ['\n'] || rest.head?.any fun c => c == '-' || c == '_' || c == '/'

/-- The number that `BRANCH_ISSUE_RE.search(branch)` captures. -/
def branchIssue (branch : Text) : Option Text :=
  let number (rest : Text) (g : Regex.Groups) := if endsComponent rest then g.get 1 else none
  (Regex.run branchIssueRe branch [] number).or
    (Regex.searchWith (.seq (.chr (· == '/')) branchIssueRe) number branch)

end Utils.Gh

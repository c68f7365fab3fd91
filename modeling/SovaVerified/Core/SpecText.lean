import SovaVerified.Utils.Markdown

/-!
# What is read out of a spec

`_parse_spec` of `sova/core/spec_utils.py` and what it calls. The path of the file is left out.
-/

namespace Core.SpecText

open Utils

variable (A : Text.Alphabet)

/-! ## Fields -/

/-- `\*\*Status\*\*:\s*(\w+)`, with or without regard to case. -/
def statusRe (ignoreCase : Bool) : Regex :=
  .seq (Regex.escape ignoreCase "**Status**:".toList) (.seq Regex.spaces (.cap 1 (.rep 1 none A.isWord)))

/-- `\*\*Complexity\*\*:\s*(\w+)`, without regard to case. -/
def complexityRe : Regex :=
  .seq (Regex.escape true "**Complexity**:".toList) (.seq Regex.spaces (.cap 1 (.rep 1 none A.isWord)))

/-- `\*\*Created\*\*:\s*([\d-]+)`. -/
def createdRe : Regex :=
  .seq (Regex.exact "**Created**:")
    (.seq Regex.spaces (.cap 1 (.rep 1 none fun c => Text.isDecimal c || c == '-')))

/-- `# (.+)`. -/
def titleRe : Regex := .seq (Regex.exact "# ") (.cap 1 (.rep 1 none (· != '\n')))

/-- `re.search(...).group(1)`. -/
def field (r : Regex) (text : Text) : Option Text := (Regex.search r text).bind (·.get 1)

/-- The status that is read out of a spec. -/
def statusOf (text : Text) : Text := ((field (statusRe A true) text).map Text.lower).getD "draft".toList

/-! ## Open questions -/

structure Question where
  id : Nat
  text : Text
  answer : Text
  deriving DecidableEq

/-- The loop of `_find_answer_marker`, from the index `i` on, behind the character `prev`. -/
def findMarkerFrom (i : Nat) (prev : Option Char) : Text → Option Nat
  | [] => none
  | c :: t =>
    if "A:".toList.isPrefixOf (c :: t) ∧ 2 ≤ i ∧ prev.any Text.isSpace = true then some i
    else findMarkerFrom (i + 1) (some c) t

/-- `_find_answer_marker`. -/
def findAnswerMarker (text : Text) : Option Nat := findMarkerFrom 0 none text

/-- `[-*\d.]`. -/
def isListMark (c : Char) : Bool := c == '-' || c == '*' || Text.isDecimal c || c == '.'

/-- `re.sub(r"^[-*\d.]+\s*", "", line)`. -/
def withoutListMark (line : Text) : Text :=
  if line.head?.any isListMark then (line.dropWhile isListMark).dropWhile Text.isSpace else line

/-- The question and the answer of a line without its list marker. -/
def splitAnswer (cleaned : Text) : Text × Text :=
  if "Q:".toList.isPrefixOf cleaned then
    let rest := cleaned.drop 2
    match findAnswerMarker rest with
    | some sep => (Text.strip (rest.take sep), Text.strip (rest.drop (sep + 2)))
    | none => (Text.strip rest, [])
  else (cleaned, [])

/-- The question and the answer of a line, where there is one. -/
def readLine (line : Text) : Option (Text × Text) :=
  let line := Text.strip line
  if line = [] ∨ line.head? = some '(' then none
  else
    let cleaned := withoutListMark line
    if cleaned = [] then none else some (splitAnswer cleaned)

/-- The section says that there are no questions. -/
def saysNone (content : Text) : Bool :=
  let normalized := Text.lower (Text.strip content)
  normalized.isEmpty || "(omit".toList.isPrefixOf normalized || "none".toList.isPrefixOf normalized

/-- `_extract_open_questions`. -/
def extractOpenQuestions (text : Text) : List Question :=
  let content := Markdown.extractSection text "Open Questions".toList false
  if saysNone content then []
  else
    (((content.splitOn '\n').filterMap readLine).zipIdx).map fun found =>
      { id := found.2, text := found.1.1, answer := found.1.2 }

/-! ## The spec -/

structure SpecInfo where
  issueNumber : Text
  fileName : Text
  rawContent : Text
  status : Text
  complexity : Text
  created : Text
  title : Text
  openQuestions : List Question
  hasOpenQuestions : Bool

/-- `_parse_spec`. -/
def parseSpec (text fileName issueNumber : Text) : SpecInfo where
  issueNumber := issueNumber
  fileName := fileName
  rawContent := text
  status := statusOf A text
  complexity := ((field (complexityRe A) text).map Text.lower).getD "unknown".toList
  created := (field createdRe text).getD []
  title :=
    match (Regex.matchPrefix titleRe text).bind (·.get 1) with
    | some raw => Text.withoutFront "Spec: ".toList (Text.strip raw)
    | none => "Spec for #".toList ++ issueNumber
  openQuestions := extractOpenQuestions text
  hasOpenQuestions := !(extractOpenQuestions text).isEmpty

end Core.SpecText

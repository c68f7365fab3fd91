import SovaVerified.Regex.Regex
import SovaVerified.Text.Reading

/-!
# Markdown

`sova/utils/markdown.py`: the text with its fenced blocks blanked out, a section that is read, removed or
written, the text from the first heading on, and the text inside a code fence.

A line is what stands between line feeds. The heading of a section is one line.
-/

namespace Utils.Markdown

/-! ## Fenced blocks -/

/-- The fence that a block was opened with. -/
structure Fence where
  char : Char
  len : Nat
  deriving DecidableEq

/-- `_FENCE_OPEN_RE` behind the white space of a line. -/
def openFence (line : Text) : Option Fence :=
  match Text.lstrip line with
  | [] => none
  | c :: rest =>
    let len := ((c :: rest).takeWhile (· == c)).length
    if (c == '`' || c == '~') && 3 ≤ len then some { char := c, len } else none

/-- The line closes the block: nothing but as many characters of the fence, or more. -/
def closesFence (fence : Fence) (line : Text) : Bool :=
  let stripped := Text.strip line
  !stripped.isEmpty && stripped.all (· == fence.char) && fence.len ≤ stripped.length

def blanked (line : Text) : Text := List.replicate line.length ' '

/-- The loop of `mask_fenced_blocks`, with the fence of the block that is open. -/
def maskLines : Option Fence → List Text → List Text
  | _, [] => []
  | none, line :: lines =>
    match openFence line with
    | some fence => blanked line :: maskLines (some fence) lines
    | none => line :: maskLines none lines
  | some fence, line :: lines =>
    blanked line :: maskLines (if closesFence fence line then none else some fence) lines

def maskFencedBlocks (text : Text) : Text := Text.join ['\n'] (maskLines none (text.splitOn '\n'))

/-! ## Sections -/

/-- `[ \t]`. -/
def isBlank (c : Char) : Bool := c == ' ' || c == '\t'

/-- The pattern of a heading between `^` and `$`. -/
def headingRe (heading : Text) (ignoreCase : Bool) : Regex :=
  .seq (Regex.exact "##")
    (.seq (.rep 1 none isBlank)
      (.seq (Regex.escape ignoreCase heading) (.rep 0 none fun c => isBlank c || c == '\r')))

/-- The pattern of any heading of a section, behind `^`. -/
def nextHeadingRe : Regex := .seq (Regex.exact "##") (.chr isBlank)

def extractSection (text heading : Text) (ignoreCase : Bool) : Text :=
  let masked := maskFencedBlocks text
  match Regex.searchLines (headingRe heading ignoreCase) masked with
  | none => []
  | some (_, rest) =>
    let behind := text.drop (masked.length - rest.length)
    match Regex.searchLineStart nextHeadingRe rest with
    | some next => Text.strip (behind.take (rest.length - next.length))
    | none => Text.strip behind

/-- The pattern of `remove_section` between `^` and `$`. -/
def removedHeadingRe (heading : Text) : Regex :=
  .seq (Regex.exact "## ") (.seq (Regex.escape false heading) Regex.spaces)

/-- What `remove_section` keeps of the text, in front of the section and behind it. -/
def removedCut (text heading : Text) : Option (Text × Text) :=
  let masked := maskFencedBlocks text
  match Regex.searchLineSpan (removedHeadingRe heading) masked with
  | none => none
  | some (found, rest) =>
    let front := text.take (masked.length - found.length)
    match Regex.searchLineStart (Regex.exact "## ") rest with
    | some next => some (front, text.drop (masked.length - next.length))
    | none => some (front, [])

def removeSection (text heading : Text) : Text :=
  match removedCut text heading with
  | none => Text.strip text
  | some (front, behind) => Text.strip (front ++ behind)

/-- `new_section`. -/
def newSection (heading content : Text) : Text :=
  "## ".toList ++ heading ++ "\n\n".toList ++ Text.strip content ++ ['\n']

def upsertSection (text heading content : Text) : Text :=
  let masked := maskFencedBlocks text
  match Regex.searchLineSpan (headingRe heading false) masked with
  | none =>
    let sep := if Text.strip text = [] then [] else "\n\n".toList
    Text.strip (Text.rstrip text ++ sep ++ newSection heading content) ++ ['\n']
  | some (found, rest) =>
    let front := text.take (masked.length - found.length)
    match Regex.searchLineStart nextHeadingRe rest with
    | some next =>
      let behind := (text.drop (masked.length - next.length)).dropWhile (· == '\n')
      Text.strip (front ++ newSection heading content ++ ['\n'] ++ behind) ++ ['\n']
    | none => Text.strip (front ++ newSection heading content) ++ ['\n']

/-! ## The text from the first heading on -/

/-- `_is_atx_heading`. -/
def isAtxHeading (line : Text) : Bool :=
  line.head? == some '#' &&
    match line.dropWhile (· == '#') with
    | [] => true
    | c :: _ => c == ' '

/-- A line that turns the fence of `strip_preamble` on or off. -/
def togglesFence (line : Text) : Bool := "```".toList.isPrefixOf (Text.strip line)

/-- The loop of `strip_preamble`: the index of the first heading. -/
def firstHeadingIdx : Bool → List Text → Option Nat
  | _, [] => none
  | inFence, line :: lines =>
    if togglesFence line then (firstHeadingIdx (!inFence) lines).map (· + 1)
    else if !inFence && isAtxHeading line then some 0
    else (firstHeadingIdx inFence lines).map (· + 1)

/-- The lines from an index on, or the whole text where there is nothing to cut. -/
def cutAt (text : Text) : Option Nat → Text
  | none => text
  | some 0 => text
  | some (i + 1) => Text.join ['\n'] ((text.splitOn '\n').drop (i + 1))

def stripPreamble (text : Text) : Text := cutAt text (firstHeadingIdx false (text.splitOn '\n'))

/-! ## The text inside a code fence -/

def isTick (c : Char) : Bool := c == '`'

/-- The runs of backticks, each as long as it can be. -/
def tickRuns (line : Text) : List Text := (line.splitOnP fun c => !isTick c).filter fun run => !run.isEmpty

/-- `_strip_glued_closing_fence`. -/
def stripGluedClosingFence (line : Text) (width : Nat) : Text :=
  let runs := (tickRuns line).filter fun run => width ≤ run.length
  if runs.length % 2 = 0 || !(List.replicate width '`').isSuffixOf line then line
  else
    let body := line.rdropWhile isTick
    let trailing := line.length - body.length
    let bodyRuns := tickRuns body
    match bodyRuns.getLast? with
    | none => body
    | some last =>
      if bodyRuns.length % 2 = 1 && width + last.length ≤ trailing then body ++ last else body

/-- `_ONE_LINE_INFO_STRING_RE` without the bracket that it looks ahead for. -/
def oneLineInfoStringRe (A : Text.Alphabet) : Regex :=
  .alt (.seq (.chr Char.isAlpha) (.rep 0 none fun c => A.isWord c || c == '+' || c == '-'))
    (.seq (.alt (.seq (Regex.lit "json") (Regex.opt (Regex.lit "c"))) (Regex.lit "json5"))
      (.rep 1 none isBlank))

/-- The content of a one-line fence without the language tag. -/
def withoutInfoString (A : Text.Alphabet) (body : Text) : Text :=
  let behind := Regex.run (oneLineInfoStringRe A) body [] fun rest _ =>
    if rest.head? = some '[' ∨ rest.head? = some '{' then some rest else none
  behind.getD body

/-- A line of at least three backticks and nothing else but blanks. -/
def closingLineRe : Regex :=
  .seq (.rep 0 none isBlank) (.seq (.rep 3 none isTick) (.rep 0 none isBlank))

/-- The lines without the fence that closes them. -/
def withoutClosingFence (width : Nat) (lines : List Text) : List Text :=
  match lines.getLast? with
  | none => lines
  | some last =>
    if Regex.fullMatch closingLineRe last then lines.dropLast
    else lines.dropLast ++ [stripGluedClosingFence last width]

def stripCodeFences (A : Text.Alphabet) (text : Text) : Text :=
  let stripped := Text.strip text
  let width := (stripped.takeWhile isTick).length
  if width < 3 then stripped
  else if '\n' ∉ stripped then
    withoutInfoString A (Text.strip (stripGluedClosingFence (stripped.drop width) width))
  else
    Text.strip (Text.join ['\n'] (withoutClosingFence width (stripped.splitOn '\n').tail))

end Utils.Markdown

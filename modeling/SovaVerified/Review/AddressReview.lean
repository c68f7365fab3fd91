import SovaVerified.Assoc.Assoc
import SovaVerified.Review.Format
import SovaVerified.Text.Reading

/-!
# Reading a review back

`sova/core/steps/address_review.py`: the findings that the address step reads out of the body of a posted
review. The body is cut into sections at its headings, and a section is read line by line. `none` is a
`ValueError` of `int`, which takes decimal digits only.
-/

namespace Review

open Text

/-- A finding as it is read from a review body. -/
structure ParsedFinding where
  file : Text
  line : Option Int
  severity : Int
  category : Text
  description : Text
  suggestion : Text
  source : Text := "github-review".toList
  deriving DecidableEq

/-- `int(digits)` of a text of digits. -/
def intOfDigits (digits : Text) : Option Int :=
  if digits.all isDecimal then some (toNat digits) else none

/-! ## A finding's line -/

/-- `_FINDING_LINE_RE`: the severity, the category, the location and the rest. -/
def findingLineRe (A : Alphabet) : Regex :=
  .cat [.exact "-", .spaces1, .exact "**[", .rep 1 none A.isWord, .spaces1, .cap 1 (.rep 1 none isDecimal),
    .exact "/10]**", .spaces, .exact "[", .cap 2 (.rep 0 none (· != ']')), .exact "]", .spaces,
    .exact "`", .cap 3 (.rep 0 none (· != '`')), .exact "`:", .spaces, .cap 4 (.rep 0 none (· != '\n'))]

/-- `_LINE_RANGE_RE`. -/
def lineRangeRe : Regex :=
  .cat [.rep 1 none isDecimal, .spaces, .exact "-", .spaces, .rep 1 none isDecimal]

/-- The parts around the first `Fix:` that white space stands before; `last` is the character before the
text. -/
def cutFixMarker (last : Option Char) : Text → Option (Text × Text)
  | [] => none
  | c :: t =>
    if "Fix:".toList.isPrefixOf (c :: t) && last.any isSpace then some ([], t.drop 3)
    else (cutFixMarker (some c) t).map fun parts => (c :: parts.1, parts.2)

/-- `_split_on_fix_marker`. -/
def splitOnFixMarker (rest : Text) : Text × Text :=
  match cutFixMarker none rest with
  | some (description, suggestion) => (rstrip description, lstrip suggestion)
  | none => (rest, [])

/-- `_split_location`. -/
def splitLocation (location : Text) : Option (Text × Option Int) :=
  match rpartition ':' location with
  | none => some (location, none)
  | some (filePath, maybeLine) =>
    if isDigits maybeLine then (intOfDigits maybeLine).map fun n => (filePath, some n)
    else if (lineRangeRe.matchLine maybeLine).isSome then some (filePath, none)
    else some (location, none)

/-- The finding of a line that matches. -/
def findingOfGroups (m : Regex.Groups) : Option ParsedFinding := do
  let (file, line) ← splitLocation ((m.get 3).getD [])
  let (description, suggestion) := splitOnFixMarker ((m.get 4).getD [])
  let severity ← intOfDigits ((m.get 1).getD [])
  return {
    file := file
    line := line
    severity := severity
    category := lower (strip ((m.get 2).getD []))
    description := strip description
    suggestion := strip suggestion }

/-- One turn of the loop of `_parse_finding_lines`: a line that does not match has no finding. -/
def readFindingLine (A : Alphabet) (line : Text) : List (Option ParsedFinding) :=
  match (findingLineRe A).matchLine (strip line) with
  | none => []
  | some m => [findingOfGroups m]

/-- The findings of the lines of a section, in order. -/
def readFindingLines (A : Alphabet) (sectionText : Text) : List (Option ParsedFinding) :=
  (lines sectionText).flatMap (readFindingLine A)

/-- `_parse_finding_lines`. -/
def parseFindingLines (A : Alphabet) (sectionText : Text) : Option (List ParsedFinding) :=
  (readFindingLines A sectionText).mapM id

/-! ## Sections -/

/-- `_SECTION_HEADING_RE`, at the start of a line. Behind `.*` a line ends always. -/
def sectionHeadingRe : Regex :=
  .cat [.exact "###", .spaces1, .cap 1 (.rep 0 none (· != '\n'))]

/-- The matches of the headings from the left, each with the text up to the next one, behind the text
before the first one. `skip` characters still belong to the last match. -/
def cutSections : Nat → Bool → Text → Text × List (Text × Text)
  | _, _, [] => ([], [])
  | skip + 1, _, c :: t => cutSections skip (c == '\n') t
  | 0, lineStart, c :: t =>
    match if lineStart then sectionHeadingRe.matchRest (c :: t) else none with
    | some (m, rest) =>
      let (sectionText, more) := cutSections (t.length - rest.length) (c == '\n') t
      ([], ((m.get 1).getD [], sectionText) :: more)
    | none =>
      let (text, more) := cutSections 0 (c == '\n') t
      (c :: text, more)

/-- `sections.setdefault(heading, []).append(text)`. -/
def addSection (sections : Assoc Text (List Text)) (s : Text × Text) : Assoc Text (List Text) :=
  sections.push (rstrip s.1) s.2

/-- `_extract_markdown_sections`. -/
def extractMarkdownSections (body : Text) : Assoc Text (List Text) :=
  (cutSections 0 true body).2.foldl addSection []

/-- `h == "Findings" or h.startswith("Advisory")`. -/
def isStructured (heading : Text) : Bool :=
  heading == "Findings".toList || "Advisory".toList.isPrefixOf heading

/-! ## The layout before markdown -/

/-- `_LEGACY_SEVERITY_MAP.get(severity_key.upper(), 5)`. -/
def legacySeverity (severityKey : Text) : Int :=
  if upper severityKey = "CRITICAL".toList then 10
  else if upper severityKey = "HIGH".toList then 9
  else if upper severityKey = "MEDIUM".toList then 6
  else if upper severityKey = "LOW".toList then 3
  else 5

/-- `_LEGACY_HEADER_PREFIX_RE`. -/
def legacyHeaderPrefixRe (A : Alphabet) : Regex :=
  .cat [.rep 0 (some 2) (· == '*'), .exact "[", .cap 1 (.rep 1 none A.isWord), .exact "]", .spaces]

/-- What `_LEGACY_BLOCK_SPLIT_RE` asks for behind the line feed. -/
def legacyBlockRe : Regex :=
  .cat [.rep 0 (some 2) (· == '*'), .exact "[",
    .alt (.exact "CRITICAL") (.alt (.exact "HIGH") (.alt (.exact "MEDIUM") (.exact "LOW"))), .exact "]"]

/-- `_LEGACY_BLOCK_SPLIT_RE.split`. -/
def legacyBlocks : Text → List Text
  | [] => [[]]
  | c :: t =>
    if c = '\n' && (legacyBlockRe.matchPrefix t).isSome then [] :: legacyBlocks t
    else
      match legacyBlocks t with
      | [] => [[c]]
      | block :: blocks => (c :: block) :: blocks

/-- `_match_legacy_header`. -/
def matchLegacyHeader (A : Alphabet) (line : Text) : Option (Text × Text × Text) := do
  let (m, rest) ← (legacyHeaderPrefixRe A).matchRest line
  if isIn "--".toList rest then
    let category := strip (before "--".toList rest)
    if category = [] ∨ ¬ category.all (fun c => A.isAlnum c || c == ' ' || c == '_') then none
    else
      let behind := strip (rest.drop ((before "--".toList rest).length + 2))
      return ((m.get 1).getD [], category, strip (behind.reverse.dropWhile (· == '*')).reverse)
  else none

/-- `_LEGACY_LOCATION_RE.search(block)`. The run without white space can only be taken as a whole. -/
def legacyLocation (block : Text) : Option Text :=
  (Regex.searchWith (.cat [.exact "Location:", .spaces, .cap 1 (.rep 1 none fun c => !isSpace c)])
    (fun rest m => if rest = [] ∨ rest.head? = some '\n' then some m else none) block).bind (·.get 1)

/-- What follows the first place of a field's name, without white space before it. -/
def legacyField (name : String) (block : Text) : Option Text :=
  Regex.searchWith (.cat [.exact name, .spaces]) (fun rest _ => some rest) block

/-- `_LEGACY_PROBLEM_RE.search(block)`. -/
def legacyProblem (block : Text) : Option Text :=
  (legacyField "Problem:" block).map (before "\nSuggestion:".toList)

/-- `_LEGACY_SUGGESTION_RE.search(block)`. -/
def legacySuggestion (block : Text) : Option Text :=
  (legacyField "Suggestion:" block).map fun t => before "\n[".toList (before "```".toList t)

/-- One turn of the loop of `_parse_legacy_review_body`. -/
def readLegacyBlock (A : Alphabet) (block : Text) : List (Option ParsedFinding) :=
  match matchLegacyHeader A (before ['\n'] (strip block)) with
  | none => []
  | some (severityKey, category, descriptionFallback) =>
    let location :=
      match legacyLocation block with
      | some location => splitLocation location
      | none => some ([], none)
    [location.map fun (file, line) => {
      file := file
      line := line
      severity := legacySeverity severityKey
      category := lower category
      description := ((legacyProblem block).map strip).getD descriptionFallback
      suggestion := ((legacySuggestion block).map strip).getD [] }]

/-- `_parse_legacy_review_body`. -/
def parseLegacyReviewBody (A : Alphabet) (body : Text) : Option (List ParsedFinding) :=
  ((legacyBlocks body).flatMap (readLegacyBlock A)).mapM id

/-! ## The body -/

/-- The finding that a free text becomes. -/
def wholeBody (body : Text) : ParsedFinding where
  file := []
  line := none
  severity := 7
  category := "review".toList
  description := body
  suggestion := []

/-- `_parse_review_body`. -/
def parseReviewBody (A : Alphabet) (body : Text) : Option (List ParsedFinding) := do
  let structured := (extractMarkdownSections body).filter fun e => isStructured e.1
  let findings ← (structured.flatMap fun e => e.2.flatMap (readFindingLines A)).mapM id
  if findings ≠ [] then return findings
  else if structured ≠ [] ∧ (sovaVerdictMarkerRe.search body).isSome then return []
  else
    let legacy ← parseLegacyReviewBody A body
    if legacy ≠ [] then return legacy
    else if 50 < body.length then return [wholeBody body]
    else return []

/-! ## When the findings of a body come back -/

/-- The heading of a line. It is empty where the line goes on below: then the next line is the heading. -/
def headingOf (l : Text) : Option Text :=
  if "###".toList.isPrefixOf l && isSpace ((l.drop 3).headD '\n') then some ((l.drop 3).dropWhile isSpace)
  else none

/-- A line that opens no section of findings. -/
def QuietLine (l : Text) : Prop := ∀ h ∈ headingOf l, h ≠ [] ∧ isStructured (rstrip h) = false

instance (l : Text) : Decidable (QuietLine l) :=
  inferInstanceAs (Decidable (∀ h ∈ headingOf l, h ≠ [] ∧ isStructured (rstrip h) = false))

/-- No text that stands around the findings opens a section of findings. -/
structure ReviewBody.Quiet (b : ReviewBody) : Prop where
  sha : ∀ s ∈ b.sha, isSha s = true
  summary : ∀ l ∈ (effectiveSummary b.summary).splitOn '\n', QuietLine l
  positives : ∀ p ∈ b.positives, ∀ l ∈ ("- ".toList ++ p).splitOn '\n', QuietLine l

/-- No text of the finding ends the field it stands in, or its line. -/
structure Finding.Separate (f : Finding) : Prop where
  cat : ∀ c ∈ f.cat, c ≠ ']' ∧ isLineBreak c = false
  filePath : ∀ c ∈ f.filePath, c ≠ '`' ∧ isLineBreak c = false

instance (f : Finding) : Decidable f.Separate :=
  decidable_of_iff ((f.cat.all fun c => c != ']' && !isLineBreak c) = true ∧
      (f.filePath.all fun c => c != '`' && !isLineBreak c) = true) (by
    simp only [List.all_eq_true, Bool.and_eq_true, bne_iff_ne, Bool.not_eq_true']
    exact ⟨fun h => ⟨h.1, h.2⟩, fun h => ⟨h.cat, h.filePath⟩⟩)

/-- The file ends in what the parser takes for a line number or a range of lines. -/
def endsInLine (file : Text) : Bool :=
  match rpartition ':' file with
  | none => false
  | some (_, maybeLine) => isDigits maybeLine || (lineRangeRe.matchLine maybeLine).isSome

/-- The location names a file, and reads as the file and the line it was written from. -/
def Finding.Located (f : Finding) : Prop :=
  f.file = some f.filePath ∧
    match f.line with
    | some n => 0 ≤ n
    | none => endsInLine f.filePath = false

instance (f : Finding) : Decidable f.Located :=
  decidable_of_iff (f.file = some f.filePath ∧
      f.line.elim (!endsInLine f.filePath) (fun n => decide (0 ≤ n)) = true) (by
    unfold Finding.Located
    cases f.line with
    | none => simp
    | some n => simp)

/-- The file, the line and the clamped severity of a finding. -/
abbrev Key := Option Text × Option Int × Int

def Finding.key (f : Finding) : Key := (f.file, f.line, clampSeverity f.severityOr5)

def ParsedFinding.key (p : ParsedFinding) : Key := (some p.file, p.line, p.severity)

/-- The body is read back as the same multiset of findings. -/
def RoundTrips (A : Alphabet) (b : ReviewBody) : Prop :=
  ∃ parsed, parseReviewBody A (formatReviewBody b) = some parsed ∧
    (parsed.map ParsedFinding.key).Perm (b.findings.map Finding.key)

end Review

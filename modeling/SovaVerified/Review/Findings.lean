import Mathlib.Algebra.Order.Ring.Rat
import SovaVerified.Assoc.Assoc
import SovaVerified.Json.Json
import SovaVerified.Review.Format

/-!
# Findings of a review

`sova/roles/_review_comments.py`: the findings and the result of a review, how an answer of the model
is turned into findings, how a diff is cut into chunks, and the body that is posted.

An answer is a text. Reading JSON out of it is left to `Reader`: its functions return the object that
was found, with the keys the reviewer looks at.
-/

namespace Review

structure ReviewFinding where
  file : Text
  severity : Int
  category : Text
  description : Text
  suggestion : Text := []
  line : Option Int := none
  deriving DecidableEq

/-- What one call of the model returns. -/
structure LlmResult where
  text : Text
  costUsd : ℚ := 0

/-- `ReviewResult`, without the flag of a failed post. -/
structure ReviewResult where
  findings : List ReviewFinding := []
  summary : Text := []
  totalCost : ℚ := 0
  llmResults : List LlmResult := []

/-- The value of the key `findings`: the objects of an array, or something that is no array. -/
inductive RawFindings where
  | items (dicts : List Finding)
  | notAList

/-- A JSON object that was found in an answer. A key that is absent is `none`; a `summaries` that is
no object counts as an empty one. -/
structure Payload where
  findings : Option RawFindings := none
  summaries : Option (List (Text × Text)) := none
  summary : Option Text := none

/-- `_RESPONSE_KEYS & data.keys()`: an object without any of these keys is not a review. -/
def Payload.isReview (data : Payload) : Bool :=
  data.findings.isSome || data.summaries.isSome || data.summary.isSome

/-- How JSON is found in an answer. -/
structure Reader where
  /-- `_load_findings_json`. -/
  loadFindingsJson : Text → Option Payload
  /-- `_try_parse_and_validate` with the review schema. -/
  tryParseAndValidate : Text → Option Payload

/-- `_safe_severity`: a severity that is missing or not a number is 5. -/
def safeSeverity (value : Option Int) : Int := value.getD 5

def ReviewFinding.ofDict (item : Finding) : ReviewFinding where
  file := item.file.getD "unknown".toList
  severity := safeSeverity item.severity
  category := item.category.getD "other".toList
  description := item.description.getD []
  suggestion := item.suggestion.getD []
  line := item.line

/-- `_findings_from_data`. -/
def findingsFromData (data : Payload) : List ReviewFinding :=
  match data.findings with
  | some (.items dicts) => dicts.map ReviewFinding.ofDict
  | _ => []

/-- `_parse_findings`. -/
def parseFindings (reader : Reader) (text : Text) : List ReviewFinding × Text :=
  match reader.loadFindingsJson text with
  | none => ([], "Failed to parse review response".toList)
  | some data => (findingsFromData data, data.summary.getD [])

/-! ## Chunks of a diff -/

/-- `DIFF_CHUNK_SIZE`. -/
def diffChunkSize : Nat := 100000

/-- The local variables of `_chunk_diff`. -/
structure Chunking where
  chunks : List Text := []
  current : List Text := []
  currentSize : Nat := 0

/-- One turn of the loop of `_chunk_diff`. -/
def Chunking.addLine (chunkSize : Nat) (c : Chunking) (line : Text) : Chunking :=
  if "diff --git ".toList.isPrefixOf line && chunkSize ≤ c.currentSize then
    { chunks := c.chunks ++ [c.current.flatten], current := [line], currentSize := line.length }
  else
    { c with
      current := c.current ++ [line]
      currentSize := c.currentSize + line.length }

/-- `_chunk_diff`. -/
def chunkDiff (diff : Text) (chunkSize : Nat := diffChunkSize) : List Text :=
  if diff.length ≤ chunkSize then [diff]
  else
    let c := (Text.splitLines diff).foldl (Chunking.addLine chunkSize) {}
    let chunks := if c.current = [] then c.chunks else c.chunks ++ [c.current.flatten]
    if chunks = [] then [diff] else chunks

/-! ## Protected paths and the body -/

/-- `_check_protected_paths`. -/
def checkProtectedPaths (files protectedPaths : List Text) : List Text :=
  files.filter fun f => protectedPaths.any fun p => p.isPrefixOf f

/-- `sorted(...)` of texts: by their code points. -/
def sortTexts (ts : List Text) : List Text :=
  ts.insertionSort fun a b => b.lex a (fun x y => x.toNat < y.toNat) = false

/-- `_make_protected_path_finding`, for at least one file. -/
def makeProtectedPathFinding (file : Text) (files : List Text) : ReviewFinding where
  file := file
  severity := 1
  category := "protected-path".toList
  description := "PR touches protected path(s): ".toList ++
    Text.join ", ".toList (sortTexts (file :: files)) ++ ". Human approval required.".toList

/-- The finding that `_execute` appends when the pull request touches a protected path. -/
def protectedPathFindings (files protectedPaths : List Text) : List ReviewFinding :=
  match checkProtectedPaths files protectedPaths with
  | [] => []
  | file :: rest => [makeProtectedPathFinding file rest]

/-- The dict that `_format_findings_body` makes of a finding. -/
def ReviewFinding.toDict (f : ReviewFinding) : Finding where
  file := some f.file
  line := f.line
  severity := some f.severity
  category := some f.category
  description := some f.description
  suggestion := some f.suggestion

/-- `_format_findings_body`; `_format_review_body` and `_format_findings_comment` are the same. -/
def formatFindingsBody (findings : List ReviewFinding) (summary : Text) (sha : Option Text)
    (th : Thresholds) (inlineCommentKeys : List (Text × Int)) : Text :=
  formatReviewBody
    { findings := findings.map ReviewFinding.toDict
      summary := summary
      sha := sha
      thresholds := th
      inlineCommentKeys := inlineCommentKeys }

end Review

/-!
# Findings before their fields are checked

`sova/roles/_review_comments.py` and `sova/roles/panel_review.py`, with the values that JSON really
holds: only the severity of a finding is converted, every other field is whatever the answer says. Here
the calls are followed that may raise on such a value, from an answer of the model to the deduplicated
findings of a panel.

Decoding is left to `Decoder`, which may itself raise: `json.loads` does on deep nesting and on an integer
of too many digits.
-/

namespace Review.Untyped

open Exceptions

/-- The members of a JSON object. -/
abbrev Dict := Assoc Text Json

/-- `json.JSONDecodeError`. -/
def jsonDecodeError : PyException := .other "JSONDecodeError".toList

/-- How JSON is read out of a text. -/
structure Decoder where
  /-- `strip_code_fences`. -/
  stripCodeFences : Text → Text
  /-- `json.loads`. -/
  loads : Text → Except PyException Json
  /-- `decoder.raw_decode` at the brace that a text starts with: the object, and how many characters of
  it follow the brace. -/
  rawDecode : Text → Except PyException (Dict × Nat)

/-- The loop of `_extract_json`, which passes over the given number of characters first. -/
def extractJson (decoder : Decoder) (firstValid : Option Dict) : Nat → Text →
    Except PyException (Option Dict)
  | _, [] => .ok firstValid
  | skip + 1, _ :: text => extractJson decoder firstValid skip text
  | 0, c :: text =>
    if c ≠ '{' then extractJson decoder firstValid 0 text
    else
      match decoder.rawDecode (c :: text) with
      | .error e =>
        if e = jsonDecodeError then extractJson decoder firstValid 0 text else .error e
      | .ok (obj, length) =>
        if (obj.get "findings".toList).isSome then .ok (some obj)
        else extractJson decoder (firstValid.or (some obj)) length text

/-- `_load_findings_json`. -/
def loadFindingsJson (decoder : Decoder) (text : Text) : Except PyException (Option Dict) :=
  let stripped := decoder.stripCodeFences text
  match decoder.loads stripped with
  | .ok (.obj data) => .ok (some data)
  | .ok _ => extractJson decoder none 0 stripped
  | .error e =>
    if e = jsonDecodeError then extractJson decoder none 0 stripped else .error e

/-- `_safe_severity`. -/
def safeSeverity (value : Json) (default : Int := 5) : Except PyException Int :=
  match value with
  | .null => .ok default
  | value => handling (fun e => e == .typeError || e == .valueError) default value.toInt

/-- What `_is_duplicate` looks at. -/
structure Place where
  file : Json
  category : Json
  line : Json

/-- `ReviewFinding`: a `line` that is `None` is null. -/
structure ReviewFinding extends Place where
  severity : Int
  description : Json
  suggestion : Json

/-- `item.get(key, default)`. -/
def getItem (item : Dict) (key : Text) (default : Json) : Json := (item.get key).getD default

def placeOf (item : Dict) : Place where
  file := getItem item "file".toList (.str "unknown".toList)
  category := getItem item "category".toList (.str "other".toList)
  line := getItem item "line".toList .null

/-- The finding that `_findings_from_data` makes of an object. -/
def findingOf (item : Dict) : Except PyException ReviewFinding :=
  (safeSeverity (getItem item "severity".toList (.int 5))).map fun severity =>
    { placeOf item with
      severity := severity
      description := getItem item "description".toList (.str [])
      suggestion := getItem item "suggestion".toList (.str []) }

/-- The objects of the `findings` array. -/
def itemsOf (data : Dict) : List Dict :=
  match data.get "findings".toList with
  | some (.arr raw) => raw.filterMap fun
    | .obj item => some item
    | _ => none
  | _ => []

/-- `_findings_from_data`. -/
def findingsFromData (data : Dict) : Except PyException (List ReviewFinding) :=
  (itemsOf data).mapM findingOf

/-- The findings of `_parse_findings`, and of `_parse_multi_dimension_findings`. -/
def parseFindings (decoder : Decoder) (text : Text) : Except PyException (List ReviewFinding) := do
  match ← loadFindingsJson decoder text with
  | none => .ok []
  | some data => findingsFromData data

/-- `_is_duplicate`. -/
def isDuplicate (candidate : ReviewFinding) (lineProximity : Nat) :
    List ReviewFinding → Except PyException Bool
  | [] => .ok false
  | existing :: kept =>
    if !existing.file.eq candidate.file then isDuplicate candidate lineProximity kept
    else if !existing.category.eq candidate.category then isDuplicate candidate lineProximity kept
    else
      match existing.line, candidate.line with
      | .null, _ => isDuplicate candidate lineProximity kept
      | _, .null => isDuplicate candidate lineProximity kept
      | a, b => do
        let difference ← a.sub b
        if difference.absLe lineProximity then .ok true
        else isDuplicate candidate lineProximity kept

/-- The loop of `deduplicate_findings`. -/
def keepNew (lineProximity : Nat) (kept : List ReviewFinding) :
    List ReviewFinding → Except PyException (List ReviewFinding)
  | [] => .ok kept
  | candidate :: rest => do
    if ← isDuplicate candidate lineProximity kept then keepNew lineProximity kept rest
    else keepNew lineProximity (kept ++ [candidate]) rest

/-- `deduplicate_findings`. -/
def deduplicateFindings (findings : List ReviewFinding) (lineProximity : Nat) :
    Except PyException (List ReviewFinding) :=
  keepNew lineProximity [] (findings.insertionSort fun a b => b.severity ≤ a.severity)

/-- The findings of a panel, whose dimensions got the given answers: `state.findings.extend` for each
one, and `deduplicate_findings` at the end. -/
def panelFindings (decoder : Decoder) (texts : List Text) (lineProximity : Nat) :
    Except PyException (List ReviewFinding) := do
  let found ← texts.mapM (parseFindings decoder)
  deduplicateFindings found.flatten lineProximity

/-! ## When nothing raises -/

/-- The texts at which `_extract_json` decodes. -/
def decodedAt (decoder : Decoder) : Nat → Text → List Text
  | _, [] => []
  | skip + 1, _ :: text => decodedAt decoder skip text
  | 0, c :: text =>
    if c ≠ '{' then decodedAt decoder 0 text
    else
      (c :: text) ::
        match decoder.rawDecode (c :: text) with
        | .error _ => decodedAt decoder 0 text
        | .ok (obj, length) =>
          if (obj.get "findings".toList).isSome then [] else decodedAt decoder length text

/-- Decoding an answer raises nothing but a `JSONDecodeError`. -/
def Decodes (decoder : Decoder) (text : Text) : Prop :=
  let stripped := decoder.stripCodeFences text
  (∀ e, decoder.loads stripped = .error e → e = jsonDecodeError) ∧
    ((∀ data, decoder.loads stripped ≠ .ok (.obj data)) →
      ∀ s ∈ decodedAt decoder 0 stripped, ∀ e, decoder.rawDecode s = .error e → e = jsonDecodeError)

/-- The finding objects that the answers report. -/
def reported (decoder : Decoder) (texts : List Text) : List Dict :=
  texts.flatMap fun text =>
    match loadFindingsJson decoder text with
    | .ok (some data) => itemsOf data
    | _ => []

/-- Two findings are about the same file and category, and both have a line. -/
def Place.Meets (p q : Place) : Prop :=
  p.file.eq q.file = true ∧ p.category.eq q.category = true ∧ p.line ≠ .null ∧ q.line ≠ .null

/-- If two findings meet, their lines can be subtracted. -/
def Place.Compatible (p q : Place) : Prop := p.Meets q → p.line.Subtractable q.line

/-- The answers that a panel can merge: each one can be decoded, no severity is infinite, and findings
that meet have lines that can be subtracted. -/
structure Mergeable (decoder : Decoder) (texts : List Text) : Prop where
  decodes : ∀ text ∈ texts, Decodes decoder text
  severity : ∀ item ∈ reported decoder texts,
    (getItem item "severity".toList (.int 5)).isInfinite = false
  lines : ((reported decoder texts).map placeOf).Pairwise Place.Compatible

/-- The line is no integer that is too large for a float. -/
def Moderate (item : Dict) : Prop :=
  ∀ n, (placeOf item).line.asNumber = some n → n.isHuge = false

end Review.Untyped

import SovaVerified.Json.Decoding
import SovaVerified.Text.Reading
import SovaVerified.Utils.Markdown

/-!
# JSON in a response

`extract_json` of `sova/utils/json.py`: the JSON of a response of a language model, which may stand in a code
fence, between prose, or both.
-/

namespace Utils

open Markdown

/-- The backticks of a fence. -/
def fence : Text := "```".toList

def isOpening (c : Char) : Bool := c == '[' || c == '{'

/-- `_from_first_bracket`. -/
def fromFirstBracket (inner : Text) : Text :=
  match inner.dropWhile fun c => !isOpening c with
  | [] => Text.strip inner
  | json => Text.strip json

/-- A response that is wrapped in one fence. -/
def wrapped (A : Text.Alphabet) (cleaned : Text) : Option Text :=
  if fence.isPrefixOf cleaned then
    let unwrapped := stripCodeFences A cleaned
    if unwrapped ≠ [] ∧ Text.isIn fence unwrapped = false then
      some (if '\n' ∈ cleaned then unwrapped else fromFirstBracket unwrapped)
    else none
  else none

/-- The first fenced block. -/
def fenced (cleaned : Text) : Option Text := do
  let start ← Text.find fence cleaned
  let opened := cleaned.drop start
  match Text.find ['\n'] opened with
  | none =>
    let inner := opened.drop 3
    match Text.find fence inner with
    | some closing => some (fromFirstBracket (inner.take closing))
    | none => some (fromFirstBracket inner)
  | some lineEnd =>
    let block := opened.drop lineEnd
    let closing ← Text.find fence block
    some (Text.strip ((block.take closing).drop 1))

/-- The first value that can be read from a bracket on; else the text from the last bracket on. -/
def firstValue (lastCandidate : Text) : Text → Except PyException Text
  | [] => .ok lastCandidate
  | c :: t =>
    if isOpening c then
      match Json.rawDecode (c :: t) with
      | .ok (obj, _) => .ok (Json.dumps obj)
      | .error e => if e = Json.decodeError then firstValue (c :: t) t else .error e
    else firstValue lastCandidate t

def extractJson (A : Text.Alphabet) (text : Text) : Except PyException Text :=
  let cleaned := Text.strip text
  if cleaned = [] then .ok []
  else
    match wrapped A cleaned with
    | some unwrapped => .ok unwrapped
    | none =>
      match fenced cleaned with
      | some block => .ok block
      | none => firstValue [] cleaned

end Utils

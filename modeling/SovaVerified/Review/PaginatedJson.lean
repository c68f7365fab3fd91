import SovaVerified.Json.Decoding
import SovaVerified.Text.Reading

/-!
# Paginated answers

`sova/core/steps/address_review.py`: `_parse_paginated_gh_json`, which reads the pages of an answer, one JSON
value behind the other, into one list.
-/

namespace Review

/-- The loop of `_parse_paginated_gh_json`: the values up to the first one that cannot be read. A value has at
least one character, which bounds the rounds. -/
def readPages : Nat → Text → Except PyException (List Json)
  | 0, _ => .ok []
  | _ + 1, [] => .ok []
  | rounds + 1, c :: t =>
    match Json.rawDecode (c :: t) with
    | .ok (page, rest) => (readPages rounds (rest.dropWhile Text.isSpace)).map fun pages => page :: pages
    | .error e => if e = Json.decodeError then .ok [] else .error e

/-- The items of a page; a page that is no list is an item itself. -/
def pageItems : Json → List Json
  | .arr items => items
  | page => [page]

def parsePaginatedGhJson (stdout : Text) : Except PyException (List Json) :=
  let text := Text.strip stdout
  (readPages text.length text).map fun pages => pages.flatMap pageItems

end Review

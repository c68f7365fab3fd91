import SovaVerified.Assoc.Assoc
import SovaVerified.Utils.Formatting

/-!
# The files of the specs

`find_spec_file` of `sova/core/spec_utils.py`, and `_write_spec_file` of `sova/core/steps/spec.py`. The directory
is there and can be read and written; the order of a listing is up to the file system.
-/

namespace Core.SpecFiles

open Utils.Formatting

/-- The names and the texts of the files in `.claude/specs`. -/
abbrev SpecsDir := Assoc Text Text

/-! ## Looking for a spec -/

/-- What is behind the last dot of a name. -/
def behindLastDot (name : Text) : Text := (name.reverse.takeWhile (· != '.')).reverse

/-- `f.suffix`. -/
def suffix (name : Text) : Text :=
  let extension := behindLastDot name
  -- The dot is neither the first character nor the last one.
  if extension ≠ [] ∧ extension.length + 1 < name.length then '.' :: extension else []

/-- `f.stem`. -/
def stem (name : Text) : Text := name.take (name.length - (suffix name).length)

/-- `[A-Z]`. -/
def isKeyLetter (c : Char) : Bool := 'A' ≤ c && c ≤ 'Z'

/-- `[A-Z0-9_]`. -/
def isKeyChar (c : Char) : Bool := isKeyLetter c || ('0' ≤ c && c ≤ '9') || c == '_'

/-- `re.match(r"[A-Z][A-Z0-9_]*$", ...)`. -/
def isProjectKey : Text → Bool
  | [] => false
  | c :: t =>
    let rest := t.dropWhile isKeyChar
    isKeyLetter c && (rest.isEmpty || rest == ['\n'])

/-- The first two parts of `stem.split("-", 2)`, where there are two. -/
def firstTwoParts (stem : Text) : Option (Text × Text) :=
  match stem.dropWhile (· != '-') with
  | [] => none
  | _ :: rest => some (stem.takeWhile (· != '-'), rest.takeWhile (· != '-'))

/-- A file is taken for the spec of an issue. -/
def isSpecOf (issueNumber name : Text) : Bool :=
  suffix name == ".md".toList &&
    ((issueNumber ++ ['-']).isPrefixOf name ||
      match firstTwoParts (stem name) with
      | some (key, number) => number == issueNumber && isProjectKey key
      | none => false)

/-- `find_spec_file`, on a listing of the directory. -/
def findSpecFile (issueNumber : Text) (listing : List (Text × Text)) : Option (Text × Text) :=
  listing.find? fun f => isSpecOf issueNumber f.1

/-! ## Writing a spec -/

/-- `_sanitize_issue_number`. -/
def sanitizeIssueNumber (issueNumber : Text) : Text :=
  (issueNumber.filter fun c => c != '/' && c != '\\').dropWhile (· == '.')

/-- `_make_slug`. -/
def makeSlug (nfkd : Text → Text) (title : Text) : Text :=
  let slug := slugify nfkd title 40
  if slug = [] then "spec".toList else slug

/-- The name of the file that `_write_spec_file` writes. -/
def specFileName (nfkd : Text → Text) (issueNumber title : Text) : Text :=
  sanitizeIssueNumber issueNumber ++ '-' :: (makeSlug nfkd title ++ ".md".toList)

/-- `_write_spec_file`. -/
def writeSpecFile (nfkd : Text → Text) (issueNumber title content : Text) (specs : SpecsDir) : SpecsDir :=
  Assoc.put specs (specFileName nfkd issueNumber title) content

end Core.SpecFiles

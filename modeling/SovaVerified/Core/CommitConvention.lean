import Mathlib.Data.List.Sort
import SovaVerified.Regex.Regex
import SovaVerified.Text.Reading

/-!
# Lines of a commit

`sova/core/steps/commit_convention.py`, `_normalize_commit_subject` of `sova/core/steps/commit.py` and
`_build_pr_title` of `sova/core/steps/create_pr.py`: the check of a line `type(scope): subject`, and the two
builders that put such a line together when no proposal passes it.

Which letters are capitals, and what their small ones are, is given by a casing.
-/

namespace Core.CommitConvention

/-- `str.isupper` and `str.lower` for one code point. -/
structure Casing where
  isUpper : Char → Bool
  lower : Char → Text
  isUpper_ascii : ∀ c : Char, c.toNat < 128 → isUpper c = c.isUpper
  lower_ascii : ∀ c : Char, c.toNat < 128 → lower c = [c.toLower]

/-- The letters of ASCII alone. -/
def Casing.ascii : Casing where
  isUpper := Char.isUpper
  lower c := [c.toLower]
  isUpper_ascii _ _ := rfl
  lower_ascii _ _ := rfl

variable (L : Casing)

/-- `MAX_LINE_LENGTH`. -/
def maxLineLength : Nat := 72

/-- `_SCOPELESS_TYPE`. -/
def scopelessType : Text := "ci".toList

/-- `DEFAULT_COMMIT_TYPES`. -/
def defaultCommitTypes : List Text :=
  ["feat".toList, "fix".toList, "refactor".toList, "test".toList, "docs".toList, "chore".toList, "ci".toList]

/-- `DEFAULT_COMMIT_SCOPES`. -/
def defaultCommitScopes : List Text :=
  ["dashboard".toList, "commands".toList, "personas".toList, "invariants".toList, "knowledge".toList,
   "cli".toList, "docs".toList, "scheduler".toList, "ipc".toList, "adapters".toList, "roles".toList,
   "core".toList, "config".toList, "supervisor".toList, "mcp".toList, "monitoring".toList, "db".toList,
   "awareness".toList, "oversight".toList, "deps".toList]

/-! ## The check -/

/-- `[a-z]`. -/
def isSmall (c : Char) : Bool := 'a' ≤ c && c ≤ 'z'

/-- `[a-z0-9]`. -/
def isTypeChar (c : Char) : Bool := isSmall c || ('0' ≤ c && c ≤ '9')

/-- `\S`. -/
def isVisible (c : Char) : Bool := !Text.isSpace c

/-- `_LINE_RE` between `^` and `$`, with its groups for the type, the scope and the subject. -/
def lineRe : Regex :=
  .seq (.cap 1 (.seq (.chr isSmall) (.rep 0 none isTypeChar)))
    (.seq (Regex.opt (.seq (.chr (· == '(')) (.seq (.cap 2 (.rep 1 none (· != ')'))) (.chr (· == ')')))))
      (.seq (.chr (· == ':'))
        (.seq Regex.spaces (.cap 3 (.seq (.chr isVisible) (.rep 0 none (· != '\n')))))))

/-- A capital letter with no other one behind it. -/
def startsCapital : Text → Bool
  | [] => false
  | [c] => L.isUpper c
  | c :: d :: _ => L.isUpper c && !L.isUpper d

def isValidCommitLine (line : Text) (types scopes : List Text) : Bool :=
  let candidate := Text.strip line
  if candidate = [] ∨ maxLineLength < candidate.length then false
  else
    match Regex.matchLine lineRe candidate with
    | none => false
    | some groups =>
      let commitType := (groups.get 1).getD []
      let scope := groups.get 2
      let subject := (groups.get 3).getD []
      if commitType ∉ types then false
      else if commitType = scopelessType then scope.all scopes.contains && !startsCapital L subject
      else scope.any (fun s => s ≠ [] && scopes.contains s) && !startsCapital L subject

/-! ## Types and scopes -/

def resolveDefaultScope (scopes : List Text) (preferred : Text) : Text :=
  if preferred ∈ scopes then preferred else scopes.headD preferred

def resolveDefaultType (types : List Text) (preferred : Text) : Text :=
  if preferred ∈ types then preferred else (types.find? (· ≠ scopelessType)).getD (types.headD preferred)

def formatTypeScope (commitType scope : Text) : Text :=
  if commitType = scopelessType then commitType else commitType ++ '(' :: scope ++ [')']

/-- The types, the longest first, as alternatives. -/
def typeAlternatives (types : List Text) : Regex :=
  (types.insertionSort fun a b => b.length ≤ a.length).foldr (fun t r => .alt (Regex.escape false t) r)
    (.chr fun _ => false)

def typePrefixRe (types : List Text) : Regex :=
  .seq (.cap 1 (typeAlternatives types))
    (.seq (Regex.opt (.seq (.chr (· == '(')) (.seq (.rep 0 none (· != ')')) (.chr (· == ')')))))
      (.seq (.chr (· == ':')) Regex.spaces))

/-- `match_type_prefix`: the type of the prefix, and what stands behind the prefix. -/
def matchTypePrefix (subject : Text) (types : List Text) : Option (Text × Text) :=
  (Regex.matchRest (typePrefixRe types) subject).bind fun found => (found.1.get 1).map fun t => (t, found.2)

def stripTypePrefix (subject : Text) (types : List Text) : Text :=
  ((matchTypePrefix subject types).map Prod.snd).getD subject

/-- `_path_segments`. -/
def pathSegments (path : Text) : List Text := ((Text.strip path).splitOn '/').filter (· ≠ [])

/-- `name.rsplit(".", 1)[0]`. -/
def stem (name : Text) : Text := ((Text.rpartition '.' name).map Prod.fst).getD name

/-- `_match_scope_segment`. -/
def matchScopeSegment (path : Text) (scopes : List Text) : Option Text :=
  let parts := pathSegments path
  match parts.getLast? with
  | none => none
  | some last =>
    match parts.dropLast.find? scopes.contains with
    | some segment => some segment
    | none =>
      if 2 < parts.length then none
      else if stem last ∈ scopes then some (stem last)
      else if last ∈ scopes then some last
      else none

/-- `max(order, key=...)`: the scope that is matched most often, and the first one of several. -/
def mostTouched (found : Text) (matched : List Text) : Text :=
  matched.eraseDups.foldl (fun best s => if matched.count best < matched.count s then s else best) found

def inferScopeFromPaths (changedFiles scopes : List Text) (preferred : Text) : Text :=
  match changedFiles.mapM fun path => matchScopeSegment path scopes with
  | some (found :: matched) => mostTouched found (found :: matched)
  | _ => resolveDefaultScope scopes preferred

/-- `_DOCS_DIR_NAMES`. -/
def docsDirNames : List Text := ["docs".toList, "documentation".toList, "doc".toList]

/-- `_TEST_DIR_NAMES`. -/
def testDirNames : List Text :=
  ["tests".toList, "test".toList, "spec".toList, "specs".toList, "__tests__".toList]

/-- `_is_docs_only_path`. -/
def isDocsOnlyPath (path : Text) : Bool := (pathSegments path).head?.any docsDirNames.contains

/-- `_is_test_only_path`. -/
def isTestOnlyPath (path : Text) : Bool :=
  let parts := pathSegments path
  match parts.head?, parts.getLast? with
  | some first, some name =>
    testDirNames.contains first || parts.contains "__tests__".toList || "test_".toList.isPrefixOf name ||
      "_test.py".toList.isSuffixOf name || "_test".toList.isSuffixOf (stem name) ||
      ".test".toList.isSuffixOf (stem name) || ".spec".toList.isSuffixOf (stem name)
  | _, _ => false

def inferTypeFromPaths (changedFiles types : List Text) (preferred : Text) : Text :=
  if changedFiles ≠ [] ∧ "docs".toList ∈ types ∧ changedFiles.all isDocsOnlyPath then "docs".toList
  else if changedFiles ≠ [] ∧ "test".toList ∈ types ∧ changedFiles.all isTestOnlyPath then "test".toList
  else resolveDefaultType types preferred

/-! ## Subjects -/

def lowercaseFirstLetter : Text → Text
  | [] => []
  | [c] => L.lower c
  | c :: d :: t => if L.isUpper c && L.isUpper d then c :: d :: t else L.lower c ++ d :: t

/-- `t.partition(sep)`: what stands before and behind the first separator. -/
def partition (sep : Text) : Text → Option (Text × Text)
  | [] => none
  | c :: t =>
    if sep.isPrefixOf (c :: t) then some ([], (c :: t).drop sep.length)
    else (partition sep t).map fun parts => (c :: parts.1, parts.2)

/-- What `truncate_commit_line` leaves of a subject that is too long. -/
def clippedSubject (room : Nat) (subject : Text) : Text :=
  let clipped := Text.rstrip (subject.take room)
  let cutsMidWord := (subject.drop room).head?.any isVisible
  let clipped := match if cutsMidWord then Text.rpartition ' ' clipped else none with
    | some (before, _) => Text.rstrip before
    | none => clipped
  if clipped = [] then subject.take room else clipped

def truncateCommitLine (line : Text) (limit : Nat) : Text :=
  if line.length ≤ limit then line
  else
    match partition ": ".toList line with
    | none => Text.rstrip (line.take limit)
    | some (head, subject) =>
      if limit < head.length + 3 then Text.rstrip (line.take limit)
      else head ++ ": ".toList ++ clippedSubject (limit - head.length - 2) subject

/-- A line of a type, a scope and a subject, cut to the limit. -/
def commitLine (commitType scope subject : Text) : Text :=
  truncateCommitLine (formatTypeScope commitType scope ++ ": ".toList ++ subject) maxLineLength

/-! ## The builders -/

/-- The subject that `_normalize_commit_subject` takes from the title, before its first letter is lowered. -/
def plainSubject (subject : Text) (types : List Text) : Text :=
  let stripped := stripTypePrefix (Text.flatten subject) types
  if stripped = [] then "update issue implementation".toList else stripped

/-- `_normalize_commit_subject`. -/
def normalizeCommitSubject (subject commitType defaultScope : Text) (types scopes : Option (List Text)) :
    Text :=
  let types := types.getD defaultCommitTypes
  let scopes := scopes.getD defaultCommitScopes
  let subject := lowercaseFirstLetter L (plainSubject subject types)
  let normalized := commitLine commitType defaultScope subject
  if isValidCommitLine L normalized types scopes then normalized
  else commitLine (resolveDefaultType types "feat".toList) (resolveDefaultScope scopes "core".toList) subject

/-- `_infer_scope`. -/
def inferScope (changedFiles : List Text) (scopes : Option (List Text)) : Text :=
  inferScopeFromPaths changedFiles (scopes.getD defaultCommitScopes) "core".toList

/-- The type and the description that `_build_pr_title` takes from the title and the paths. -/
def typeAndDescription (taskTitle : Text) (changedFiles types : List Text) : Text × Text :=
  (matchTypePrefix taskTitle types).getD (inferTypeFromPaths changedFiles types "feat".toList, taskTitle)

/-- `_build_pr_title`. The key is the one of the issue, where there is an issue and the tasks are on Jira. -/
def buildPrTitle (taskTitle : Text) (jiraKey : Option Text) (changedFiles : List Text)
    (scopes types : Option (List Text)) : Text :=
  let types := types.getD []
  let resolvedTypes := if types = [] then defaultCommitTypes else types
  let parts := typeAndDescription taskTitle changedFiles resolvedTypes
  let description := lowercaseFirstLetter L parts.2
  match jiraKey with
  | some key =>
    truncateCommitLine ('[' :: key ++ "] ".toList ++ parts.1 ++ ": ".toList ++ description) maxLineLength
  | none => commitLine parts.1 (inferScope changedFiles scopes) description

end Core.CommitConvention

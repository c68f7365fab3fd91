import SovaVerified.Assoc.Assoc
import SovaVerified.Regex.Regex
import SovaVerified.Text.Reading

/-!
# The guard against pin downgrades

`sova/core/pr_diff_guard.py`: the part that reads the pins of a dependency file out of a diff, pairs the
removed versions with the added ones and compares them. The calls of git are left out: the diff is given.
-/

namespace Core.PrDiffGuard

/-! ## The lines of a pin -/

/-- The patterns for dependency files. -/
inductive PinPattern where
  | pythonRequirement
  | packageJsonDep
  | npmLock
  deriving DecidableEq, Repr

def isMarker (c : Char) : Bool := c == '+' || c == '-'

def isNoQuote (c : Char) : Bool := c != '"'

def isNameChar (c : Char) : Bool := c.isAlphanum || c == '.' || c == '_' || c == '-'

def isVersionChar (c : Char) : Bool :=
  c.isAlphanum || c == '.' || c == '!' || c == '+' || c == '*' || c == '-'

/-- The groups are 1 for the marker, 2 for the name and 3 for the version. -/
def PinPattern.re : PinPattern → Regex
  | .pythonRequirement => Regex.cat
      [.cap 1 (.chr isMarker), Regex.spaces, Regex.opt (.chr fun c => c == '"' || c == '\''),
       .cap 2 (.seq (.chr Char.isAlphanum) (.rep 0 none isNameChar)), Regex.spaces, Regex.exact "==",
       Regex.spaces, .cap 3 (.rep 1 none isVersionChar)]
  | .packageJsonDep => Regex.cat
      [.cap 1 (.chr isMarker), Regex.spaces, Regex.exact "\"", .cap 2 (.rep 1 none isNoQuote),
       Regex.exact "\":", Regex.spaces, Regex.exact "\"", Regex.opt (Regex.exact "^"),
       Regex.opt (Regex.exact "~"), .cap 3 (.seq (.chr Text.isDecimal) (.rep 0 none isNoQuote)),
       Regex.exact "\""]
  | .npmLock => Regex.cat
      [.cap 1 (.chr isMarker), Regex.spaces, Regex.exact "\"version\":", Regex.spaces, Regex.exact "\"",
       .cap 3 (.rep 1 none isNoQuote), Regex.exact "\""]

/-- What a match of a pattern has captured. The pattern of lockfiles has no group for a name. -/
structure PinLine where
  removed : Bool
  name : Text
  version : Text
  deriving DecidableEq

/-- `pattern.match(line)`. A match captures all groups that its pattern has. -/
def pinLine (pattern : PinPattern) (line : Text) : Option PinLine := do
  let groups ← Regex.matchPrefix pattern.re line
  let marker ← groups.get 1
  let version ← groups.get 3
  let name ← if pattern = .npmLock then some [] else groups.get 2
  some { removed := marker == ['-'], name, version }

/-- A removed version and an added one. -/
structure Pin where
  name : Option Text
  removed : Text
  added : Text
  deriving DecidableEq

/-! ## Lockfiles -/

/-- `_LOCKFILE_KEY_OPEN_RE`. -/
def lockfileKeyOpenRe : Regex := Regex.cat
  [.chr fun c => c == ' ' || isMarker c, Regex.spaces, Regex.exact "\"", .cap 1 (.rep 1 none isNoQuote),
   Regex.exact "\":", Regex.spaces, .chr (· == '{'), Regex.spaces]

/-- `_LOCKFILE_CONTAINER_KEYS`. -/
def lockfileContainerKeys : List Text :=
  ["packages".toList, "dependencies".toList, "devDependencies".toList, "optionalDependencies".toList,
   "peerDependencies".toList, "engines".toList]

/-- `key.rsplit(sep, 1)[-1]`. -/
def behindLast (sep key : Text) : Text :=
  ((key.tails.filter fun t => sep.isPrefixOf t).getLast?.map fun t => t.drop sep.length).getD key

/-- `_lockfile_package_name`. -/
def lockfilePackageName (key : Text) : Text := behindLast "node_modules/".toList key

/-- The state of the loop of `_parse_pin_lines_positional`. -/
structure Positional where
  pairs : List Pin := []
  pending : Assoc (Option Text) Text := []
  currentKey : Option Text := none

def Positional.read (state : Positional) (line : Text) : Positional :=
  match Regex.matchLine lockfileKeyOpenRe line with
  | some groups => { state with currentKey := groups.get 1 }
  | none =>
    match pinLine .npmLock line with
    | none => state
    | some pin =>
      if state.currentKey.any lockfileContainerKeys.contains then state
      else if pin.removed then
        { state with pending := Assoc.put state.pending state.currentKey pin.version }
      else
        let pairs := match Assoc.get state.pending state.currentKey with
          | none => state.pairs
          | some removed =>
            state.pairs ++ [{ name := state.currentKey.map lockfilePackageName, removed, added := pin.version }]
        { state with pairs, pending := Assoc.del state.pending state.currentKey }

/-- `_parse_pin_lines_positional`. -/
def parsePinLinesPositional (diffText : Text) : List Pin :=
  ((Text.lines diffText).foldl Positional.read {}).pairs

/-! ## Files that name their pins -/

/-- What the loop of `_parse_pin_lines_named` has collected. -/
structure Collected where
  removedByName : Assoc Text (List Text) := []
  addedByName : Assoc Text (List Text) := []
  nameOrder : List Text := []

def Collected.add (c : Collected) (pin : PinLine) : Collected :=
  let nameOrder :=
    if (Assoc.get c.removedByName pin.name).isNone && (Assoc.get c.addedByName pin.name).isNone then
      c.nameOrder ++ [pin.name]
    else c.nameOrder
  if pin.removed then
    { c with nameOrder, removedByName := Assoc.push c.removedByName pin.name pin.version }
  else { c with nameOrder, addedByName := Assoc.push c.addedByName pin.name pin.version }

/-- The pairs of one name: the removal and the addition at the same position. -/
def Collected.pairsOf (c : Collected) (name : Text) : List Pin :=
  (((Assoc.get c.removedByName name).getD []).zip ((Assoc.get c.addedByName name).getD [])).map fun p =>
    { name := some name, removed := p.1, added := p.2 }

def pinLines (pattern : PinPattern) (diffText : Text) : List PinLine :=
  (Text.lines diffText).filterMap (pinLine pattern)

/-- `_parse_pin_lines_named`. -/
def parsePinLinesNamed (diffText : Text) (pattern : PinPattern) : List Pin :=
  let collected := (pinLines pattern diffText).foldl Collected.add {}
  collected.nameOrder.flatMap collected.pairsOf

/-- `_PACKAGE_JSON_METADATA_KEYS`. -/
def packageJsonMetadataKeys : List Text :=
  ["name".toList, "version".toList, "engines".toList, "node".toList, "npm".toList, "main".toList,
   "module".toList, "license".toList, "private".toList, "packageManager".toList]

/-- `path.endswith("package.json")`. -/
def isPackageJson (path : Text) : Bool := "package.json".toList.isSuffixOf path

/-- A key of `package.json` that is no dependency. -/
def isMetadata (path name : Text) : Bool := isPackageJson path && packageJsonMetadataKeys.contains name

/-- `_parse_pin_lines`. -/
def parsePinLines (path diffText : Text) (pattern : PinPattern) : List Pin :=
  let pins := match pattern with
    | .npmLock => parsePinLinesPositional diffText
    | _ => parsePinLinesNamed diffText pattern
  pins.filter fun pin => !(pin.name.any (isMetadata path))

/-! ## Versions -/

/-- `Version(added) < Version(removed)` of `packaging`: `none` when one of them cannot be parsed. -/
abbrev Before := Text → Text → Option Bool

/-- `int(part)` of a part that `str.isdigit` accepts. -/
def intOf (part : Text) : Option Nat :=
  if part.all Text.isDecimal && part.length ≤ 4300 then some (Text.toNat part) else none

/-- `_tuple`. -/
def versionTuple (version : Text) : Option (List Nat) :=
  ((version.splitOnP fun c => c == '.' || c == '+' || c == '-').filter Text.isDigits).mapM intOf

/-- The comparison that is left when `packaging` cannot compare. -/
def compareTuples (removed added : Text) : Option Bool :=
  match versionTuple removed, versionTuple added with
  | some r, some a => if r = [] ∨ a = [] then none else some (a < r)
  | _, _ => none

/-- `_compare_versions`. The package `packaging` may be missing. -/
def compareVersions (packaging : Option Before) (removed added : Text) : Option Bool :=
  (packaging.bind fun before => before added removed).or (compareTuples removed added)

/-! ## The downgrades -/

structure PinDowngrade where
  file : Text
  package : Text
  fromVersion : Text
  toVersion : Text
  deriving DecidableEq

/-- The added version is another one, and it is older. -/
def isDowngrade (packaging : Option Before) (removed added : Text) : Bool :=
  removed ≠ added && compareVersions packaging removed added == some true

def packageOf (name : Option Text) : Text :=
  if name.getD [] = [] then "<lockfile entry>".toList else name.getD []

/-- `_downgrades_in_pins`. -/
def downgradesInPins (packaging : Option Before) (path : Text) (pins : List Pin) : List PinDowngrade :=
  (pins.filter fun pin => isDowngrade packaging pin.removed pin.added).map fun pin =>
    { file := path, package := packageOf pin.name, fromVersion := pin.removed, toVersion := pin.added }

/-- `_pin_downgrades_for_file`, given the diff of the file. -/
def pinDowngradesForFile (packaging : Option Before) (path diffText : Text) (pattern : PinPattern) :
    List PinDowngrade :=
  downgradesInPins packaging path (parsePinLines path diffText pattern)

end Core.PrDiffGuard

import SovaVerified.Assoc.Assoc
import SovaVerified.Regex.Regex
import SovaVerified.Text.Reading

/-!
# The lines of a diff

`sova/git/diff.py`: `parse_diff_lines` reads from a unified diff which lines of the new files it shows.
The diff itself is what `git diff` writes with its default settings: names are quoted, the line of a name
with a blank ends in a tab, and the lines of the files are written as they are.
-/

namespace Git.Diff

/-! ## What git writes -/

/-- A line of a file, without its line feed. -/
abbrev Line := { t : Text // '\n' ∉ t }

/-- A line of a hunk. -/
inductive DiffLine where
  | context (content : Line)
  | removed (content : Line)
  | added (content : Line)
  | noNewline

namespace DiffLine

/-- The line is one of the new file. -/
def isNew : DiffLine → Bool
  | .context _ => true
  | .added _ => true
  | _ => false

/-- The line is one of the old file. -/
def isOld : DiffLine → Bool
  | .context _ => true
  | .removed _ => true
  | _ => false

def text : DiffLine → Text
  | .context content => ' ' :: content.1
  | .removed content => '-' :: content.1
  | .added content => '+' :: content.1
  | .noNewline => "\\ No newline at end of file".toList

end DiffLine

def ofNat (n : Nat) : Text := (toString n).toList

/-- A hunk, with the line numbers that its header gives. -/
structure Hunk where
  oldStart : Nat
  newStart : Nat
  heading : Line
  lines : List DiffLine

namespace Hunk

/-- The count of a range, which is left out when it is one. -/
def countText (n : Nat) : Text := if n = 1 then [] else ',' :: ofNat n

def header (h : Hunk) : Text :=
  "@@ -".toList ++ ofNat h.oldStart ++ countText (h.lines.countP DiffLine.isOld) ++
    " +".toList ++ ofNat h.newStart ++ countText (h.lines.countP DiffLine.isNew) ++
    " @@".toList ++ if h.heading.1 = [] then [] else ' ' :: h.heading.1

/-- The numbers of the lines of the new file. -/
def numbersFrom : Nat → List DiffLine → List Nat
  | _, [] => []
  | n, l :: ls => if l.isNew then n :: numbersFrom (n + 1) ls else numbersFrom n ls

def numbers (h : Hunk) : List Nat := numbersFrom h.newStart h.lines

end Hunk

/-- The characters that git does not write as they are in a name. -/
def needsQuote (c : Char) : Bool :=
  c.toNat < 0x20 || c == '"' || c == '\\' || 0x7f ≤ c.toNat

/-- `\ooo` -/
def octal (b : UInt8) : Text :=
  ['\\', Nat.digitChar (b.toNat / 64), Nat.digitChar (b.toNat / 8 % 8), Nat.digitChar (b.toNat % 8)]

def escape (c : Char) : Text :=
  match c.toNat with
  | 0x07 => ['\\', 'a']
  | 0x08 => ['\\', 'b']
  | 0x09 => ['\\', 't']
  | 0x0a => ['\\', 'n']
  | 0x0b => ['\\', 'v']
  | 0x0c => ['\\', 'f']
  | 0x0d => ['\\', 'r']
  | 0x22 => ['\\', '"']
  | 0x5c => ['\\', '\\']
  | _ => (String.utf8EncodeChar c).flatMap octal

/-- A name behind `a/` or `b/`, in quotes if it needs them. -/
def quoteTwo (front name : Text) : Text :=
  if name.any needsQuote then
    '"' :: front ++ name.flatMap (fun c => if needsQuote c then escape c else [c]) ++ ['"']
  else front ++ name

/-- A name in the lines `---` and `+++`. -/
def label (front : Text) : Option Text → Text
  | none => "/dev/null".toList
  | some name =>
    let quoted := quoteTwo front name
    if ' ' ∈ quoted then quoted ++ ['\t'] else quoted

/-- The lines between `diff --git` and the hunks. -/
inductive ExtendedHeader where
  | oldMode (mode : Nat)
  | newMode (mode : Nat)
  | deletedFileMode (mode : Nat)
  | newFileMode (mode : Nat)
  | similarity (percent : Nat)
  | dissimilarity (percent : Nat)
  | renameFrom (name : Text)
  | renameTo (name : Text)
  | copyFrom (name : Text)
  | copyTo (name : Text)
  | index (old new : Nat) (mode : Option Nat)
  | binary (old new : Option Text)

def ExtendedHeader.text : ExtendedHeader → Text
  | .oldMode mode => "old mode ".toList ++ ofNat mode
  | .newMode mode => "new mode ".toList ++ ofNat mode
  | .deletedFileMode mode => "deleted file mode ".toList ++ ofNat mode
  | .newFileMode mode => "new file mode ".toList ++ ofNat mode
  | .similarity percent => "similarity index ".toList ++ (ofNat percent ++ ['%'])
  | .dissimilarity percent => "dissimilarity index ".toList ++ (ofNat percent ++ ['%'])
  | .renameFrom name => "rename from ".toList ++ quoteTwo [] name
  | .renameTo name => "rename to ".toList ++ quoteTwo [] name
  | .copyFrom name => "copy from ".toList ++ quoteTwo [] name
  | .copyTo name => "copy to ".toList ++ quoteTwo [] name
  | .index old new mode =>
    "index ".toList ++ (Nat.toDigits 16 old ++ "..".toList ++ Nat.toDigits 16 new ++
      (mode.map fun m => ' ' :: ofNat m).getD [])
  | .binary old new =>
    "Binary files ".toList ++ ((old.map (quoteTwo "a/".toList)).getD "/dev/null".toList ++ " and ".toList ++
      (new.map (quoteTwo "b/".toList)).getD "/dev/null".toList ++ " differ".toList)

/-- What a diff says of one file. A side that does not exist has no name. -/
structure FileDiff where
  oldName : Option Text
  newName : Option Text
  extended : List ExtendedHeader
  hunks : List Hunk
  deleted : newName = none → ∀ hunk ∈ hunks, ∀ line ∈ hunk.lines, line.isNew = false

namespace FileDiff

/-- `diff --git a/<name> b/<name>`: the name of a side that does not exist is the one of the other side. -/
def gitLine (f : FileDiff) : Text :=
  "diff --git ".toList ++ (quoteTwo "a/".toList ((f.oldName.or f.newName).getD []) ++ [' '] ++
    quoteTwo "b/".toList ((f.newName.or f.oldName).getD []))

def oldLine (f : FileDiff) : Text := "--- ".toList ++ label "a/".toList f.oldName

def newLine (f : FileDiff) : Text := "+++ ".toList ++ label "b/".toList f.newName

/-- The lines of the hunks. -/
def body (f : FileDiff) : List Text :=
  f.hunks.flatMap fun h => h.header :: h.lines.map DiffLine.text

def textLines (f : FileDiff) : List Text :=
  f.gitLine :: f.extended.map ExtendedHeader.text ++
    if f.hunks = [] then [] else f.oldLine :: f.newLine :: f.body

/-- The numbers of the lines of the new file that the hunks show. -/
def numbers (f : FileDiff) : List Nat := f.hunks.flatMap Hunk.numbers

/-- The lines of the new side: context and added lines, each with the name of its file. -/
def newSide (f : FileDiff) : List (Text × Nat) :=
  match f.newName with
  | none => []
  | some name => f.numbers.map fun n => (name, n)

end FileDiff

/-- What `git diff` writes. -/
def render (files : List FileDiff) : Text :=
  (files.flatMap FileDiff.textLines).flatMap fun l => l ++ ['\n']

def newSide (files : List FileDiff) : List (Text × Nat) := files.flatMap FileDiff.newSide

/-! ## `parse_diff_lines` -/

/-- `_HUNK_RE`. -/
def hunkRe : Regex :=
  .cat [.lit "@@ -", .rep 1 none Text.isDecimal, .opt (.seq (.lit ",") (.rep 1 none Text.isDecimal)),
    .lit " +", .cap 1 (.rep 1 none Text.isDecimal),
    .opt (.seq (.lit ",") (.cap 2 (.rep 1 none Text.isDecimal))), .lit " @@"]

/-- The number that a hunk header gives. -/
def hunkStart (rawLine : Text) : Option Nat :=
  ((Regex.matchPrefix hunkRe rawLine).bind fun m => m.get 1).map Text.toNat

/-- The local variables of `parse_diff_lines`. -/
structure Parse where
  result : Assoc Text (List Nat) := []
  currentFile : Option Text := none
  lineNum : Nat := 0

namespace Parse

/-- `result.setdefault(current_file, set())`. -/
def openFile (p : Parse) (file : Text) : Parse :=
  { p with
    currentFile := some file
    result := if (p.result.get file).isSome then p.result else p.result.put file [] }

/-- `result[current_file].add(line_num)` and `line_num += 1`. -/
def addLine (p : Parse) (file : Text) : Parse :=
  { p with
    result := p.result.put file (p.lineNum :: (p.result.get file).getD [])
    lineNum := p.lineNum + 1 }

/-- One turn of the loop. -/
def step (p : Parse) (rawLine : Text) : Parse :=
  if "diff --git ".toList.isPrefixOf rawLine then { p with currentFile := none }
  else if "+++ b/".toList.isPrefixOf rawLine then p.openFile (rawLine.drop 6)
  else if "+++ /dev/null".toList.isPrefixOf rawLine then { p with currentFile := none }
  else
    match hunkStart rawLine, p.currentFile with
    | some n, _ => { p with lineNum := n }
    | none, none => p
    | none, some file =>
      if ['+'].isPrefixOf rawLine then p.addLine file
      else if ['-'].isPrefixOf rawLine || ['\\'].isPrefixOf rawLine then p
      else if "index ".toList.isPrefixOf rawLine || "--- ".toList.isPrefixOf rawLine then p
      else p.addLine file

end Parse

/-- `parse_diff_lines`. -/
def parseDiffLines (diff : Text) : Assoc Text (List Nat) :=
  ((Text.lines diff).foldl Parse.step {}).result

/-- The result says that the line of the file is shown. -/
def Shows (result : Assoc Text (List Nat)) (file : Text) (n : Nat) : Prop :=
  ∃ ns, result.get file = some ns ∧ n ∈ ns

/-- The result shows exactly the lines of the new side. -/
def Correct (files : List FileDiff) : Prop :=
  ∀ file n, Shows (parseDiffLines (render files)) file n ↔ (file, n) ∈ newSide files

/-! ## When it is correct -/

/-- A raw line that the parser passes over. -/
def Ignored (rawLine : Text) : Prop :=
  ['-'].isPrefixOf rawLine = true ∨ ['\\'].isPrefixOf rawLine = true ∨
    "index ".toList.isPrefixOf rawLine = true

/-- A name that is written as it is. -/
def PlainName (name : Text) : Prop := name.any needsQuote = false ∧ ' ' ∉ name

/-- An added line that does not look like the header of a file. -/
def DiffLine.Plain : DiffLine → Prop
  | .added content => "++ b/".toList.isPrefixOf content.1 = false ∧
      "++ /dev/null".toList.isPrefixOf content.1 = false
  | _ => True

/-- What Python splits off a line is passed over. -/
def Whole (line : Text) : Prop := ∀ piece ∈ (Text.pieces line).tail, Ignored piece

/-- Python takes the line for one line. -/
def Unbroken (line : Text) : Prop := (Text.pieces line).tail = []

/-- The diff of a file that is read right. Of a file that is deleted, nothing may look like the header of
another file. -/
def FileDiff.Plain (f : FileDiff) : Prop :=
  match f.newName with
  | none => ∀ line ∈ f.body, ∀ piece ∈ Text.pieces line, "+++ b/".toList.isPrefixOf piece = false
  | some name => (f.numbers ≠ [] → PlainName name) ∧ (∀ line ∈ f.body, Whole line) ∧
      ∀ hunk ∈ f.hunks, ∀ line ∈ hunk.lines, line.Plain

end Git.Diff

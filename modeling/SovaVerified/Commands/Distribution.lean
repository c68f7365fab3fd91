import Mathlib.Data.List.Sort
import SovaVerified.Assoc.Assoc
import SovaVerified.Files.Files

/-!
# The sync of installed commands

`_update_files` of `sova/commands/distribution.py` with its manifest (`sova/commands/manifest.py`), over a tree
that may have symbolic links. The texts are given as they are rendered. Directories that are made and removed
on the way are left out; every operation on a file may fail.
-/

namespace Commands

open Files

/-! ## The manifest -/

structure ManifestEntry where
  hash : Text
  managed : Bool := true
  deriving DecidableEq

/-- `Manifest`; its names are the keys of a dict. -/
structure Manifest where
  version : Nat := 1
  commands : Assoc Text ManifestEntry := []
  nodup : (commands.map Prod.fst).Nodup := by exact List.nodup_nil

/-- An entry of the manifest file. -/
structure EntryData where
  hash : Option Text
  managed : Option Bool
  deriving DecidableEq

/-- The object in the manifest file. -/
structure ManifestData where
  version : Option Nat
  commands : List (Text × EntryData)
  deriving DecidableEq

def EntryData.entry (e : EntryData) : ManifestEntry := ⟨e.hash.getD [], e.managed.getD true⟩

/-- `read_manifest`, of a file that holds an object. -/
def ManifestData.manifest (data : ManifestData) : Manifest where
  version := data.version.getD 1
  commands := Assoc.ofEntries (data.commands.map fun e => (e.1, e.2.entry))
  nodup := Assoc.nodup_keys_ofEntries _

/-- The object that `write_manifest` writes. -/
def Manifest.data (m : Manifest) : ManifestData :=
  ⟨some m.version, m.commands.map fun e => (e.1, ⟨some e.2.hash, some e.2.managed⟩)⟩

def Manifest.get (m : Manifest) (name : Text) : Option ManifestEntry := Assoc.get m.commands name

/-- `commands[name] = entry`. -/
def Manifest.set (m : Manifest) (name : Text) (entry : ManifestEntry) : Manifest where
  version := m.version
  commands := Assoc.set m.commands name entry
  nodup := Assoc.nodup_keys_set m.nodup name entry

/-- `del commands[name]`. -/
def Manifest.del (m : Manifest) (name : Text) : Manifest where
  version := m.version
  commands := Assoc.del m.commands name
  nodup := m.nodup.sublist (List.filter_sublist.map Prod.fst)

def Manifest.names (m : Manifest) : List Text := m.commands.map Prod.fst

/-! ## The decisions -/

/-- What the loop does with a file. -/
inductive Decision where
  | skip
  /-- The file is canonical, and the manifest says so from now on. -/
  | adopt
  | conflict
  | write
  deriving DecidableEq

/-- The branches of the main loop. -/
def decision (entry : Option ManifestEntry) (newHash : Text) (isFile : Bool) (installedHash : Option Text)
    (force : Bool) : Decision :=
  match entry with
  | none =>
    if isFile then
      if installedHash = some newHash then .adopt
      else if !force then .conflict
      else .write
    else .write
  | some entry =>
    if !force ∧ entry.hash = newHash then .skip
    else if installedHash = some newHash then
      if entry.hash ≠ newHash then .adopt else .skip
    else if !force ∧ isFile ∧ (installedHash = none ∨ installedHash ≠ some entry.hash) then .conflict
    else .write

/-- What the pruning does with an entry whose source is gone. -/
inductive PruneDecision where
  | keep
  /-- The file is gone as well. -/
  | forget
  | conflict
  | unlink
  deriving DecidableEq

def pruneDecision (entry : ManifestEntry) (isFile : Bool) (localHash : Option Text) (force : Bool) : PruneDecision :=
  if !entry.managed then .keep
  else if !isFile then .forget
  else if localHash ≠ some entry.hash ∧ !force then .conflict
  else .unlink

/-! ## The loops -/

structure UpdateResult where
  updated : Nat := 0
  skipped : Nat := 0
  conflicts : List Text := []
  removed : List Text := []
  updatedFiles : List Text := []
  manifestWritten : Bool := false
  deriving DecidableEq

/-- How `_write_rendered` ends, with the directories that it needs: done, or with an error before it changed
anything, after it removed a link, or in the middle of the text. -/
inductive WriteOutcome where
  | done
  | untouched
  | unlinked
  | torn (text : Option Text)

/-- How `unlink` ends; only an `OSError` is handled. -/
inductive UnlinkOutcome where
  | done
  | failed
  | raised
  deriving DecidableEq

/-- How the operations on the files end. -/
structure FileOps where
  write : Text → WriteOutcome
  unlink : Text → UnlinkOutcome
  /-- `none` when the manifest is written, or else what is left of it. -/
  writeManifest : Option (Option ManifestData)

def FileOps.allDone : FileOps := ⟨fun _ => .done, fun _ => .done, none⟩

/-- The hash of a text, and where in the tree a name is. -/
structure Target (π : Type*) where
  fileHash : Text → Text
  place : Text → π

structure Sync (π : Type*) where
  tree : FileTree π
  working : Manifest
  dirty : Bool := false
  result : UpdateResult := {}

variable {π : Type*} [DecidableEq π]

/-- `working.commands[filename] = ManifestEntry(hash=new_hash, managed=True)`. -/
def Sync.record (s : Sync π) (name newHash : Text) : Sync π :=
  { s with working := s.working.set name ⟨newHash, true⟩, dirty := true }

def Sync.skip (s : Sync π) : Sync π := { s with result := { s.result with skipped := s.result.skipped + 1 } }

def Sync.conflict (s : Sync π) (name : Text) : Sync π :=
  { s with result := { s.result with conflicts := s.result.conflicts ++ [name] } }

/-- `_write_rendered`, or the tree that an error leaves. -/
def writeRendered (tree : FileTree π) (target : π) (rendered : Text) (outcome : WriteOutcome) :
    Except (FileTree π) (FileTree π) :=
  match tree target, outcome with
  | .directory, _ => .error tree
  | _, .done => .ok (Function.update tree target (.file (some rendered)))
  | _, .untouched => .error tree
  | .link _, .unlinked => .error (Function.update tree target .absent)
  | _, .unlinked => .error tree
  | _, .torn text => .error (Function.update tree target (.file text))

/-- The body of the main loop; a source that cannot be read or rendered raises. -/
def syncFile (target : Target π) (ops : FileOps) (force : Bool) (s : Sync π) (source : Text × Option Text) :
    Except (Sync π) (Sync π) :=
  match source with
  | (_, none) => .error s
  | (name, some rendered) =>
    let newHash := target.fileHash rendered
    let node := follow s.tree (target.place name)
    match decision (s.working.get name) newHash node.isFile (node.readText.map target.fileHash) force with
    | .skip => .ok s.skip
    | .adopt => .ok (s.record name newHash).skip
    | .conflict => .ok (s.conflict name)
    | .write =>
      match writeRendered s.tree (target.place name) rendered (ops.write name) with
      | .error tree => .error { s with tree := tree }
      | .ok tree =>
        let s := { s with tree := tree }.record name newHash
        .ok { s with result := { s.result with
          updated := s.result.updated + 1, updatedFiles := s.result.updatedFiles ++ [name] } }

/-- `del working.commands[filename]` of an entry that is reported as removed. -/
def Sync.remove (s : Sync π) (name : Text) : Sync π :=
  { s with
    working := s.working.del name, dirty := true
    result := { s.result with removed := s.result.removed ++ [name] } }

/-- The body of the pruning loop. -/
def pruneFile (target : Target π) (ops : FileOps) (force : Bool) (s : Sync π) (name : Text) :
    Except (Sync π) (Sync π) :=
  match s.working.get name with
  | none => .ok s
  | some entry =>
    let node := follow s.tree (target.place name)
    match pruneDecision entry node.isFile (node.readText.map target.fileHash) force with
    | .keep => .ok s
    | .forget => .ok (s.remove name)
    | .conflict => .ok (s.conflict name)
    | .unlink =>
      match ops.unlink name with
      | .done => .ok ({ s with tree := Function.update s.tree (target.place name) .absent }.remove name)
      | .failed => .ok (s.conflict name)
      | .raised => .error s

/-- `sorted(working.commands)` without the names of the sources. -/
def retired (working : Manifest) (sources : List (Text × Option Text)) : List Text :=
  (working.names.insertionSort fun a b => ¬ b < a).filter fun name => name ∉ sources.map Prod.fst

/-- How a call leaves the tree and the manifest, and what it reports or would have reported. -/
structure SyncOutcome (π : Type*) where
  tree : FileTree π
  manifest : Option ManifestData
  result : UpdateResult
  raised : Bool

/-- The end of a call. -/
def finishSync (ops : FileOps) (manifest : Option ManifestData) :
    Except (Sync π) (Sync π) → SyncOutcome π
  | .error s => ⟨s.tree, manifest, s.result, true⟩
  | .ok s =>
    if s.dirty then
      match ops.writeManifest with
      | none => ⟨s.tree, some s.working.data, { s.result with manifestWritten := true }, false⟩
      | some left => ⟨s.tree, left, s.result, true⟩
    else ⟨s.tree, manifest, s.result, false⟩

/-- The sources that a call looks at. -/
def selectSources (filenames : Option (List Text)) (sources : List (Text × Option Text)) :
    List (Text × Option Text) :=
  match filenames with
  | none => sources
  | some names => sources.filter fun source => source.1 ∈ names

/-- What `read_manifest` gives, or an empty manifest. -/
def workingManifest (manifest : Option ManifestData) : Manifest :=
  (manifest.map ManifestData.manifest).getD {}

/-- The two loops. Only the full set of sources tells which entries are retired. -/
def syncLoops (target : Target π) (ops : FileOps) (force pruneStale : Bool) (filenames : Option (List Text))
    (sources : List (Text × Option Text)) (start : Sync π) : Except (Sync π) (Sync π) := do
  let s ← (selectSources filenames sources).foldlM (syncFile target ops force) start
  if pruneStale ∧ filenames = none then
    (retired s.working sources).foldlM (pruneFile target ops force) s
  else pure s

/-- `_update_files`. `manifest` is the object in the manifest file, if there is a readable one. -/
def updateFiles (target : Target π) (ops : FileOps) (force pruneStale : Bool) (filenames : Option (List Text))
    (sources : List (Text × Option Text)) (tree : FileTree π) (manifest : Option ManifestData) : SyncOutcome π :=
  if filenames.isSome ∧ selectSources filenames sources = [] then ⟨tree, manifest, {}, false⟩
  else
    finishSync ops manifest
      (syncLoops target ops force pruneStale filenames sources
        { tree := tree, working := workingManifest manifest })

end Commands

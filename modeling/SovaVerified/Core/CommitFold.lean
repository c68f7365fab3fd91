import SovaVerified.Exceptions.Exceptions
import SovaVerified.Outside.Outside
import SovaVerified.Review.Findings
import SovaVerified.Utils.Shell

/-!
# Folding a fix into its commit

`sova/core/steps/_commit_fold.py`, with `unstage_suspicious_files` of `sova/git/safety.py`, `get_merge_base` of
`sova/core/pr_diff_guard.py` and `is_agent_artifact` of `sova/core/steps/commit.py`: a fix that lies in the
worktree is committed as a fixup of the commit that it belongs to, and squashed into it.

Git is outside: it has a state of any type, and any command may fail or raise. The commands are written down in
the order in which they are run, the newest first, and so is what each check for marker commits found. The
environment of a rebase is left out, as nothing but git reads it, and so are the lines of the log.
-/

namespace Core.CommitFold

open Exceptions Outside
open Utils.Shell (ShellResult)

/-! ## Git -/

/-- The git commands that are run. -/
inductive GitCommand where
  /-- `git -c core.quotePath=false status --porcelain=v1 -z --untracked-files=all` -/
  | status
  /-- `git rev-parse HEAD` -/
  | revParseHead
  /-- `git rev-parse --verify --quiet <candidate>` -/
  | verify (candidate : Text)
  /-- `git merge-base --is-ancestor <sha> <base_ref>` -/
  | isAncestor (sha baseRef : Text)
  /-- `git log --format=%H <base_ref>..HEAD -- <path>` -/
  | logCommits (baseRef path : Text)
  /-- `git log --format=%s <base_ref>..HEAD` -/
  | logSubjects (baseRef : Text)
  /-- `git log --format=%s -1 <target>` -/
  | logSubject (target : Text)
  /-- `git log --format=%H %s <base_ref>..HEAD` -/
  | logMarkers (baseRef : Text)
  /-- `git diff --cached --name-only` -/
  | stagedNames
  /-- `git diff --quiet <sha>^ <sha>` -/
  | diffQuiet (sha : Text)
  /-- `git add -- <paths>` -/
  | add (paths : List Text)
  /-- `git reset` -/
  | reset
  /-- `git reset HEAD -- <paths>` -/
  | resetPaths (paths : List Text)
  /-- `git reset --soft <sha>` -/
  | resetSoft (sha : Text)
  /-- `git commit --no-verify --fixup <target>` -/
  | commitFixup (target : Text)
  /-- `git merge-base <base_ref> HEAD` -/
  | mergeBase (baseRef : Text)
  /-- `git rebase -i --autosquash --rebase-merges <merge_base>` -/
  | rebaseAutosquash (mergeBase : Text)
  /-- `git rebase --no-autosquash --onto <sha>^ <sha>` -/
  | rebaseOnto (sha : Text)
  /-- `git rebase --abort` -/
  | rebaseAbort
  deriving DecidableEq

/-- What a run writes down. -/
inductive Event where
  | ran (command : GitCommand) (outcome : Except PyException ShellResult)
  /-- `Path.cwd()` was called. -/
  | located (outcome : Except PyException Unit)
  /-- A check for marker commits came to its end; `none`: it could not be answered. -/
  | checked (pending : Option Bool)

/-- What is called. -/
structure Services (ω : Type) where
  run : GitCommand → ω → Except PyException ShellResult × ω
  /-- `Path.cwd()`. -/
  cwd : ω → Except PyException Unit × ω

abbrev Fold (ω α : Type) := Prog ω Event PyException α

/-- The worktree: whether `cwd` is given, and the name of the base branch. -/
structure Worktree where
  hasCwd : Bool := true
  baseBranch : Text

variable {ω : Type}

def run (svc : Services ω) (command : GitCommand) : Fold ω ShellResult :=
  perform (svc.run command) (.ran command)

/-- The lines of an output that are not blank. -/
def outputLines (result : ShellResult) : List Text :=
  if result.success then (Text.lines result.stdout).filter fun line => Text.strip line ≠ [] else []

/-! ## The changed paths -/

/-- The loop of `_changed_paths`. The flag says that the next field is the old path of a rename or a copy. -/
def readFields : Bool → List Text → List Text
  | _, [] => []
  | true, _ :: fields => readFields false fields
  | false, field :: fields =>
    if field = [] then readFields false fields
    else
      let status := field.take 2
      let path := field.drop 3
      let behind := readFields (status.contains 'R' || status.contains 'C') fields
      if path = [] then behind else path :: behind

def changedPaths (svc : Services ω) : Fold ω (List Text) := do
  let result ← run svc .status
  return if result.success then readFields false (result.stdout.splitOn '\x00') else []

def agentArtifactPrefixes : List Text :=
  [".claude/".toList, ".agent-".toList, ".agents/".toList, ".sova-".toList, ".sova/".toList]

def isAgentArtifact (path : Text) : Bool :=
  !".claude/specs/".toList.isPrefixOf path && agentArtifactPrefixes.any fun p => p.isPrefixOf path

/-! ## The commit that a fix belongs to -/

def headSha (svc : Services ω) : Fold ω (Option Text) := do
  let result ← run svc .revParseHead
  return if result.success then some (Text.strip result.stdout) else none

/-- `_is_on_base`: any code but the one for "not an ancestor" counts as being on the base. -/
def isOnBase (svc : Services ω) (sha baseRef : Text) : Fold ω Bool := do
  let result ← run svc (.isAncestor sha baseRef)
  return if result.success then true else result.returncode != 1

/-- The loop of `_resolve_base_ref`. -/
def firstVerified (svc : Services ω) : List Text → Fold ω (Option Text)
  | [] => return none
  | candidate :: candidates => do
    let result ← run svc (.verify candidate)
    if result.success then return some candidate else firstVerified svc candidates

def resolveBaseRef (svc : Services ω) (baseBranch : Text) : Fold ω (Option Text) :=
  firstVerified svc ["origin/".toList ++ baseBranch, baseBranch, "@\x7bupstream\x7d".toList]

/-- The loop over the changed paths: the set of the commits that touched them last, or `none` where a path was
touched by no commit of the branch. -/
def lastCommits (svc : Services ω) (baseRef : Text) : List Text → List Text → Fold ω (Option (List Text))
  | commits, [] => return some commits
  | commits, path :: paths => do
    let result ← run svc (.logCommits baseRef path)
    match outputLines result with
    | [] => return none
    | line :: _ => lastCommits svc baseRef (commits.insert line) paths

/-- The subject of the target is the subject of another commit of the branch, too. -/
def isDuplicateSubject (svc : Services ω) (baseRef target : Text) : Fold ω Bool := do
  let subjects ← run svc (.logSubjects baseRef)
  if subjects.success then
    let targetSubject ← run svc (.logSubject target)
    return targetSubject.success &&
      1 < (Text.lines subjects.stdout).count (Text.strip targetSubject.stdout)
  else return false

/-- `resolve_fixup_target`, for paths that are given. -/
def resolveFixupTarget (svc : Services ω) (baseBranch : Text) (changed : List Text) : Fold ω (Option Text) := do
  match ← headSha svc with
  | none => return none
  | some head =>
    match ← resolveBaseRef svc baseBranch with
    | none => return some head
    | some baseRef =>
      if ← isOnBase svc head baseRef then return none
      else if changed = [] then return some head
      else
        match ← lastCommits svc baseRef [] changed with
        | some [target] =>
          if ← isOnBase svc target baseRef then return some head
          else if ← isDuplicateSubject svc baseRef target then return some head
          else return some target
        | _ => return some head

/-! ## The index -/

def stagedPaths (svc : Services ω) : Fold ω (List Text) := do
  let result ← run svc .stagedNames
  return outputLines result

def restoreStagedPaths (svc : Services ω) (paths : List Text) : Fold ω Unit := do
  let _ ← run svc .reset
  if paths = [] then return ()
  else
    let _ ← run svc (.add paths)
    return ()

def suspiciousPaths : List Text :=
  [".venv".toList, ".env".toList, ".env.local".toList, "credentials.json".toList, ".secrets".toList,
   "node_modules".toList, ".DS_Store".toList, "__pycache__".toList, ".mcp.json".toList]

/-- `_is_suspicious`. The parts of a path are what stands between its slashes; no suspicious one is empty or a
dot. -/
def isSuspicious (path : Text) : Bool :=
  ((Text.strip path).splitOn '/').any fun part => suspiciousPaths.contains part

/-- `SuspiciousUnstageResult`. -/
structure SuspiciousUnstageResult where
  checked : Bool
  unstaged : List Text := []
  stillStaged : List Text := []

/-- `_RESET_CHUNK_SIZE`. -/
def resetChunkSize : Nat := 200

/-- The loop that resets the paths chunk by chunk; the number bounds how many chunks there are. -/
def resetChunks (svc : Services ω) : Nat → List Text → Fold ω Unit
  | 0, _ => return ()
  | n + 1, paths =>
    if paths = [] then return ()
    else do
      let _ ← run svc (.resetPaths (paths.take resetChunkSize))
      resetChunks svc n (paths.drop resetChunkSize)

def unstageSuspiciousFiles (svc : Services ω) : Fold ω SuspiciousUnstageResult := do
  let staged ← run svc .stagedNames
  if staged.success then
    let bad := Review.sortTexts
      (((Text.lines (Text.strip staged.stdout)).filter isSuspicious).map Text.strip).dedup
    if bad = [] then return { checked := true }
    else
      resetChunks svc bad.length bad
      let recheck ← run svc .stagedNames
      if recheck.success then
        let remaining := Text.lines (Text.strip recheck.stdout)
        return { checked := true
                 stillStaged := bad.filter fun f => remaining.contains f
                 unstaged := bad.filter fun f => !remaining.contains f }
      else return { checked := true, stillStaged := bad }
  else return { checked := false }

/-! ## The fixup commit -/

/-- The end of `_fold_uncommitted_changes`, from the scan of the index on. -/
def commitFix (svc : Services ω) (target preFixupHead : Text) (preAddStaged : List Text) :
    Fold ω (Option Text) := do
  let scan ← unstageSuspiciousFiles svc
  if scan.checked && (scan.unstaged ++ scan.stillStaged).isEmpty then
    let fixup ← run svc (.commitFixup target)
    if fixup.success then return some preFixupHead
    else
      restoreStagedPaths svc preAddStaged
      return none
  else
    restoreStagedPaths svc preAddStaged
    return none

/-- `_fold_uncommitted_changes`: the head before the fixup commit, if one was made. -/
def foldUncommittedChanges (svc : Services ω) (baseBranch : Text) : Fold ω (Option Text) := do
  let changed := (← changedPaths svc).filter fun p => !isAgentArtifact p
  if changed = [] then return none
  else
    match ← resolveFixupTarget svc baseBranch changed with
    | none => return none
    | some target =>
      match ← headSha svc with
      | none => return none
      | some preFixupHead =>
        let preAddStaged ← stagedPaths svc
        let added ← run svc (.add changed)
        if added.success then commitFix svc target preFixupHead preAddStaged else return none

/-! ## Marker commits -/

def autosquashPrefixes : List Text := ["fixup! ".toList, "squash! ".toList, "amend! ".toList]

def isMarkerSubject (subject : Text) : Bool := autosquashPrefixes.any fun p => p.isPrefixOf subject

/-- `_has_pending_autosquash_commits`, without the note of what it has found. -/
def pendingMarkers (svc : Services ω) (baseBranch : Text) : Fold ω (Option Bool) := do
  match ← resolveBaseRef svc baseBranch with
  | none => return none
  | some baseRef =>
    let result ← run svc (.logSubjects baseRef)
    return if result.success then some ((Text.lines result.stdout).any isMarkerSubject) else none

def hasPendingAutosquashCommits (svc : Services ω) (baseBranch : Text) : Fold ω (Option Bool) := do
  let pending ← pendingMarkers svc baseBranch
  note (.checked pending)
  return pending

/-- `has_unresolved_marker_commits`. -/
def hasUnresolvedMarkerCommits (svc : Services ω) (baseBranch : Text) : Fold ω Bool :=
  trying (hasPendingAutosquashCommits svc baseBranch) (· == some true)
    fun e => if e.isOsError then some false else none

/-- `_marker_commits`, the oldest first. A line is a hash, a blank and a subject. -/
def markerCommits (svc : Services ω) (baseBranch : Text) : Fold ω (List Text) := do
  match ← resolveBaseRef svc baseBranch with
  | none => return []
  | some baseRef =>
    let result ← run svc (.logMarkers baseRef)
    if result.success then
      let marked := (Text.lines result.stdout).filter fun line =>
        isMarkerSubject ((line.dropWhile (· ≠ ' ')).drop 1)
      return (marked.map fun line => line.takeWhile (· ≠ ' ')).reverse
    else return []

def survivingMarkerSubjects (svc : Services ω) (baseBranch : Text) : Fold ω (List Text) := do
  match ← resolveBaseRef svc baseBranch with
  | none => return []
  | some baseRef =>
    let result ← run svc (.logSubjects baseRef)
    return if result.success then (Text.lines result.stdout).filter isMarkerSubject else []

def isEmptyCommit (svc : Services ω) (sha : Text) : Fold ω Bool := do
  let result ← run svc (.diffQuiet sha)
  return result.returncode == 0

/-- The first marker that carries no diff. -/
def firstEmpty (svc : Services ω) : List Text → Fold ω (Option Text)
  | [] => return none
  | candidate :: candidates => do
    if ← isEmptyCommit svc candidate then return some candidate else firstEmpty svc candidates

/-- `_MAX_MARKER_DROP_ITERATIONS`. -/
def maxMarkerDropIterations : Nat := 10

/-- The loop of `_drop_stranded_empty_markers`, with the iterations that are left. -/
def dropMarkers (svc : Services ω) (baseBranch : Text) : Nat → Bool → Fold ω Bool
  | 0, droppedAny => return droppedAny
  | n + 1, droppedAny => do
    let markers ← markerCommits svc baseBranch
    match ← firstEmpty svc markers with
    | none => return droppedAny
    | some sha =>
      let result ← run svc (.rebaseOnto sha)
      if result.success then dropMarkers svc baseBranch n true
      else
        let _ ← run svc .rebaseAbort
        return droppedAny

def dropStrandedEmptyMarkers (svc : Services ω) (baseBranch : Text) : Fold ω Bool :=
  dropMarkers svc baseBranch maxMarkerDropIterations false

/-! ## The fold -/

/-- `get_merge_base`. -/
def getMergeBase (svc : Services ω) (baseRef : Text) : Fold ω (Option Text) := do
  let result ← run svc (.mergeBase baseRef)
  if result.success then
    let sha := Text.strip result.stdout
    return if sha = [] then none else some sha
  else return none

/-- `cwd or Path.cwd()`. -/
def locate (svc : Services ω) (w : Worktree) : Fold ω Unit :=
  if w.hasCwd then return () else perform svc.cwd .located

def autosquash (svc : Services ω) (w : Worktree) : Fold ω Bool := do
  match ← resolveBaseRef svc w.baseBranch with
  | none => return false
  | some baseRef =>
    locate svc w
    match ← getMergeBase svc baseRef with
    | none => return false
    | some mergeBase =>
      let result ← run svc (.rebaseAutosquash mergeBase)
      if result.success then return true
      else
        let _ ← run svc .rebaseAbort
        return false

/-- The end of `_fold`, where nothing was folded: the own fixup commit is undone. -/
def unwind (svc : Services ω) (w : Worktree) (preFixupHead : Option Text) : Fold ω Bool := do
  match preFixupHead with
  | some head =>
    let _ ← run svc (.resetSoft head)
    return false
  | none =>
    let _ ← survivingMarkerSubjects svc w.baseBranch
    return false

/-- What `_fold` makes of the last check for markers. -/
def settle (svc : Services ω) (w : Worktree) (preFixupHead : Option Text) (squashed : Bool)
    (pendingAfter : Option Bool) : Fold ω Bool :=
  if squashed ∧ pendingAfter = some false ∧ preFixupHead.isSome then return true
  else if pendingAfter = some false ∧ preFixupHead = none then return false
  else unwind svc w preFixupHead

def fold (svc : Services ω) (w : Worktree) : Fold ω Bool := do
  let preFixupHead ← foldUncommittedChanges svc w.baseBranch
  let pending ← hasPendingAutosquashCommits svc w.baseBranch
  if preFixupHead = none ∧ pending = some false then return false
  else
    let squashed ← autosquash svc w
    let pendingAfter ← hasPendingAutosquashCommits svc w.baseBranch
    if squashed ∧ pendingAfter = some false then return true
    else if ← dropStrandedEmptyMarkers svc w.baseBranch then
      let pendingAfter ← hasPendingAutosquashCommits svc w.baseBranch
      settle svc w preFixupHead squashed pendingAfter
    else settle svc w preFixupHead squashed pendingAfter

def foldFixIntoBranch (svc : Services ω) (w : Worktree) : Fold ω Bool :=
  trying (fold svc w) id fun e => if e.isOsError then some false else none

end Core.CommitFold

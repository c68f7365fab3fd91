import Mathlib.Tactic.NormNum
import SovaVerified.Exceptions.Exceptions
import SovaVerified.Regex.Regex
import SovaVerified.Loops.Loops
import SovaVerified.Dashboard.AgentRuns

/-!
# The removal of worktrees

`sova/git/worktree.py`: the four functions that remove a worktree by themselves. They end in the same forced
removal, `cleanup_worktree`, and differ in what they look at before.

What git, the file system, GitHub and the database answer is given. A forced removal that has begun is counted
as one that destroys what is in the directory. The pass of `cleanup_by_issue_state` over the branches is left
out: it removes branches and no worktree.
-/

namespace Git

open Exceptions Dashboard

/-- `ShellResult`, as far as it is read. -/
structure ShellResult where
  success : Bool := true
  stdout : Text := []
  stderr : Text := []
  deriving DecidableEq

/-- A command that `run` starts: it may also fail to start. -/
abbrev Command := Except PyException ShellResult

/-- A directory, and what the commands in it and about it answer. -/
structure Checkout where
  present : Bool := true
  isDir : Bool := true
  -- `stat().st_mtime`, in seconds
  mtime : Except PyException ℚ := .ok 0
  -- the changes that `git status --porcelain` lists, and whether the command succeeds
  changes : Text := []
  statusRead : Except PyException Bool := .ok true
  -- `git branch --show-current`, `git rev-parse --abbrev-ref HEAD` and `git rev-list --count`
  showCurrent : Command := .ok {}
  abbrevRef : Command := .ok {}
  ahead : Command := .ok {}
  -- `git worktree remove --force`, whether it leaves the directory, and `shutil.rmtree` with the prune after it
  gitRemove : Except PyException Bool := .ok true
  leftBehind : Bool := true
  rmtree : Except PyException Unit := .ok ()

/-- A run with the worktree that its row names. -/
structure TrackedRun extends TaskRun where
  worktreePath : Option Text := none

/-- What is there when a function that removes worktrees is called, and what its calls answer. -/
structure WorktreeOutside where
  projectDir : Text
  now : ℚ := 0
  -- `str(Path(p).resolve())`
  resolve : Text → Text := id
  kill : Int → Signalled
  /-- The rows of `task_runs`. Without the database module there are no runs. -/
  runs : Option (List TrackedRun) := some []
  -- the session and the query of `check_worktree_active_agent`
  dbRead : Except PyException Unit := .ok ()
  checkout : Text → Checkout := fun _ => {}
  -- the names that `iterdir` lists in the directory of the worktrees
  entries : List Text := []
  -- `gh issue list`, `git for-each-ref` of a branch, `git worktree list`, `git worktree prune`
  -- and `git rev-parse --show-toplevel`
  closedIssues : Command := .ok {}
  forEachRef : Text → Command := fun _ => .ok {}
  worktreeList : Command := .ok {}
  prune : Command := .ok {}
  toplevel : Command := .ok {}
  -- in `create_worktree`: the parent directory, the artifacts, and all that adds the worktree
  mkdir : Except PyException Unit := .ok ()
  artifacts : Except PyException Unit := .ok ()
  add : Except PyException Unit := .ok ()

/-- `<project_dir>/.claude/worktrees/<name>`. -/
def WorktreeOutside.pathOf (o : WorktreeOutside) (name : Text) : Text :=
  o.projectDir ++ "/.claude/worktrees/".toList ++ name

/-! ## What the paths share -/

/-- `cleanup_worktree`: whether the directory is destroyed, and how the call ends. -/
def cleanupWorktree (d : Checkout) : Bool × Option PyException :=
  match d.gitRemove with
  | .error e => (false, some e)
  | .ok true => (true, none)
  | .ok false =>
    if d.leftBehind then
      match d.rmtree with
      | .error e => (true, some e)
      | .ok () => (true, none)
    else (false, none)

/-- The terminal statuses of `check_worktree_active_agent`: a run that waits for an approval is not finished. -/
def worktreeTerminal : List RunStatus := [.done, .failed, .rejected, .interrupted, .paused, .stopped]

/-- The run of the row is active in the worktree. -/
def isActiveIn (o : WorktreeOutside) (path : Text) (run : TrackedRun) : Bool :=
  !worktreeTerminal.contains run.status &&
    run.worktreePath.any (fun wt => !wt.isEmpty && o.resolve wt == o.resolve path) &&
    run.pid.any fun pid => pid != 0 && isProcessAlive o.kill pid

/-- `check_worktree_active_agent`. -/
def checkWorktreeActiveAgent (o : WorktreeOutside) (path : Text) : Except PyException (Option Int) :=
  match o.runs with
  | none => .ok none
  | some runs =>
    match o.dbRead with
    | .error e => .error (if e.isServiceError then .runtimeError else e)
    | .ok () => .ok ((runs.find? (isActiveIn o path)).bind fun run => run.pid)

/-! ## Worktrees that are too old -/

/-- What a loop over the directories did at one of them. -/
structure Visit where
  destroyed : Bool := false
  counted : Bool := false
  error : Option PyException := none
  deriving DecidableEq

/-- `age_days > ttl_days`. -/
def isTooOld (o : WorktreeOutside) (ttlDays : Int) (mtime : ℚ) : Bool := (o.now - mtime) / 86400 > ttlDays

/-- The body of the loop of `cleanup_stale_worktrees`. -/
def visitStale (o : WorktreeOutside) (ttlDays : Int) (name : Text) : Visit × Option PyException :=
  let d := o.checkout (o.pathOf name)
  if !d.isDir then ({}, none)
  else
    match d.mtime with
    | .error e => ({}, some e)
    | .ok mtime =>
      if isTooOld o ttlDays mtime then
        let cleanup := cleanupWorktree d
        ({ destroyed := cleanup.1, counted := cleanup.2.isNone }, cleanup.2)
      else ({}, none)

/-- What a loop over the directories comes to: the ones that are destroyed, the number that is returned, and
the exception that ends the loop. -/
structure Sweep where
  destroyed : List Text
  removed : Nat
  errors : List PyException
  raised : Option PyException

def sweep (body : Text → Visit × Option PyException) (entries : List Text) : Sweep :=
  let t := Loops.trail body entries
  { destroyed := (t.1.filter fun v => v.2.destroyed).map Prod.fst
    removed := t.1.countP fun v => v.2.counted
    errors := t.1.filterMap fun v => v.2.error
    raised := t.2 }

/-- `cleanup_stale_worktrees`. -/
def cleanupStaleWorktrees (o : WorktreeOutside) (ttlDays : Int) : Sweep :=
  sweep (visitStale o ttlDays) o.entries

/-! ## Worktrees of closed issues -/

/-- `_fetch_closed_issues`. -/
def fetchClosedIssues (o : WorktreeOutside) : Except PyException (List Text) :=
  o.closedIssues.map fun result =>
    if result.success then ((Text.lines result.stdout).map Text.strip).filter fun l => !l.isEmpty else []

/-- `_JIRA_KEY_RE`, without the anchors. -/
def jiraKeyRe : Regex :=
  let upper (c : Char) : Bool := 'A' ≤ c && c ≤ 'Z'
  Regex.cat [.chr upper, .rep 1 none fun c => upper c || ('0' ≤ c && c ≤ '9'), .chr (· == '-'),
    .rep 1 none Text.isDecimal]

/-- `_JIRA_KEY_RE.match`: the last anchor also matches in front of a line feed at the end. -/
def isJiraKey (name : Text) : Bool :=
  Regex.fullMatch jiraKeyRe name ||
    (name.getLast? == some '\n' && Regex.fullMatch jiraKeyRe name.dropLast)

/-- `_has_gone_upstream`. -/
def hasGoneUpstream (o : WorktreeOutside) (branch : Text) : Except PyException Bool :=
  (o.forEachRef branch).map fun result =>
    let line := Text.strip result.stdout
    let upstream := Text.before "|".toList line
    result.success && !upstream.isEmpty && Text.isIn "gone".toList (line.drop (upstream.length + 1))

/-- Whether the worktree of an issue is one to remove. -/
def isEligible (o : WorktreeOutside) (closed : List Text) (name : Text) : Except PyException Bool :=
  if closed.contains name then .ok true
  else if isJiraKey name then do
    let result ← (o.checkout (o.pathOf name)).showCurrent
    let branch := if result.success then Text.strip result.stdout else []
    if branch.isEmpty then return false
    hasGoneUpstream o branch
  else .ok false

/-- The removal of a worktree that passed the checks. -/
def removeChecked (d : Checkout) (dryRun : Bool) : Visit × Option PyException :=
  if dryRun then ({ counted := true }, none)
  else
    match cleanupWorktree d with
    | (destroyed, none) => ({ destroyed := destroyed, counted := true }, none)
    | (destroyed, some e) =>
      if e.isOsOrRuntime then ({ destroyed := destroyed, error := some e }, none)
      else ({ destroyed := destroyed }, some e)

/-- The body of the loop of `cleanup_by_issue_state`. -/
def visitByIssueState (o : WorktreeOutside) (closed : List Text) (dryRun : Bool) (name : Text) :
    Visit × Option PyException :=
  let path := o.pathOf name
  let d := o.checkout path
  if !d.isDir then ({}, none)
  else
    match isEligible o closed name with
    | .error e => ({}, some e)
    | .ok false => ({}, none)
    | .ok true =>
      match checkWorktreeActiveAgent o path with
      | .error e => ({}, some e)
      | .ok (some _) => ({}, none)
      | .ok none =>
        match d.statusRead with
        | .error e => ({}, some e)
        | .ok false => ({}, none)
        | .ok true => if (Text.strip d.changes).isEmpty then removeChecked d dryRun else ({}, none)

/-- `cleanup_by_issue_state`, without the branches. -/
def cleanupByIssueState (o : WorktreeOutside) (dryRun : Bool) : Sweep :=
  match fetchClosedIssues o with
  | .error e => { destroyed := [], removed := 0, errors := [], raised := some e }
  | .ok closed =>
    match o.worktreeList with
    | .error e => { destroyed := [], removed := 0, errors := [], raised := some e }
    | .ok _ => sweep (visitByIssueState o closed dryRun) o.entries

/-! ## A branch that is checked out elsewhere -/

/-- The lines of `git worktree list --porcelain`, read from the path that was named last. -/
def scanListing (branch : Text) : Option Text → List Text → Option Text
  | _, [] => none
  | current, line :: lines =>
    if "worktree ".toList.isPrefixOf line then scanListing branch (some (line.drop 9)) lines
    else if "branch refs/heads/".toList.isPrefixOf line && line.drop 18 == branch && current.isSome then current
    else scanListing branch current lines

/-- `find_worktree_by_branch`. -/
def findWorktreeByBranch (o : WorktreeOutside) (branch : Text) : Except PyException (Option Text) :=
  o.worktreeList.map fun result =>
    if result.success then scanListing branch none (Text.lines result.stdout) else none

/-- How a call that is about one worktree ends: what it destroys, and what it returns or raises. -/
structure Outcome where
  destroyed : List Text := []
  result : Except PyException (Option Text)

/-- The forced removal of one worktree, and what follows it. -/
def removeThen (d : Checkout) (path : Text) (rest : Except PyException (Option Text)) : Outcome :=
  let cleanup := cleanupWorktree d
  { destroyed := if cleanup.1 then [path] else []
    result := match cleanup.2 with
      | some e => .error e
      | none => rest }

/-- `resolve_worktree_conflict` from the worktree that has the branch. -/
def resolveConflictAt (o : WorktreeOutside) (path : Text) : Outcome :=
  match o.toplevel with
  | .error e => { result := .error e }
  | .ok toplevel =>
    if !toplevel.success then { result := .error .runtimeError }
    else if o.resolve (Text.strip toplevel.stdout) == o.resolve path then { result := .error .runtimeError }
    else if !(o.checkout path).present then { result := .ok (some path) }
    else
      match checkWorktreeActiveAgent o path with
      | .error e => { result := .error e }
      | .ok (some _) => { result := .error .runtimeError }
      | .ok none => removeThen (o.checkout path) path (.ok (some path))

/-- `resolve_worktree_conflict`. -/
def resolveWorktreeConflict (o : WorktreeOutside) (branch : Text) : Outcome :=
  match o.prune with
  | .error e => { result := .error e }
  | .ok _ =>
    match findWorktreeByBranch o branch with
    | .error e => { result := .error e }
    | .ok none => { result := .ok none }
    | .ok (some path) => resolveConflictAt o path

/-! ## A new worktree -/

/-- The check of the identifier in `create_worktree`. -/
def isPathTraversal (issueId : Text) : Bool :=
  Text.isIn "..".toList issueId || issueId.contains '/' || issueId.head? == some '\\'

/-- The worktree that is there is on the branch already. -/
def isOnBranch (head : ShellResult) (branch : Text) : Bool :=
  head.success && Text.strip head.stdout == branch

/-- `create_worktree`. -/
def createWorktree (o : WorktreeOutside) (issueId branch : Text) : Outcome :=
  let path := o.pathOf issueId
  let d := o.checkout path
  if isPathTraversal issueId then { result := .error .valueError }
  else
    match o.mkdir with
    | .error e => { result := .error e }
    | .ok () =>
      let created : Except PyException (Option Text) := o.add.map fun _ => some path
      if !d.present then { result := created }
      else
        match d.abbrevRef with
        | .error e => { result := .error e }
        | .ok head =>
          if isOnBranch head branch then
            { result := do
                let _ ← d.ahead
                o.artifacts
                return some path }
          else removeThen d path created

/-! ## The four paths -/

inductive Removal where
  | staleWorktrees (ttlDays : Int)
  | byIssueState (dryRun : Bool)
  | resolveConflict (branch : Text)
  | create (issueId branch : Text)
  deriving DecidableEq

/-- The directories that a call destroys. -/
def destroyedBy (o : WorktreeOutside) : Removal → List Text
  | .staleWorktrees ttlDays => (cleanupStaleWorktrees o ttlDays).destroyed.map o.pathOf
  | .byIssueState dryRun => (cleanupByIssueState o dryRun).destroyed.map o.pathOf
  | .resolveConflict branch => (resolveWorktreeConflict o branch).destroyed
  | .create issueId branch => (createWorktree o issueId branch).destroyed

end Git

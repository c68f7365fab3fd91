import Mathlib.Data.List.Sort
import SovaVerified.Git.Worktree
import SovaVerified.Json.Rounding
import SovaVerified.Outside.Outside

/-!
# Rebase with conflict resolution

`sova/git/rebase.py`: `rebase_with_conflict_resolution`, which rebases a worktree onto a base branch and lets
models resolve the conflicts. Git, the files of the worktree and the models are outside: they have a state of
any type, and any call may raise. The git commands, the conflict checks and the calls of models are written
down in the order in which they were made, the newest first; the reading and writing of files is not.

Environments and prompts are left out, as nothing but the called program reads them.
-/

namespace Git.Rebase

open Outside

/-- The git commands of a rebase. -/
inductive GitCommand where
  /-- `git config --local merge.conflictstyle diff3` -/
  | configDiff3
  /-- `git fetch origin <base>` -/
  | fetch (base : Text)
  /-- `unstage_command(WORKTREE_STASH_EXCLUDED_PATHS)` -/
  | unstage
  /-- `git stash --include-untracked -- <pathspecs>` -/
  | stash
  /-- `git stash pop` -/
  | stashPop
  /-- `git rebase <onto>` -/
  | rebase (onto : Text)
  /-- `git rebase --abort` -/
  | rebaseAbort
  /-- `git rebase --continue` -/
  | rebaseContinue
  /-- `git diff --name-only --diff-filter=U` -/
  | unmerged
  /-- `git add <file>` -/
  | add (file : Text)
  deriving DecidableEq

/-- What a run writes down. -/
inductive Event where
  | ran (command : GitCommand) (outcome : Except PyException ShellResult)
  /-- A conflict check came to its end; `none`: it could not run. -/
  | checked (files : Option (List Text))
  /-- A call of the interactive model. -/
  | resolving (files : List Text)
  /-- A round of the consensus models over the conflicted files. -/
  | round (models files : List Text)
  /-- A call of a consensus model about a file. -/
  | asked (model file : Text)

/-- `_load_consensus_config`: the models, and whether a count of a total reaches the threshold. -/
structure ConsensusConfig where
  models : List Text := []
  reaches : Nat → Nat → Bool

/-- What is called. -/
structure Services (ω : Type) where
  run : GitCommand → ω → Except PyException ShellResult × ω
  readText : Text → ω → Except PyException Text × ω
  writeText : Text → Text → ω → Except PyException Unit × ω
  /-- `clear_conflicting_runtime_files`. -/
  clearConflictingRuntimeFiles : Text → ω → Except PyException Unit × ω
  /-- It catches every exception. -/
  loadConsensusConfig : ω → ConsensusConfig × ω
  /-- `_create_providers`: whether there are any. It catches every exception. -/
  createProviders : List Text → ω → Bool × ω
  /-- The prompt for a model about a file with the given content, and `provider.invoke` with it. -/
  askModel : Text → Text → Text → Option ℚ → ω → Except PyException (Text × ℚ) × ω
  /-- `invoke_command` of `_resolve_conflicts_with_llm`: the cost of the call. -/
  resolveConflicts : List Text → Option Text → Option ℚ → ω → Except PyException ℚ × ω
  /-- `str(exc)`. -/
  errorText : PyException → Text

/-- `except (OSError, UnicodeDecodeError)`. -/
def isReadError (e : PyException) : Bool := e.isOsError || e == .other "UnicodeDecodeError".toList

/-- `except Exception`: all but the exceptions that are meant to end a task or the process. -/
def isException (e : PyException) : Bool :=
  !(["CancelledError", "KeyboardInterrupt", "SystemExit", "GeneratorExit"].any
    fun name => e == .other name.toList)

/-- `RebaseResult`. -/
structure RebaseResult where
  success : Bool
  conflictsResolved : Nat := 0
  error : Text := []
  deriving DecidableEq

/-! ## Texts with conflicts -/

/-- A line of seven characters of a kind, and nothing or a blank and anything after them. -/
def isMarked (kind : Char → Bool) (line : Text) : Bool :=
  let front := line.take 7
  front.length == 7 && front.all kind && (line.length == 7 || (line.drop 7).head?.any (· == ' '))

/-- `_CONFLICT_MARKER_RE` on one line. -/
def isMarkerLine (line : Text) : Bool :=
  isMarked (fun c => c == '<' || c == '>' || c == '|') line || line == List.replicate 7 '='

/-- `_CONFLICT_FENCE_RE` on one line. -/
def isFenceLine (line : Text) : Bool := isMarked (· == '<') line || isMarked (· == '>') line

/-- `_has_conflict_markers`. -/
def hasConflictMarkers (text : Text) : Bool := (text.splitOn '\n').any isMarkerLine

/-- `_has_unresolved_conflict`. -/
def hasUnresolvedConflict (text : Text) : Bool := (text.splitOn '\n').any isFenceLine

/-- `_count_non_marker_lines`. -/
def countNonMarkerLines (content : Text) : Nat := (Text.lines content).countP fun l => !isMarkerLine l

/-- `_is_valid_resolution`. -/
def isValidResolution (text : Text) (originalNonMarkerLines : Nat) : Bool :=
  !hasConflictMarkers text &&
    (originalNonMarkerLines == 0 ||
      originalNonMarkerLines ≤ 2 * (Text.lines (Text.strip text)).length)

def rstripBy (drop : Char → Bool) (text : Text) : Text := (text.reverse.dropWhile drop).reverse

/-- `text.replace("\r\n", "\n")`. -/
def replaceCrLf : Text → Text
  | '\r' :: '\n' :: text => '\n' :: replaceCrLf text
  | c :: text => c :: replaceCrLf text
  | [] => []

/-- `_normalize_resolution`. -/
def normalizeResolution (text : Text) : Text :=
  let lines := (replaceCrLf text).splitOn '\n'
  rstripBy (· == '\n') (Text.join ['\n'] (lines.map (rstripBy Text.isSpace)))

/-- The groups of `_select_consensus`: each text that comes up, with the places at which it does. -/
def addToGroups (groups : List (Text × List Nat)) (entry : Text × Nat) : List (Text × List Nat) :=
  match groups with
  | [] => [(entry.1, [entry.2])]
  | (norm, indices) :: groups =>
    if norm = entry.1 then (norm, indices ++ [entry.2]) :: groups
    else (norm, indices) :: addToGroups groups entry

/-- `_select_consensus`. -/
def selectConsensus (resolutions : List Text) (reaches : Nat → Nat → Bool) : Option Text :=
  if resolutions.length < 2 then none
  else
    let normalized := resolutions.map normalizeResolution
    let groups := normalized.zipIdx.foldl addToGroups []
    let sorted := groups.insertionSort fun a b => b.2.length ≤ a.2.length
    match sorted.find? fun g => reaches g.2.length normalized.length with
    | none => none
    | some g => g.2.head?.bind fun i => resolutions[i]?

/-- `count >= total * threshold`. The total is made a float first; no list is so long that it does not fit. -/
def reaches (threshold : PyFloat) (count total : Nat) : Bool :=
  ((PyFloat.round (total * PyFloat.one : Nat)).mul threshold).leInt count

/-- `_update_error_tracking`. -/
def updateErrorTracking (stderr currentError : Text) : Text :=
  if stderr ≠ [] ∧ Text.isIn "no rebase in progress".toList (Text.lower stderr) = false then stderr.take 300
  else currentError

/-- The files that `git diff` lists. -/
def fileNames (stdout : Text) : List Text :=
  ((Text.lines (Text.strip stdout)).map Text.strip).filter (· ≠ [])

/-- `result.stderr or result.stdout`. -/
def errorOutput (result : ShellResult) : Text :=
  if result.stderr ≠ [] then result.stderr else result.stdout

/-- The changes were stashed. -/
def pushed (result : ShellResult) : Bool :=
  result.success && !Text.isIn "No local changes to save".toList result.stdout

/-- A share of a budget, if there is one. -/
def shareOf (budget : Option ℚ) (n : Nat) : Option ℚ :=
  (budget.filter (· ≠ 0)).map (· / n)

abbrev Action (ω α : Type) := Prog ω Event PyException α

section

variable {ω : Type} (services : Services ω)

def run (command : GitCommand) : Action ω ShellResult :=
  perform (services.run command) (Event.ran command)

/-! ## Conflict checks -/

/-- `_get_conflicted_files`. -/
def getConflictedFiles : Action ω (Option (List Text)) := do
  let result ← run services .unmerged
  let files := if result.success then some (fileNames result.stdout) else none
  note (.checked files)
  pure files

/-- `_file_has_conflict`. -/
def fileHasConflict (path : Text) : Action ω Bool :=
  trying (act (services.readText path)) hasUnresolvedConflict fun e =>
    if isReadError e then some false else none

/-- The loop of `_unresolved_paths`. -/
def addConflicted (unresolved : List Text) : List Text → Action ω (List Text)
  | [] => pure unresolved
  | path :: files => do
    if path ∈ unresolved then addConflicted unresolved files
    else
      let conflict ← fileHasConflict services path
      addConflicted (if conflict then unresolved ++ [path] else unresolved) files

/-- `_unresolved_paths`. -/
def unresolvedPaths (files : List Text) : Action ω (Option (List Text)) := do
  match ← getConflictedFiles services with
  | none => pure none
  | some unmerged =>
    let unresolved ← addConflicted services unmerged files
    note (.checked (some unresolved))
    pure (some unresolved)

/-! ## Consensus -/

/-- `_invoke_model` of `_resolve_file_with_consensus`. -/
def invokeModel (filename content : Text) (budget : Option ℚ) (model : Text) :
    Action ω (Option Text × ℚ) := do
  note (.asked model filename)
  trying (act (services.askModel model filename content budget)) (fun answer => (some answer.1, answer.2))
    fun e => if isException e then some (none, 0) else none

/-- `_resolve_file_with_consensus`. -/
def resolveFileWithConsensus (config : ConsensusConfig) (budget : Option ℚ) (filename content : Text) :
    Action ω (Option Text × ℚ) := do
  if config.models.length < 2 then pure (none, 0)
  else
    let perModel := shareOf budget config.models.length
    let results ← gather (config.models.map (invokeModel services filename content perModel))
    let valid := results.filterMap fun r =>
      r.1.filter fun text => isValidResolution text (countNonMarkerLines content)
    pure (selectConsensus valid config.reaches, (results.map Prod.snd).sum)

/-- The loop of `_try_consensus_resolution`. -/
def resolveFiles (config : ConsensusConfig) (budget : Option ℚ) (cost : ℚ) :
    List Text → Action ω (Bool × ℚ)
  | [] => pure (true, cost)
  | filepath :: files => do
    let content ← trying (act (services.readText filepath)) some fun e =>
      if isReadError e then some none else none
    match content with
    | none => pure (false, cost)
    | some content =>
      let (resolved, fileCost) ← resolveFileWithConsensus services config budget filepath content
      match resolved with
      | none => pure (false, cost + fileCost)
      | some text =>
        act (services.writeText filepath text)
        let stage ← run services (.add filepath)
        if stage.success then resolveFiles config budget (cost + fileCost) files
        else pure (false, cost + fileCost)

/-- `_try_consensus_resolution`. -/
def tryConsensusResolution (config : ConsensusConfig) (budget : Option ℚ) (files : List Text) :
    Action ω (Bool × ℚ) := do
  note (.round config.models files)
  resolveFiles services config (if files = [] then none else shareOf budget files.length) 0 files

/-! ## The rebase -/

/-- What `rebase_with_conflict_resolution` works with once the rebase is started. -/
structure Settings where
  maxAttempts : Nat := 3
  maxCommits : Nat := 5
  model : Option Text := none
  budget : Option ℚ := none
  /-- The consensus models, unless they are not used. -/
  consensus : Option ConsensusConfig := none
  stashed : Bool := false

/-- The local variables of the loop over commits. -/
structure Progress where
  conflicted : List Text
  resolved : Nat := 0
  lastError : Text := []
  cost : ℚ := 0

/-- What a turn of the loop over commits comes to. -/
inductive Turn where
  | goOn (progress : Progress)
  | leave (progress : Progress)
  | done (result : RebaseResult) (cost : ℚ)

variable (settings : Settings)

/-- `_pop_stash`. -/
def popStash : Action ω Bool := do
  if settings.stashed then
    let pop ← run services .stashPop
    pure pop.success
  else pure true

/-- The rebase is aborted, the stash restored, and the result is a failure. -/
def giveUp (resolved : Nat) (error : Text) : Action ω RebaseResult := do
  let _ ← run services .rebaseAbort
  let _ ← popStash services settings
  pure { success := false, conflictsResolved := resolved, error := error }

/-- `_abort_unverifiable`. -/
def abortUnverifiable (p : Progress) : Action ω Turn := do
  let result ← giveUp services settings p.resolved
    "Could not verify conflict resolution: the git conflict check failed".toList
  pure (.done result p.cost)

/-- The rebase is complete. -/
def finish (p : Progress) : Action ω Turn := do
  if ← popStash services settings then
    pure (.done { success := true, conflictsResolved := p.resolved } p.cost)
  else pure (.done { success := false, error := "Stash restore failed after rebase".toList } p.cost)

/-- The end of the loop over attempts. -/
inductive Attempted where
  | failed (error : Text)
  | unverifiable
  | clean (conflicted : List Text)
  | unresolved (remaining : List Text)

/-- The loop over attempts, of which the given number is left. -/
def attempts (conflicted remaining : List Text) (cost : ℚ) : Nat → Action ω (Attempted × ℚ)
  | 0 => pure (if remaining = [] then .clean conflicted else .unresolved remaining, cost)
  | left + 1 => do
    note (.resolving conflicted)
    let answer ← trying (act (services.resolveConflicts conflicted settings.model settings.budget))
      Except.ok fun e => if e = .runtimeError then some (Except.error (services.errorText e)) else none
    match answer with
    | .error error => pure (.failed error, cost)
    | .ok callCost =>
      match ← unresolvedPaths services conflicted with
      | none => pure (.unverifiable, cost + callCost)
      | some [] => pure (.clean conflicted, cost + callCost)
      | some (file :: files) => attempts (file :: files) (file :: files) (cost + callCost) left

/-- The end of a turn: the conflicts of the commit are resolved. -/
def continueResolved (p : Progress) : Action ω Turn := do
  let p := { p with resolved := p.resolved + p.conflicted.length }
  let cont ← run services .rebaseContinue
  if cont.success then finish services settings p
  else
    let p := { p with lastError := updateErrorTracking cont.stderr p.lastError }
    match ← unresolvedPaths services p.conflicted with
    | none => abortUnverifiable services settings p
    | some next => pure (.goOn { p with conflicted := next })

/-- The interactive model resolves the conflicts of a commit. -/
def resolveCommit (p : Progress) : Action ω Turn := do
  let (outcome, cost) ← attempts services settings p.conflicted [] p.cost settings.maxAttempts
  match outcome with
  | .failed error => do
    let result ← giveUp services settings p.resolved error
    pure (.done result cost)
  | .unverifiable => abortUnverifiable services settings { p with cost := cost }
  | .unresolved remaining => do
    let result ← giveUp services settings p.resolved
      ("Unresolved conflicts after ".toList ++ (toString settings.maxAttempts).toList ++
        " attempts: ".toList ++ Text.join ", ".toList remaining)
    pure (.done result cost)
  | .clean conflicted => continueResolved services settings { p with conflicted := conflicted, cost := cost }

/-- The consensus models have not resolved the conflicts of a commit. -/
def fallBack (p : Progress) : Action ω Turn := do
  match ← getConflictedFiles services with
  | some (file :: files) => resolveCommit services settings { p with conflicted := file :: files }
  | _ => resolveCommit services settings p

/-- The consensus models resolve the conflicts of a commit, or else the interactive model does. -/
def resolveByConsensus (config : ConsensusConfig) (p : Progress) : Action ω Turn := do
  let (resolved, cost) ← tryConsensusResolution services config settings.budget p.conflicted
  let p := { p with cost := p.cost + cost }
  if resolved then
    match ← unresolvedPaths services p.conflicted with
    | none => abortUnverifiable services settings p
    | some [] => do
      let p := { p with resolved := p.resolved + p.conflicted.length }
      let cont ← run services .rebaseContinue
      if cont.success then finish services settings p
      else
        let p := { p with lastError := updateErrorTracking cont.stderr p.lastError }
        match ← getConflictedFiles services with
        | none => abortUnverifiable services settings p
        | some next => pure (.goOn { p with conflicted := next })
    | some _ => fallBack services settings p
  else fallBack services settings p

/-- One turn of the loop over commits. -/
def commitTurn (p : Progress) : Action ω Turn := do
  if p.conflicted = [] then
    let cont ← run services .rebaseContinue
    if cont.success then finish services settings p
    else pure (.leave { p with lastError := updateErrorTracking cont.stderr p.lastError })
  else
    match settings.consensus with
    | some config => resolveByConsensus services settings config p
    | none => resolveCommit services settings p

/-- The loop over commits, of which the given number is left: `goOn` is its end at the cap. -/
def commitLoop (p : Progress) : Nat → Action ω Turn
  | 0 => pure (.goOn p)
  | left + 1 => do
    match ← commitTurn services settings p with
    | .goOn p => commitLoop p left
    | turn => pure turn

/-- The conflicts of a rebase are resolved, commit by commit. Where no commit is allowed, the message of
the cap reads a variable that was never set. -/
def resolveRebase (p : Progress) : Action ω (RebaseResult × ℚ) := do
  match ← commitLoop services settings p settings.maxCommits with
  | .done result cost => pure (result, cost)
  | .leave p => do
    let result ← giveUp services settings p.resolved
      (rstripBy (fun c => c == ':' || c == ' ')
        ("Rebase could not be completed: ".toList ++ p.lastError.take 200))
    pure (result, p.cost)
  | .goOn p => do
    let cap := (toString settings.maxCommits).toList
    let result ← giveUp services settings p.resolved
      ("Exceeded max commits cap (".toList ++ cap ++ ", processed ".toList ++ cap ++
        " commits) during rebase".toList)
    if settings.maxCommits = 0 then raise (.other "UnboundLocalError".toList)
    else pure (result, p.cost)

/-- From `git rebase` on. -/
def rebaseOnto (base : Text) : Action ω (RebaseResult × ℚ) := do
  let result ← run services (.rebase ("origin/".toList ++ base))
  if result.success then
    if ← popStash services settings then pure ({ success := true }, 0)
    else pure ({ success := false, error := "Stash restore failed after clean rebase".toList }, 0)
  else
    let initialError := (errorOutput result).take 300
    match ← getConflictedFiles services with
    | some (file :: files) =>
      resolveRebase services settings { conflicted := file :: files, lastError := initialError }
    | _ => do
      let result ← giveUp services settings 0 ("Rebase failed: ".toList ++ initialError)
      pure (result, 0)

/-- The consensus models that are used: at least two, for which there are providers. -/
def consensusModels : Action ω (Option ConsensusConfig) := do
  let config ← act fun w => (.ok (services.loadConsensusConfig w).1, (services.loadConsensusConfig w).2)
  if 2 ≤ config.models.length then
    let _ ← run services .configDiff3
    let available ← act fun w =>
      (.ok (services.createProviders config.models w).1, (services.createProviders config.models w).2)
    pure (if available then some config else none)
  else pure none

/-- `rebase_with_conflict_resolution`. -/
def rebaseWithConflictResolution (base : Text) (model : Option Text) (maxBudgetUsd : Option ℚ)
    (maxAttempts maxCommits : Nat) : Action ω (RebaseResult × ℚ) := do
  let consensus ← consensusModels services
  let fetch ← run services (.fetch base)
  if fetch.success then
    let _ ← run services .unstage
    let cleared ← trying (act (services.clearConflictingRuntimeFiles ("origin/".toList ++ base)))
      (fun _ => none) fun e => if e = .runtimeError then some (some (services.errorText e)) else none
    match cleared with
    | some error => pure ({ success := false, error := error.take 300 }, 0)
    | none => do
      let stash ← run services .stash
      rebaseOnto services
        { maxAttempts := maxAttempts
          maxCommits := maxCommits
          model := model
          budget := maxBudgetUsd
          consensus := consensus
          stashed := pushed stash }
        base
  else pure ({ success := false, error := "Fetch failed: ".toList ++ fetch.stderr.take 200 }, 0)

end

end Git.Rebase

import SovaVerified.Tables.Tables
import SovaVerified.Text.Text

/-!
# The merge queue monitor

`sova/dashboard/services/merge_queue_monitor.py`: a loop that asks GitHub for every queued entry and settles
it as merged, ejected or timed out. It asks for the status in the queue (`get_merge_queue_status` of
`sova/git/merge.py`) and, for a pull request that is not queued, for the pull request itself
(`get_pr_status` of `sova/git/pr.py`). Answers, failures and times are parameters.
-/

namespace Dashboard

/-! ## The two reads -/

/-- `mergeQueueEntry` of the answer. -/
structure QueuedPr where
  state : Option Text := none
  deriving DecidableEq

/-- `pullRequest` of the answer. -/
structure QueuePullRequest where
  merged : Bool := false
  mergeQueueEntry : Option QueuedPr := none
  deriving DecidableEq

/-- How the read of the queue ends. `failed` is a command that fails, `raised` an exception of it or of the
shape of its answer; `data none` is an answer without a pull request. -/
inductive QueueAnswer where
  | raised
  | failed
  | badJson
  | data (pullRequest : Option QueuePullRequest)
  deriving DecidableEq

structure MergeQueueStatus where
  inQueue : Bool
  state : Text
  deriving DecidableEq

/-- `is_merged`. -/
def MergeQueueStatus.isMerged (s : MergeQueueStatus) : Bool := s.state == "MERGED".toList

/-- `is_failed`. -/
def MergeQueueStatus.isFailed (s : MergeQueueStatus) : Bool :=
  s.state == "UNMERGEABLE".toList || s.state == "LOCKED".toList

/-- `get_merge_queue_status`; `none` when it raises. -/
def getMergeQueueStatus (repo : Text) (answer : QueueAnswer) : Option MergeQueueStatus :=
  -- `owner, name = repo.split("/", 1)`
  if !repo.contains '/' then none
  else
    match answer with
    | .raised => none
    | .failed => some { inQueue := true, state := "UNKNOWN".toList }
    | .badJson => some { inQueue := true, state := "UNKNOWN".toList }
    | .data pullRequest =>
      let prData := pullRequest.getD {}
      if prData.merged then some { inQueue := false, state := "MERGED".toList }
      else
        match prData.mergeQueueEntry with
        | none => some { inQueue := false, state := "NOT_QUEUED".toList }
        | some entry => some { inQueue := true, state := entry.state.getD "QUEUED".toList }

/-- How `get_pr_status` ends: with a state, if the answer holds one, with a `RuntimeError` or an `OSError`,
or with another exception. -/
inductive DirectAnswer where
  | status (state : Option Text)
  | failed
  | raised
  deriving DecidableEq

/-- `_check_pr_merged_directly`; `none` when it raises. -/
def checkPrMergedDirectly : DirectAnswer → Option Bool
  | .status state => some (state == some "MERGED".toList)
  | .failed => some false
  | .raised => none

/-! ## Entries -/

inductive EntryStatus where
  | queued
  | merged
  | ejected
  | timeout
  deriving DecidableEq, Repr

/-- `MergeQueueEntry`. Times are in microseconds. -/
structure MergeQueueEntry where
  id : Nat
  prNumber : Int
  repo : Text
  issueNumber : Option Text := none
  projectDir : Text
  enqueuedAt : Int
  branchName : Text := []
  status : EntryStatus := .queued
  deriving DecidableEq

/-- How a part of the clean-up ends: an exception that it does not catch goes through. -/
inductive CleanupOutcome where
  | done
  | caught
  | raised
  deriving DecidableEq

/-- What one check of an entry meets. -/
structure CheckAnswers where
  queue : QueueAnswer
  direct : DirectAnswer := .raised
  now : Int := 0
  /-- `merge_queue_timeout`, in seconds, as it is configured at the time. -/
  mergeQueueTimeout : Int := 3600
  deleteBranch : CleanupOutcome := .done
  transitionIssue : CleanupOutcome := .done
  worktreeExists : Bool := false
  cleanupWorktree : CleanupOutcome := .done
  /-- Whether the new status reaches the database. -/
  updated : Bool := true
  deriving DecidableEq

/-- The table, the entries that the running cycle has loaded and not checked yet, the entries whose post-merge
clean-up ran through, and the checks so far with what they met. -/
structure MonitorState where
  rows : List MergeQueueEntry
  pending : List MergeQueueEntry := []
  cleaned : List Nat := []
  checks : List (Nat × CheckAnswers) := []

/-- The table with the status of an entry set. -/
def setStatus (id : Nat) (status : EntryStatus) (rows : List MergeQueueEntry) : List MergeQueueEntry :=
  Tables.updateWhere (fun r => r.id == id) (fun r => { r with status := status }) rows

/-- `_update_entry_status`. -/
def updateEntryStatus (s : MonitorState) (id : Nat) (status : EntryStatus) (updated : Bool) : MonitorState :=
  if updated then { s with rows := setStatus id status s.rows } else s

/-- Whether the clean-up of a merged pull request runs to its end. -/
def cleanupRuns (entry : MergeQueueEntry) (ans : CheckAnswers) : Bool :=
  (entry.branchName.isEmpty || ans.deleteBranch ≠ .raised) && ans.transitionIssue ≠ .raised &&
    ((entry.issueNumber.getD []).isEmpty || !ans.worktreeExists || ans.cleanupWorktree ≠ .raised)

/-- `_handle_merged`. -/
def handleMerged (s : MonitorState) (entry : MergeQueueEntry) (ans : CheckAnswers) : MonitorState :=
  if cleanupRuns entry ans then
    updateEntryStatus { s with cleaned := entry.id :: s.cleaned } entry.id .merged ans.updated
  else s

/-- `_handle_ejected`. -/
def handleEjected (s : MonitorState) (entry : MergeQueueEntry) (ans : CheckAnswers) : MonitorState :=
  updateEntryStatus s entry.id .ejected ans.updated

/-- `_handle_timeout`. -/
def handleTimeout (s : MonitorState) (entry : MergeQueueEntry) (ans : CheckAnswers) : MonitorState :=
  updateEntryStatus s entry.id .timeout ans.updated

/-- `_check_entry`. An exception leaves the entry as it is and the cycle goes on with the next one. -/
def checkEntry (s : MonitorState) (entry : MergeQueueEntry) (ans : CheckAnswers) : MonitorState :=
  match getMergeQueueStatus entry.repo ans.queue with
  | none => s
  | some status =>
    if status.isMerged then handleMerged s entry ans
    else if status.isFailed then handleEjected s entry ans
    else if !status.inQueue && status.state == "NOT_QUEUED".toList then
      match checkPrMergedDirectly ans.direct with
      | none => s
      | some true => handleMerged s entry ans
      | some false => handleEjected s entry ans
    else if ans.now - entry.enqueuedAt > ans.mergeQueueTimeout * 1000000 then handleTimeout s entry ans
    else s

/-! ## Poll cycles -/

/-- The steps of the system: another task creates an entry, a cycle begins, and the running cycle checks the
next entry that it has loaded. -/
inductive MonitorAction where
  | create (entry : MergeQueueEntry)
  | load (skipped : Bool) (loaded : Bool)
  | check (ans : CheckAnswers)

/-- `create_merge_queue_entry`: a pull request has one queued entry at most. -/
def createMergeQueueEntry (rows : List MergeQueueEntry) (entry : MergeQueueEntry) : List MergeQueueEntry :=
  if rows.any fun r => r.prNumber == entry.prNumber && r.repo == entry.repo && r.status == .queued then rows
  else rows ++ [{ entry with id := (rows.map MergeQueueEntry.id).foldl max 0 + 1, status := .queued }]

/-- `_load_queued_entries`; an error of the database loads none. -/
def loadQueuedEntries (projectDir : Text) (rows : List MergeQueueEntry) (loaded : Bool) :
    List MergeQueueEntry :=
  if loaded then rows.filter fun r => r.status == .queued && r.projectDir == projectDir else []

/-- A step of the monitor of a project. -/
def MonitorState.step (projectDir : Text) (s : MonitorState) : MonitorAction → Option MonitorState
  | .create entry => some { s with rows := createMergeQueueEntry s.rows entry }
  | .load skipped loaded =>
    if s.pending ≠ [] then none
    else if skipped then some s
    else some { s with pending := loadQueuedEntries projectDir s.rows loaded }
  | .check ans =>
    match s.pending with
    | [] => none
    | entry :: rest =>
      some (checkEntry { s with pending := rest, checks := (entry.id, ans) :: s.checks } entry ans)

end Dashboard

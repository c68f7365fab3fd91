import SovaVerified.Git.Worktree

/-!
# Which removals spare live work

A worktree holds live work when the process of a run that is not finished is alive in it, or when git lists
changes in it. `cleanup_by_issue_state` looks at both and destroys no live work. Each of the other paths leaves
out a check, and destroys live work exactly where that check would have stopped it.
-/

namespace Git

open Exceptions Dashboard

variable {o : WorktreeOutside} {path name : Text} {d : Checkout}

/-! ## Live work -/

/-- The process of a run that is not finished is alive in the worktree. -/
def HasLiveRun (o : WorktreeOutside) (path : Text) : Prop :=
  ∃ runs, o.runs = some runs ∧ ∃ run ∈ runs, run.isTerminal = false ∧
    (∃ wt, run.worktreePath = some wt ∧ wt ≠ [] ∧ o.resolve wt = o.resolve path) ∧
    ∃ pid, run.pid = some pid ∧ isProcessAlive o.kill pid = true

/-- Git lists changes in the worktree. -/
def HasChanges (o : WorktreeOutside) (path : Text) : Prop := Text.strip (o.checkout path).changes ≠ []

def HasLiveWork (o : WorktreeOutside) (path : Text) : Prop := HasLiveRun o path ∨ HasChanges o path

/-- What the check for an agent takes for finished is finished. -/
theorem worktreeTerminal_subset {status : RunStatus} (h : status ∈ worktreeTerminal) :
    status ∈ taskRunTerminal := by
  have hall : ∀ s ∈ worktreeTerminal, s ∈ taskRunTerminal := by decide
  exact hall status h

theorem isActiveIn_of_live {run : TrackedRun} (hopen : run.isTerminal = false)
    (hwt : ∃ wt, run.worktreePath = some wt ∧ wt ≠ [] ∧ o.resolve wt = o.resolve path)
    (hpid : ∃ pid, run.pid = some pid ∧ isProcessAlive o.kill pid = true) : isActiveIn o path run = true := by
  obtain ⟨wt, hwt, hne, hresolve⟩ := hwt
  obtain ⟨pid, hpid, halive⟩ := hpid
  have hstatus : worktreeTerminal.contains run.status = false := by
    by_contra hcontains
    have hmem : run.status ∈ worktreeTerminal := List.contains_iff_mem.mp (by simpa using hcontains)
    have hterminal : run.isTerminal = true := List.contains_iff_mem.mpr (worktreeTerminal_subset hmem)
    rw [hopen] at hterminal
    cases hterminal
  have hzero : pid ≠ 0 := by
    rintro rfl
    cases halive
  unfold isActiveIn
  rw [hstatus, hwt, hpid]
  simp [hne, hresolve, hzero, halive]

/-- A check that finds no agent excludes a live run. -/
theorem not_hasLiveRun_of_check (h : checkWorktreeActiveAgent o path = .ok none) : ¬ HasLiveRun o path := by
  rintro ⟨runs, hruns, run, hmem, hopen, hwt, hpid⟩
  unfold checkWorktreeActiveAgent at h
  rw [hruns] at h
  dsimp only at h
  cases hread : o.dbRead with
  | error e =>
    rw [hread] at h
    cases h
  | ok u =>
    rw [hread] at h
    have hnone := Except.ok.inj h
    cases hfind : runs.find? (isActiveIn o path) with
    | none => exact List.find?_eq_none.mp hfind run hmem (isActiveIn_of_live hopen hwt hpid)
    | some found =>
      rw [hfind] at hnone
      -- the run that is found has a process
      have hactive : isActiveIn o path found = true := List.find?_some hfind
      have hpid' : found.pid = none := hnone
      unfold isActiveIn at hactive
      rw [hpid'] at hactive
      simp at hactive

/-! ## The forced removal -/

/-- The forced removal of a directory begins. -/
def BeginsRemoval (d : Checkout) : Prop :=
  d.gitRemove = .ok true ∨ (d.gitRemove = .ok false ∧ d.leftBehind = true)

/-- The forced removal of a directory raises an exception. -/
def removalRaises (d : Checkout) : Bool :=
  match d.gitRemove with
  | .error _ => true
  | .ok true => false
  | .ok false => d.leftBehind && !d.rmtree.isOk

theorem cleanupWorktree_destroyed_iff : (cleanupWorktree d).1 = true ↔ BeginsRemoval d := by
  unfold cleanupWorktree BeginsRemoval
  cases d.gitRemove with
  | error e => simp
  | ok removed =>
    cases removed with
    | true => simp
    | false =>
      cases d.leftBehind with
      | false => simp
      | true => cases d.rmtree <;> simp

theorem cleanupWorktree_isSome : (cleanupWorktree d).2.isSome = removalRaises d := by
  unfold cleanupWorktree removalRaises
  cases d.gitRemove with
  | error e => rfl
  | ok removed =>
    cases removed with
    | true => rfl
    | false =>
      cases d.leftBehind with
      | false => rfl
      | true => cases d.rmtree <;> rfl

theorem mem_destroyed_removeThen_iff {p : Text} {rest : Except PyException (Option Text)} :
    p ∈ (removeThen d path rest).destroyed ↔ p = path ∧ BeginsRemoval d := by
  unfold removeThen
  rw [← cleanupWorktree_destroyed_iff]
  cases hdestroyed : (cleanupWorktree d).1 with
  | true => simp [hdestroyed]
  | false => simp [hdestroyed]

/-- The directories that a loop destroys are among the ones it visits. -/
theorem mem_destroyed_sweep_iff {body : Text → Visit × Option PyException} {entries : List Text} :
    name ∈ (sweep body entries).destroyed ↔
      name ∈ Loops.upTo (fun n => (body n).2.isSome) entries ∧ (body name).1.destroyed = true := by
  unfold sweep
  dsimp only
  rw [Loops.trail_eq_map]
  constructor
  · intro h
    obtain ⟨v, hv, rfl⟩ := List.mem_map.mp h
    obtain ⟨hmem, hdestroyed⟩ := List.mem_filter.mp hv
    obtain ⟨n, hn, rfl⟩ := List.mem_map.mp hmem
    exact ⟨hn, hdestroyed⟩
  · rintro ⟨hmem, hdestroyed⟩
    have hvisit := List.mem_map_of_mem (f := fun n => (n, (body n).1)) hmem
    exact List.mem_map.mpr ⟨(name, (body name).1), List.mem_filter.mpr ⟨hvisit, hdestroyed⟩, rfl⟩

/-! ## Worktrees that are too old -/

/-- The directory ends the loop over the old worktrees: its time cannot be read, or its removal raises. -/
def endsStaleSweep (o : WorktreeOutside) (ttlDays : Int) (name : Text) : Bool :=
  let d := o.checkout (o.pathOf name)
  d.isDir &&
    match d.mtime with
    | .error _ => true
    | .ok mtime => isTooOld o ttlDays mtime && removalRaises d

/-- The worktree is too old, and its removal begins. -/
def IsSweptAway (o : WorktreeOutside) (ttlDays : Int) (name : Text) : Prop :=
  let d := o.checkout (o.pathOf name)
  d.isDir = true ∧ (∃ mtime, d.mtime = .ok mtime ∧ isTooOld o ttlDays mtime = true) ∧ BeginsRemoval d

theorem visitStale_isSome (o : WorktreeOutside) (ttlDays : Int) (name : Text) :
    (visitStale o ttlDays name).2.isSome = endsStaleSweep o ttlDays name := by
  unfold visitStale endsStaleSweep
  dsimp only
  cases (o.checkout (o.pathOf name)).isDir with
  | false => rfl
  | true =>
    cases (o.checkout (o.pathOf name)).mtime with
    | error e => rfl
    | ok mtime =>
      dsimp only
      cases isTooOld o ttlDays mtime with
      | false => rfl
      | true => exact cleanupWorktree_isSome

theorem visitStale_destroyed_iff (o : WorktreeOutside) (ttlDays : Int) (name : Text) :
    (visitStale o ttlDays name).1.destroyed = true ↔ IsSweptAway o ttlDays name := by
  unfold visitStale IsSweptAway
  dsimp only
  rw [← cleanupWorktree_destroyed_iff]
  cases (o.checkout (o.pathOf name)).isDir with
  | false => simp
  | true =>
    cases (o.checkout (o.pathOf name)).mtime with
    | error e => simp
    | ok mtime =>
      cases hold : isTooOld o ttlDays mtime with
      | false => simp [hold]
      | true => simp [hold]

theorem mem_destroyed_cleanupStaleWorktrees_iff {ttlDays : Int} :
    name ∈ (cleanupStaleWorktrees o ttlDays).destroyed ↔
      name ∈ Loops.upTo (endsStaleSweep o ttlDays) o.entries ∧ IsSweptAway o ttlDays name := by
  have hends : (fun n => (visitStale o ttlDays n).2.isSome) = endsStaleSweep o ttlDays :=
    funext (visitStale_isSome o ttlDays)
  unfold cleanupStaleWorktrees
  rw [mem_destroyed_sweep_iff, hends, visitStale_destroyed_iff]

/-! ## Worktrees of closed issues -/

/-- A worktree that is removed for its issue has passed both checks. -/
theorem not_hasLiveWork_of_visitByIssueState {closed : List Text} {dryRun : Bool}
    (h : (visitByIssueState o closed dryRun name).1.destroyed = true) : ¬ HasLiveWork o (o.pathOf name) := by
  unfold visitByIssueState at h
  dsimp only at h
  split at h
  · cases h
  · split at h
    · cases h
    · cases h
    · split at h
      · cases h
      · cases h
      · rename_i hcheck
        split at h
        · cases h
        · cases h
        · split_ifs at h with hclean
          · rintro (hlive | hchanges)
            · exact not_hasLiveRun_of_check hcheck hlive
            · exact hchanges (List.isEmpty_iff.mp hclean)

theorem not_hasLiveWork_of_cleanupByIssueState {dryRun : Bool}
    (h : name ∈ (cleanupByIssueState o dryRun).destroyed) : ¬ HasLiveWork o (o.pathOf name) := by
  unfold cleanupByIssueState at h
  cases hclosed : fetchClosedIssues o with
  | error e =>
    rw [hclosed] at h
    cases h
  | ok closed =>
    rw [hclosed] at h
    dsimp only at h
    cases hlist : o.worktreeList with
    | error e =>
      rw [hlist] at h
      cases h
    | ok listing =>
      rw [hlist] at h
      exact not_hasLiveWork_of_visitByIssueState (mem_destroyed_sweep_iff.mp h).2

/-! ## A branch that is checked out elsewhere -/

/-- A worktree other than the main one has the branch, no agent is found in it, and its removal begins. -/
def IsResolvedAway (o : WorktreeOutside) (branch path : Text) : Prop :=
  Returns o.prune ∧ findWorktreeByBranch o branch = .ok (some path) ∧
    (∃ toplevel, o.toplevel = .ok toplevel ∧ toplevel.success = true ∧
      o.resolve (Text.strip toplevel.stdout) ≠ o.resolve path) ∧
    (o.checkout path).present = true ∧ checkWorktreeActiveAgent o path = .ok none ∧
    BeginsRemoval (o.checkout path)

theorem mem_destroyed_resolveConflictAt_iff {p : Text} :
    p ∈ (resolveConflictAt o path).destroyed ↔
      p = path ∧ (∃ toplevel, o.toplevel = .ok toplevel ∧ toplevel.success = true ∧
        o.resolve (Text.strip toplevel.stdout) ≠ o.resolve path) ∧
      (o.checkout path).present = true ∧ checkWorktreeActiveAgent o path = .ok none ∧
      BeginsRemoval (o.checkout path) := by
  unfold resolveConflictAt
  cases htop : o.toplevel with
  | error e => simp
  | ok toplevel =>
    dsimp only
    cases hsuccess : toplevel.success with
    | false => simp [hsuccess]
    | true =>
      by_cases hmain : o.resolve (Text.strip toplevel.stdout) = o.resolve path
      · simp [hsuccess, hmain]
      · cases hpresent : (o.checkout path).present with
        | false => simp [hmain]
        | true =>
          cases hcheck : checkWorktreeActiveAgent o path with
          | error e => simp [hmain]
          | ok active =>
            cases active with
            | some pid => simp [hmain]
            | none => simp [hmain, hsuccess, mem_destroyed_removeThen_iff]

theorem mem_destroyed_resolveWorktreeConflict_iff {branch : Text} :
    path ∈ (resolveWorktreeConflict o branch).destroyed ↔ IsResolvedAway o branch path := by
  unfold resolveWorktreeConflict IsResolvedAway
  cases hprune : o.prune with
  | error e => simp [Returns]
  | ok pruned =>
    dsimp only
    cases hfind : findWorktreeByBranch o branch with
    | error e => simp
    | ok found =>
      cases found with
      | none => simp
      | some path' =>
        dsimp only
        rw [mem_destroyed_resolveConflictAt_iff]
        constructor
        · rintro ⟨rfl, h⟩
          exact ⟨returns_ok pruned, rfl, h⟩
        · rintro ⟨-, heq, h⟩
          cases heq
          exact ⟨rfl, h⟩

/-! ## A new worktree -/

/-- A worktree is in the place of the new one, git does not find it on the branch, and its removal begins. -/
def IsReplaced (o : WorktreeOutside) (issueId branch : Text) : Prop :=
  let d := o.checkout (o.pathOf issueId)
  isPathTraversal issueId = false ∧ Returns o.mkdir ∧ d.present = true ∧
    (∃ head, d.abbrevRef = .ok head ∧ isOnBranch head branch = false) ∧ BeginsRemoval d

theorem mem_destroyed_createWorktree_iff {issueId branch : Text} :
    path ∈ (createWorktree o issueId branch).destroyed ↔
      path = o.pathOf issueId ∧ IsReplaced o issueId branch := by
  unfold createWorktree IsReplaced
  dsimp only
  cases htraversal : isPathTraversal issueId with
  | true => simp
  | false =>
    cases hmkdir : o.mkdir with
    | error e => simp [Returns]
    | ok u =>
      cases hpresent : (o.checkout (o.pathOf issueId)).present with
      | false => simp
      | true =>
        cases hhead : (o.checkout (o.pathOf issueId)).abbrevRef with
        | error e => simp
        | ok head =>
          cases hbranch : isOnBranch head branch with
          | true => simp [hbranch]
          | false => simp [hbranch, mem_destroyed_removeThen_iff, returns_ok]

/-! ## The four paths -/

/-- Where a call that removes worktrees leaves out a check, there is no live work for it to find. -/
def SparesWhen (o : WorktreeOutside) : Removal → Prop
  | .staleWorktrees ttlDays =>
    ∀ name ∈ Loops.upTo (endsStaleSweep o ttlDays) o.entries,
      IsSweptAway o ttlDays name → ¬ HasLiveWork o (o.pathOf name)
  | .byIssueState _ => True
  | .resolveConflict branch => ∀ path, IsResolvedAway o branch path → ¬ HasChanges o path
  | .create issueId branch => IsReplaced o issueId branch → ¬ HasLiveWork o (o.pathOf issueId)

/-- A call destroys no live work exactly when there is none in the worktrees that it removes unchecked: the old
ones up to the first that cannot be removed, the one that is replaced, and, as far as changes go, the one that
has the branch. -/
theorem removal_spares_live_work_iff (o : WorktreeOutside) (call : Removal) :
    (∀ path ∈ destroyedBy o call, ¬ HasLiveWork o path) ↔ SparesWhen o call := by
  cases call with
  | staleWorktrees ttlDays =>
    constructor
    · intro h name hmem hswept
      exact h _ (List.mem_map_of_mem (mem_destroyed_cleanupStaleWorktrees_iff.mpr ⟨hmem, hswept⟩))
    · intro h path hpath
      obtain ⟨name, hname, rfl⟩ := List.mem_map.mp hpath
      obtain ⟨hmem, hswept⟩ := mem_destroyed_cleanupStaleWorktrees_iff.mp hname
      exact h name hmem hswept
  | byIssueState dryRun =>
    refine iff_of_true ?_ trivial
    intro path hpath
    obtain ⟨name, hname, rfl⟩ := List.mem_map.mp hpath
    exact not_hasLiveWork_of_cleanupByIssueState hname
  | resolveConflict branch =>
    constructor
    · intro h path hresolved hchanges
      exact h path (mem_destroyed_resolveWorktreeConflict_iff.mpr hresolved) (.inr hchanges)
    · intro h path hpath
      have hresolved := mem_destroyed_resolveWorktreeConflict_iff.mp hpath
      rintro (hlive | hchanges)
      · exact not_hasLiveRun_of_check hresolved.2.2.2.2.1 hlive
      · exact h path hresolved hchanges
  | create issueId branch =>
    constructor
    · intro h hreplaced
      exact h _ (mem_destroyed_createWorktree_iff.mpr ⟨rfl, hreplaced⟩)
    · intro h path hpath
      obtain ⟨rfl, hreplaced⟩ := mem_destroyed_createWorktree_iff.mp hpath
      exact h hreplaced

/-- A worktree of four days on the branch of another issue, with a change in it and an agent at work. -/
def busyWorktree : WorktreeOutside :=
  let run : TrackedRun :=
    { id := 1, issueNumber := some "42".toList, status := .running, pid := some 7, startedAt := 0,
      worktreePath := some "/p/.claude/worktrees/42".toList }
  { projectDir := "/p".toList
    now := 345600
    kill := fun _ => .sent
    runs := some [run]
    checkout := fun _ =>
      { changes := " M a.py".toList, abbrevRef := .ok { stdout := "feat/other\n".toList } }
    entries := ["42".toList] }

/-- A worktree that is too old is removed with its change and its agent, and so is one that is replaced. -/
theorem live_work_destroyed :
    let path := "/p/.claude/worktrees/42".toList
    (HasLiveRun busyWorktree path ∧ HasChanges busyWorktree path) ∧
      path ∈ destroyedBy busyWorktree (.staleWorktrees 3) ∧
      path ∈ destroyedBy busyWorktree (.create "42".toList "feat/issue-42".toList) := by
  refine ⟨⟨?_, ?_⟩, ?_, ?_⟩
  · exact ⟨_, rfl, _, List.mem_singleton_self _, rfl, ⟨_, rfl, by decide, rfl⟩, 7, rfl, rfl⟩
  · unfold HasChanges
    decide
  · decide +kernel
  · decide

end Git

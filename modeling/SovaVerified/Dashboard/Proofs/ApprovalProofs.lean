import SovaVerified.Dashboard.Approval
import SovaVerified.Dashboard.Proofs.StartAgentProofs

/-!
# A failed resume and the approval

A resume claims its run by making it pending, and gives the claim back when the start fails. In between,
the start checks the issue for conflicts, and a pending run whose process is gone looks stale to that
check. The approval is kept by every failure exactly when the check is not reached, or does not take the
run for a stale one.
-/

namespace Dashboard

variable {c : Control} {run : TaskRun} {o : StartOutside}

/-! ## The request that is started -/

theorem strip_of_plain {t : Text} (h : ∀ ch ∈ t, Text.isSpace ch = false) : Text.strip t = t := by
  have hfront : ∀ s : Text, (∀ ch ∈ s, Text.isSpace ch = false) → s.dropWhile Text.isSpace = s := by
    intro s hs
    cases s with
    | nil => rfl
    | cons ch s => rw [List.dropWhile_cons_of_neg (by simp [hs ch (List.mem_cons_self ..)])]
  have hback : ∀ ch ∈ t.reverse, Text.isSpace ch = false := fun ch hch => h ch (List.mem_reverse.mp hch)
  unfold Text.strip
  rw [hfront t h, hfront t.reverse hback, List.reverse_reverse]

/-- The number in the body of a pull request is already normal. -/
theorem IssueRef.normalize (ref : IssueRef) : normalizeIssueNumber ref.digits = ref.digits := by
  unfold normalizeIssueNumber
  have hhash : ref.digits.dropWhile (· == '#') = ref.digits := by
    cases hd : ref.digits with
    | nil => rfl
    | cons ch t =>
      have hch : ch ≠ '#' := (ref.plain ch (by simp [hd])).1
      rw [List.dropWhile_cons_of_neg (by simpa using hch)]
  rw [hhash]
  exact strip_of_plain fun ch hch => (ref.plain ch hch).2

/-- The issue that is started is the normal form of the run's own, unless that is empty. -/
theorem resolveIssue_own {req : StartRequest} (hself : (resolveIssue o req).issue = req.issue)
    (hne : req.issue ≠ []) : normalizeIssueNumber req.issue = req.issue := by
  unfold resolveIssue at hself
  dsimp only at hself
  split_ifs at hself with hpr
  · -- the number came from the pull request, and a run that has it is not without a number
    cases href : o.issueFromPr with
    | none =>
      rw [href] at hself
      exact absurd hself.symm hne
    | some ref =>
      rw [href] at hself
      have hdigits : ref.digits = req.issue := hself
      rw [← hdigits]
      exact ref.normalize
  · exact hself

theorem resolveIssue_of_normal {req : StartRequest} (hnormal : normalizeIssueNumber req.issue = req.issue)
    (hne : req.issue ≠ []) : (resolveIssue o req).issue = req.issue := by
  have hempty : List.isEmpty req.issue = false := by simpa using hne
  unfold resolveIssue
  simp [hnormal, hempty]

/-- A resume is forced and does not ask for the suitability of its issue, so nothing before the lock
refuses it. -/
theorem prepareStart_resume (o : StartOutside) (run : TaskRun) (c : Control) :
    ∃ req, prepareStart o (resumeRequest run) c = .ok req ∧ req.force = true ∧
      req.enforceSuitability = false ∧ req.budgetOverride = false ∧
      req.issue = (resolveIssue o (resumeRequest run)).issue := by
  set req := resolveIssue o (resumeRequest run) with hreq
  have hfields : req.force = true ∧ req.enforceSuitability = false ∧ req.overrideSuitability = false ∧
      req.budgetOverride = false := by
    rw [hreq]
    unfold resolveIssue
    dsimp only
    split_ifs <;> exact ⟨rfl, rfl, rfl, rfl⟩
  obtain ⟨hforce, henforce, hoverride, hbudget⟩ := hfields
  have hinherit : inheritSuitability o req c = req := by
    unfold inheritSuitability
    simp [henforce]
  have hpin : pinRole o req = .ok req := by
    unfold pinRole
    simp [hoverride]
  have hpr : (resolvePr o req).force = true ∧ (resolvePr o req).enforceSuitability = false ∧
      (resolvePr o req).budgetOverride = false ∧ (resolvePr o req).issue = req.issue := by
    unfold resolvePr
    split_ifs <;> exact ⟨hforce, henforce, hbudget, rfl⟩
  refine ⟨resolvePr o req, ?_, hpr⟩
  have hmachine : machineBlock o (resolvePr o req) = none := by
    unfold machineBlock
    rw [hpr.1]
    rfl
  unfold prepareStart
  rw [← hreq, hinherit, hpin]
  simp only [hmachine]
  rfl

/-! ## The claim -/

/-- The run as the claim of a resume leaves it. -/
def claimedRun (run : TaskRun) : TaskRun := { run with status := .pending }

/-- The rows and the pool while a resume holds the run. -/
def claimedControl (c : Control) (run : TaskRun) : Control :=
  c.setRun run.id fun r => { r with status := .pending }

theorem claimedControl_run (h : c.run run.id = some run) :
    (claimedControl c run).run run.id = some (claimedRun run) :=
  Control.run_setRun_self (fun _ => rfl) h

theorem claim_awaiting (h : c.run run.id = some run) (hawaiting : run.status = .awaitingApproval) :
    claimAwaitingApproval c run.id .pending = (.ok run, claimedControl c run) := by
  simp [claimAwaitingApproval, readAwaiting, claimRun, updateIfStatus, h, hawaiting, claimedControl]

/-- What the revert makes of a row. -/
theorem revertClaim_run {k : Nat} {r : TaskRun} (h : c.run k = some r) :
    (revertClaim c k).run k =
      some (if r.status = .pending then { r with status := .awaitingApproval } else r) := by
  unfold revertClaim updateIfStatus
  rw [h]
  dsimp only
  split_ifs
  · exact Control.run_setRun_self (fun _ => rfl) h
  · exact h

/-! ## When the claim looks stale -/

/-- The check for a conflict is going to take the run for a stale one, once it is claimed: it is found
under the number of its issue, it has a process, which is gone, and it is not in the pool. -/
structure LooksStale (kill : Int → Signalled) (c : Control) (run : TaskRun) : Prop where
  issue : ∃ n, run.issueNumber = some n ∧ n ≠ [] ∧ normalizeIssueNumber n = n
  pid : ∃ p, run.pid = some p ∧ isProcessAlive kill p = false
  unmanaged : run.id ∉ c.managedIds

theorem looksStale_of_isStale {kill : Int → Signalled} {issue : Text}
    (h : isStale kill (claimedControl c run) issue (claimedRun run) = true) (hne : issue ≠ [])
    (hissue : issue = (resolveIssue o (resumeRequest run)).issue) : LooksStale kill c run := by
  simp only [isStale, Bool.and_eq_true, Bool.not_eq_true', beq_iff_eq] at h
  obtain ⟨⟨⟨⟨hnumber, -⟩, hsome⟩, hmanaged⟩, hdead⟩ := h
  have hnumber : run.issueNumber = some issue := hnumber
  have hself : (resumeRequest run).issue = issue := by
    show run.issueNumber.getD [] = issue
    rw [hnumber]
    rfl
  refine ⟨⟨issue, hnumber, hne, ?_⟩, ?_, ?_⟩
  · rw [← hself] at hissue hne
    have hnormal := resolveIssue_own hissue.symm hne
    rwa [hself] at hnormal
  · obtain ⟨p, hp⟩ := Option.isSome_iff_exists.mp hsome
    rw [hp] at hdead
    exact ⟨p, hp, hdead⟩
  · intro hmem
    have hcontains : (claimedControl c run).managedIds.contains (claimedRun run).id = true :=
      List.contains_iff_mem.mpr hmem
    rw [hcontains] at hmanaged
    cases hmanaged

theorem LooksStale.isStale {kill : Int → Signalled} (h : LooksStale kill c run) :
    ∃ n, run.issueNumber = some n ∧ n ≠ [] ∧ normalizeIssueNumber n = n ∧
      isStale kill (claimedControl c run) n (claimedRun run) = true := by
  obtain ⟨n, hnumber, hne, hnormal⟩ := h.issue
  obtain ⟨p, hp, hdead⟩ := h.pid
  refine ⟨n, hnumber, hne, hnormal, ?_⟩
  have hmanaged : (claimedControl c run).managedIds.contains (claimedRun run).id = false := by
    have hnot : ¬ (claimedControl c run).managedIds.contains (claimedRun run).id = true :=
      fun hmem => h.unmanaged (List.contains_iff_mem.mp hmem)
    simpa using hnot
  have hterminal : (claimedRun run).isTerminal = false := by rfl
  have hnumber' : (claimedRun run).issueNumber = some n := hnumber
  have hpid : (claimedRun run).pid = some p := hp
  unfold Dashboard.isStale
  rw [hterminal, hmanaged, hnumber', hpid, Option.any_some, hdead]
  simp

/-! ## A resume that fails -/

/-- A start that fails when its row is made. -/
def rowFails (kill : Int → Signalled) : StartOutside :=
  { now := 0, kill := kill, createFails := true, spawn := .ok 1 }

theorem startAgent_rowFails {kill : Int → Signalled} (h : c.run run.id = some run)
    (hstale : LooksStale kill c run) (hroom : c.pool.agents.length < c.pool.maxConcurrent) :
    ∃ c', startAgent (rowFails kill) (resumeRequest run) (claimedControl c run) =
        (.error { error := "Failed to create task run record".toList }, c') ∧
      c'.run run.id = some (markStale 0 (claimedRun run)) := by
  obtain ⟨n, hnumber, hne, hnormal, hisStale⟩ := hstale.isStale
  obtain ⟨req, hprepare, hforce, henforce, -, hissue⟩ :=
    prepareStart_resume (rowFails kill) run (claimedControl c run)
  have hown : (resumeRequest run).issue = n := by
    show run.issueNumber.getD [] = n
    rw [hnumber]
    rfl
  have hreq : req.issue = n := by
    rw [hissue, resolveIssue_of_normal (by rw [hown, hnormal]) (by rw [hown]; exact hne), hown]
  obtain ⟨hnone, hmarked⟩ :=
    checkIssueConflict_forced 0 (claimedControl_run h) hisStale
  have hadmission : admitStart (rowFails kill) req (claimedControl c run) =
      (none, (checkIssueConflict kill false 0 n true (claimedControl c run)).2) := by
    have hempty : req.issue.isEmpty = false := by
      rw [hreq]
      simpa using hne
    have hcapacity : ¬ (claimedControl c run).pool.agents.length ≥
        (claimedControl c run).pool.maxConcurrent := Nat.not_le_of_lt hroom
    unfold admitStart checkIssue
    rw [if_neg hcapacity, hempty, hforce, henforce, hreq]
    cases hcheck : checkIssueConflict kill false 0 n true (claimedControl c run) with
    | mk refused c' =>
      rw [hcheck] at hnone
      have hnone : refused = none := hnone
      simp [rowFails, hcheck, hnone]
  refine ⟨_, ?_, hmarked⟩
  unfold startAgent
  rw [if_neg (by simp [rowFails]), hprepare]
  simp only [hadmission]
  unfold launchStart placeStart
  simp [rowFails]

/-- Every failure of the start keeps the approval of the run exactly when the pool is full, so that the
start ends before it checks the issue, or the claimed run does not look stale to that check. -/
theorem resume_keeps_approval_iff (c : Control) (run : TaskRun) (kill : Int → Signalled)
    (h : c.run run.id = some run) (hawaiting : run.status = .awaitingApproval) :
    (∀ o : StartOutside, o.kill = kill → ∀ e c', resumeFromApproval o run.id c = (.error e, c') →
        ∃ r, c'.run run.id = some r ∧ r.status = .awaitingApproval) ↔
      c.pool.maxConcurrent ≤ c.pool.agents.length ∨ ¬ LooksStale kill c run := by
  constructor
  · intro hkeeps
    by_contra hcond
    rw [not_or, not_not] at hcond
    obtain ⟨hroom, hstale⟩ := hcond
    obtain ⟨c', hstart, hrun⟩ := startAgent_rowFails h hstale (Nat.lt_of_not_le hroom)
    have hresume : resumeFromApproval (rowFails kill) run.id c =
        (.error { error := "Failed to create task run record".toList }, revertClaim c' run.id) := by
      unfold resumeFromApproval
      rw [claim_awaiting h hawaiting]
      simp only [hstart]
    obtain ⟨r, hr, hstatus⟩ := hkeeps (rowFails kill) rfl _ _ hresume
    rw [revertClaim_run hrun, if_neg (by simp [markStale])] at hr
    rw [← Option.some.inj hr] at hstatus
    cases hstatus
  · intro hcond o hkill e c' hresume
    unfold resumeFromApproval at hresume
    rw [claim_awaiting h hawaiting] at hresume
    dsimp only at hresume
    have hstart := startAgent_run o (resumeRequest run) (claimedControl_run h)
    cases hcase : startAgent o (resumeRequest run) (claimedControl c run) with
    | mk result c₂ =>
      rw [hcase] at hresume hstart
      cases result with
      | started pid runId => cases hresume
      | raised => cases hresume
      | error e' =>
        cases hresume
        rcases hstart with hsame | ⟨req, hprepare, hroom, hne, hstale, -⟩
        · refine ⟨_, revertClaim_run hsame, ?_⟩
          rw [if_pos (show (claimedRun run).status = .pending from rfl)]
        · -- the run was marked: then there was room, and it looked stale
          obtain ⟨req', hprepare', -, -, -, hissue⟩ :=
            prepareStart_resume o run (claimedControl c run)
          rw [hprepare] at hprepare'
          cases hprepare'
          rw [hkill] at hstale
          have hlooks := looksStale_of_isStale hstale hne hissue
          rcases hcond with hfull | hnot
          · exact absurd hroom (Nat.not_lt_of_le hfull)
          · exact absurd hlooks hnot

/-- A run that waits for approval, with or without the pid of its process. -/
def waitingRun (pid : Option Int) : TaskRun :=
  { id := 7
    issueNumber := some ['1', '2']
    role := "researcher".toList
    status := .awaitingApproval
    pid := pid
    startedAt := 100 }

def waitingControl (pid : Option Int) : Control := { runs := [waitingRun pid] }

theorem resume_keeps_approval_without_pid :
    (waitingRun none).status = .awaitingApproval ∧
      ∀ o : StartOutside, o.kill = (fun _ => .failed) → ∀ e c',
        resumeFromApproval o 7 (waitingControl none) = (.error e, c') →
          ∃ r, c'.run 7 = some r ∧ r.status = .awaitingApproval := by
  have hnot : ¬ LooksStale (fun _ => .failed) (waitingControl none) (waitingRun none) := by
    rintro ⟨-, ⟨p, hp, -⟩, -⟩
    cases hp
  exact ⟨rfl,
    (resume_keeps_approval_iff (waitingControl none) (waitingRun none) _ rfl rfl).mpr (.inr hnot)⟩

/-- A start of an issue that is over its budget. -/
def overBudget : StartOutside :=
  { now := 500
    kill := fun _ => .failed
    budget := some { error := "Issue #12 has exceeded the per-issue budget".toList }
    spawn := .ok 4300 }

/-- The process of the run has exited and its issue is over budget: the resume fails, and the run ends
as interrupted. -/
theorem resume_loses_approval :
    (waitingControl (some 4242)).run 7 = some (waitingRun (some 4242)) ∧
      (waitingRun (some 4242)).status = .awaitingApproval ∧
      (∃ e, (resumeFromApproval overBudget 7 (waitingControl (some 4242))).1 = .error e) ∧
      ((resumeFromApproval overBudget 7 (waitingControl (some 4242))).2.run 7).map TaskRun.status =
        some .interrupted := by
  refine ⟨rfl, rfl, ⟨_, rfl⟩, rfl⟩

end Dashboard

/-!
# One decision for each approval

A request is engaged on a run from its claim on: a resume until it has given the claim back, and every
request that succeeded for good. A run that waits has no request engaged on it, and no run has two. A
step either claims a run, gives a claim back, or is quiet: it engages no request, and it changes no status
but that of an unfinished run, which may become interrupted.
-/

namespace Dashboard

open Tables

namespace Progress

/-- The request holds the run, or it has succeeded on it. -/
def engaged (k : Nat) : Progress → Bool
  | claimed run => run.id == k
  | admitted run _ => run.id == k
  | failed run _ => run.id == k
  | succeeded runId => runId == k
  | _ => false

end Progress

def ApprovalRequest.isResume : ApprovalRequest → Bool
  | .resume _ => true
  | _ => false

/-- The statuses that a decision against a resume leaves. -/
def decided (status : RunStatus) : Prop := status = .rejected ∨ status = .done

variable {c c' : Control} {o : StartOutside} {k : Nat}

/-! ## Quiet steps -/

/-- No row is lost, an unfinished run may become interrupted, and a new row neither waits nor is
decided. -/
structure Quiet (c c' : Control) : Prop where
  kept : ∀ k run, c.run k = some run → ∃ run', c'.run k = some run' ∧
    (run'.status = run.status ∨ (run.isTerminal = false ∧ run'.status = .interrupted))
  fresh : ∀ k run', c'.run k = some run' → c.run k = none →
    run'.status = .running ∨ run'.status = .failed

theorem Quiet.refl (c : Control) : Quiet c c :=
  ⟨fun _ run h => ⟨run, h, .inl rfl⟩, fun _ _ h hnone => by rw [hnone] at h; cases h⟩

/-- A status that a quiet step neither makes nor takes away was there before. -/
theorem Quiet.before (h : Quiet c c') {run' : TaskRun} (hrun : c'.run k = some run')
    (hnew : run'.status ≠ .running ∧ run'.status ≠ .failed ∧ run'.status ≠ .interrupted) :
    ∃ run, c.run k = some run ∧ run.status = run'.status := by
  cases hc : c.run k with
  | none => exact absurd (h.fresh k run' hrun hc) (by simp [hnew])
  | some run =>
    obtain ⟨run₁, hrun₁, hstatus⟩ := h.kept k run hc
    rw [hrun] at hrun₁
    cases hrun₁
    rcases hstatus with hsame | ⟨-, hint⟩
    · exact ⟨run, rfl, hsame.symm⟩
    · exact absurd hint hnew.2.2

/-- A finished run keeps its status. -/
theorem Quiet.after (h : Quiet c c') {run : TaskRun} (hrun : c.run k = some run)
    (hterminal : run.isTerminal = true) : ∃ run', c'.run k = some run' ∧ run'.status = run.status := by
  obtain ⟨run', hrun', hstatus⟩ := h.kept k run hrun
  rcases hstatus with hsame | ⟨hopen, -⟩
  · exact ⟨run', hrun', hsame⟩
  · rw [hterminal] at hopen
    cases hopen

theorem isStale_open {kill : Int → Signalled} {issue : Text} {run : TaskRun}
    (h : isStale kill c issue run = true) : run.isTerminal = false := by
  simp only [isStale, Bool.and_eq_true, Bool.not_eq_true'] at h
  exact h.1.1.1.2

theorem quiet_admitStart (o : StartOutside) (req : StartRequest) (c : Control) :
    Quiet c (admitStart o req c).2 := by
  refine ⟨?_, ?_⟩
  · intro k run h
    rcases admitStart_run o req h with hsame | ⟨-, -, hstale, hmarked⟩
    · exact ⟨run, hsame, .inl rfl⟩
    · exact ⟨_, hmarked, .inr ⟨isStale_open hstale, rfl⟩⟩
  · intro k run' h hnone
    rw [admitStart_none o req hnone] at h
    cases h

theorem quiet_launchStart (o : StartOutside) (req : StartRequest) (c : Control) :
    Quiet c (launchStart o req c).2 :=
  ⟨fun _ run h => ⟨run, launchStart_run h, .inl rfl⟩, fun _ _ h hnone => launchStart_fresh h hnone⟩

/-! ## What a step does -/

/-- What a step of a request does: it is quiet, or it claims a run that waits, or it gives back the claim
that it holds. The last two leave the other rows alone. -/
inductive Effect (request : ApprovalRequest) (progress : Progress) (c : Control) (progress' : Progress)
    (c' : Control) : Prop
  | quiet (hquiet : Quiet c c') (hengaged : ∀ k, progress'.engaged k = true → progress.engaged k = true)
  | claim (id : Nat) (run run' : TaskRun) (hrun : c.run id = some run)
      (hwaits : run.status = .awaitingApproval) (hrun' : c'.run id = some run')
      (hstatus : if request.isResume then run'.status = .pending else decided run'.status)
      (hframe : ∀ k, k ≠ id → c'.run k = c.run k)
      (hengaged : ∀ k, progress'.engaged k = true → k = id)
  | revert (id : Nat) (hheld : progress.engaged id = true) (hframe : ∀ k, k ≠ id → c'.run k = c.run k)
      (hengaged : ∀ k, progress'.engaged k = false)

/-- A conditional update changes the row that has the expected status, or nothing. -/
theorem updateIfStatus_cases (c : Control) (id : Nat) (expected : RunStatus) {f : TaskRun → TaskRun}
    (hf : ∀ r, (f r).id = r.id) :
    updateIfStatus c id expected f = (false, c) ∨
      ∃ run c', updateIfStatus c id expected f = (true, c') ∧ c.run id = some run ∧
        run.status = expected ∧ c'.run id = some (f run) ∧ ∀ k, k ≠ id → c'.run k = c.run k := by
  unfold updateIfStatus
  cases hrun : c.run id with
  | none => exact .inl rfl
  | some run =>
    dsimp only
    split_ifs with hstatus
    · exact .inr ⟨run, _, rfl, rfl, hstatus, Control.run_setRun_self hf hrun,
        fun k hk => Control.run_setRun_of_ne hf hk⟩
    · exact .inl rfl

section Effects

variable {request : ApprovalRequest} {progress progress' : Progress} {run : TaskRun}

/-- A step that writes nothing and does not engage its request. -/
theorem Effect.idle (hengaged : ∀ k, progress'.engaged k = false) :
    Effect request progress c progress' c :=
  .quiet (Quiet.refl c) fun k hk => by rw [hengaged k] at hk; cases hk

/-- The second transaction of any request, from what the conditional update does. -/
theorem Effect.ofUpdate (f : TaskRun → TaskRun) (won lost : Progress) (hf : ∀ r, (f r).id = r.id)
    (hstatus : ∀ r, if request.isResume then (f r).status = .pending else decided (f r).status)
    (hwon : ∀ k, won.engaged k = true → k = run.id) (hlost : ∀ k, lost.engaged k = false)
    (h : (match updateIfStatus c run.id .awaitingApproval f with
      | (true, c) => (won, c)
      | (false, c) => (lost, c)) = (progress', c')) :
    Effect request progress c progress' c' := by
  rcases updateIfStatus_cases c run.id .awaitingApproval hf with
    hno | ⟨r, c₁, hyes, hrun, hwaits, hrun', hframe⟩
  · rw [hno] at h
    cases h
    exact Effect.idle hlost
  · rw [hyes] at h
    cases h
    exact .claim run.id r (f r) hrun hwaits hrun' (hstatus r) hframe hwon

theorem effect_claimStep {now : Nat} (h : claimStep request run now c = (progress', c')) :
    Effect request (.found run) c progress' c' := by
  have hown : ∀ k, (run.id == k) = true → k = run.id := fun k hk => (beq_iff_eq.mp hk).symm
  cases request with
  | resume runId =>
    exact Effect.ofUpdate (fun r => { r with status := .pending }) (.claimed run)
      (.refused (some (alreadyClaimed run.id))) (fun _ => rfl) (fun _ => rfl) hown (fun _ => rfl) h
  | reject runId =>
    exact Effect.ofUpdate (fun r => { r with status := .rejected }) (.succeeded run.id)
      (.refused (some (alreadyClaimed run.id))) (fun _ => rfl) (fun _ => show decided _ from .inl rfl)
      hown (fun _ => rfl) h
  | complete issue target =>
    have hdecided : decided target.status := by
      cases target with
      | done => exact .inr rfl
      | rejected => exact .inl rfl
    exact Effect.ofUpdate (fun r => { r with status := target.status, endedAt := some now })
      (.succeeded run.id) (.refused none) (fun _ => rfl) (fun _ => hdecided) hown (fun _ => rfl) h

theorem effect_admitStep (h : admitStep o run c = (progress', c')) :
    Effect request (.claimed run) c progress' c' := by
  unfold admitStep at h
  split at h
  · cases h
    exact Effect.idle fun _ => rfl
  · split at h
    · cases h
      exact .quiet (Quiet.refl c) fun k hk => hk
    · next req hprepare =>
      have hquiet := quiet_admitStart o req c
      split at h
      · next hcase =>
        cases h
        rw [hcase] at hquiet
        exact .quiet hquiet fun k hk => hk
      · next hcase =>
        cases h
        rw [hcase] at hquiet
        exact .quiet hquiet fun k hk => hk

theorem effect_launchStep {req : StartRequest} (h : launchStep o run req c = (progress', c')) :
    Effect request (.admitted run req) c progress' c' := by
  have hquiet := quiet_launchStart o req c
  unfold launchStep at h
  split at h
  · next hcase =>
    cases h
    rw [hcase] at hquiet
    exact .quiet hquiet fun k hk => hk
  · next hcase =>
    cases h
    rw [hcase] at hquiet
    exact .quiet hquiet fun k hk => hk
  · next hcase =>
    cases h
    rw [hcase] at hquiet
    exact .quiet hquiet fun k hk => by cases hk

theorem dbFailure_engaged (request : ApprovalRequest) (k : Nat) : (dbFailure request).engaged k = false := by
  cases request <;> rfl

theorem readStep_engaged (request : ApprovalRequest) (c : Control) (k : Nat) :
    (readStep request c).engaged k = false := by
  unfold readStep
  split
  · split <;> rfl
  · split <;> rfl
  · split <;> rfl

/-- Every step of a request has one of the three effects. -/
theorem effect_advance {dbFails : Bool}
    (h : request.advance progress o dbFails c = some (progress', c')) :
    Effect request progress c progress' c' := by
  cases progress with
  | idle =>
    cases h
    refine Effect.idle fun k => ?_
    split_ifs
    · exact dbFailure_engaged request k
    · exact readStep_engaged request c k
  | found run =>
    have h := Option.some.inj h
    split_ifs at h
    · cases h
      exact Effect.idle (dbFailure_engaged request)
    · exact effect_claimStep h
  | claimed run => exact effect_admitStep (Option.some.inj h)
  | admitted run req => exact effect_launchStep (Option.some.inj h)
  | failed run e =>
    have h := Option.some.inj h
    split_ifs at h
    · cases h
      exact Effect.idle fun _ => rfl
    · cases h
      refine .revert run.id (by simp [Progress.engaged]) ?_ fun _ => rfl
      intro k hk
      rcases updateIfStatus_cases c run.id .pending (f := fun r => { r with status := .awaitingApproval })
        (fun _ => rfl) with hno | ⟨r, c₁, hyes, -, -, -, hframe⟩
      · unfold revertClaim
        rw [hno]
      · unfold revertClaim
        rw [hyes]
        exact hframe k hk
  | succeeded runId => cases h
  | refused e => cases h
  | raised => cases h

end Effects

/-! ## The invariant -/

/-- No request is engaged on a run that waits, no two are engaged on one run, no resume is engaged on a
run that was rejected or completed, and every other request that is engaged has left its run so. -/
structure OnceInv (s : Approvals) : Prop where
  free : ∀ k run, s.control.run k = some run → run.status = .awaitingApproval →
    ∀ i r, s.request i = some r → r.2.engaged k = false
  single : ∀ k i j r r', s.request i = some r → s.request j = some r' →
    r.2.engaged k = true → r'.2.engaged k = true → i = j
  resumes : ∀ k run, s.control.run k = some run → decided run.status →
    ∀ i r, s.request i = some r → r.1.isResume = true →
      r.2.engaged k = false
  decides : ∀ k i r, s.request i = some r → r.1.isResume = false → r.2.engaged k = true →
    ∃ run, s.control.run k = some run ∧ decided run.status

theorem onceInv_start (c : Control) (requests : List ApprovalRequest) :
    OnceInv (Approvals.start c requests) := by
  have hidle : ∀ k i r, (Approvals.start c requests).request i = some r → r.2.engaged k = false := by
    intro k i r h
    obtain ⟨request, -, rfl⟩ := List.mem_map.mp (List.mem_of_getElem? h)
    rfl
  refine ⟨fun k _ _ _ i r h => hidle k i r h, ?_, fun k _ _ _ i r h _ => hidle k i r h, ?_⟩
  · intro k i j r r' hi hj he
    rw [hidle k i r hi] at he
    cases he
  · intro k i r h _ he
    rw [hidle k i r h] at he
    cases he

section Step

variable {s : Approvals} {i : Nat} {request : ApprovalRequest} {progress progress' : Progress}

/-- The requests after the step of one of them. -/
theorem request_advanced {j : Nat} {r : ApprovalRequest × Progress}
    (h : (s.advanced i request (progress', c')).request j = some r) :
    (j = i ∧ r = (request, progress')) ∨ (j ≠ i ∧ s.request j = some r) := by
  unfold Approvals.advanced Approvals.request at h
  rw [List.getElem?_set] at h
  split_ifs at h with hij hlen
  · exact .inl ⟨hij.symm, (Option.some.inj h).symm⟩
  · exact .inr ⟨fun heq => hij heq.symm, h⟩

theorem OnceInv.quiet (hinv : OnceInv s) (hi : s.request i = some (request, progress))
    (hquiet : Quiet s.control c') (he : ∀ k, progress'.engaged k = true → progress.engaged k = true) :
    OnceInv (s.advanced i request (progress', c')) := by
  -- a request that is engaged after the step was engaged before it, and is of the same kind
  have hback : ∀ k j r, (s.advanced i request (progress', c')).request j = some r → r.2.engaged k = true →
      ∃ r₀, s.request j = some r₀ ∧ r₀.1 = r.1 ∧ r₀.2.engaged k = true := by
    intro k j r hj hengaged
    rcases request_advanced hj with ⟨rfl, rfl⟩ | ⟨-, hold⟩
    · exact ⟨_, hi, rfl, he k hengaged⟩
    · exact ⟨r, hold, rfl, hengaged⟩
  refine ⟨?_, ?_, ?_, ?_⟩
  · intro k run' hrun' hwaits j r hj
    obtain ⟨run, hrun, hstatus⟩ := hquiet.before hrun' (by simp [hwaits])
    by_contra hengaged
    rw [Bool.not_eq_false] at hengaged
    obtain ⟨r₀, hr₀, -, he₀⟩ := hback k j r hj hengaged
    rw [hinv.free k run hrun (hstatus.trans hwaits) j r₀ hr₀] at he₀
    cases he₀
  · intro k j j' r r' hj hj' hr hr'
    obtain ⟨r₀, hr₀, -, he₀⟩ := hback k j r hj hr
    obtain ⟨r₁, hr₁, -, he₁⟩ := hback k j' r' hj' hr'
    exact hinv.single k j j' r₀ r₁ hr₀ hr₁ he₀ he₁
  · intro k run' hrun' hdecided j r hj hresume
    have hnew : run'.status ≠ .running ∧ run'.status ≠ .failed ∧ run'.status ≠ .interrupted := by
      rcases hdecided with h | h <;> simp [h]
    obtain ⟨run, hrun, hstatus⟩ := hquiet.before hrun' hnew
    by_contra hengaged
    rw [Bool.not_eq_false] at hengaged
    obtain ⟨r₀, hr₀, hkind, he₀⟩ := hback k j r hj hengaged
    rw [← hstatus] at hdecided
    rw [hinv.resumes k run hrun hdecided j r₀ hr₀ (by rw [hkind, hresume])] at he₀
    cases he₀
  · intro k j r hj hkind hengaged
    obtain ⟨r₀, hr₀, hsame, he₀⟩ := hback k j r hj hengaged
    obtain ⟨run, hrun, hdecided⟩ := hinv.decides k j r₀ hr₀ (by rw [hsame, hkind]) he₀
    have hterminal : run.isTerminal = true := by
      unfold TaskRun.isTerminal
      rcases hdecided with h | h <;> rw [h] <;> rfl
    obtain ⟨run', hrun', hstatus⟩ := hquiet.after hrun hterminal
    exact ⟨run', hrun', by rwa [hstatus]⟩

/-- A step that concerns one run. Requests that are engaged on other runs were so before the step, and on
the run of the step nobody is engaged but the request that took it, which has decided the run or claimed
it for a resume. -/
theorem OnceInv.ofRun (hinv : OnceInv s) {id : Nat} (hframe : ∀ k, k ≠ id → c'.run k = s.control.run k)
    (hback : ∀ k j r, (s.advanced i request (progress', c')).request j = some r → r.2.engaged k = true →
      (k = id ∧ j = i ∧ r = (request, progress')) ∨ (k ≠ id ∧ s.request j = some r))
    (hrun : progress'.engaged id = true → ∃ run, c'.run id = some run ∧
      run.status ≠ .awaitingApproval ∧ (request.isResume = true ↔ ¬ decided run.status)) :
    OnceInv (s.advanced i request (progress', c')) := by
  refine ⟨?_, ?_, ?_, ?_⟩
  · intro k run hk hwaits j r hj
    by_contra hengaged
    rw [Bool.not_eq_false] at hengaged
    rcases hback k j r hj hengaged with ⟨rfl, -, rfl⟩ | ⟨hne, hold⟩
    · obtain ⟨run', hrun', hnotwaits, -⟩ := hrun hengaged
      have hsame : run' = run := Option.some.inj (hrun'.symm.trans hk)
      exact hnotwaits (hsame ▸ hwaits)
    · rw [hinv.free k run ((hframe k hne).symm.trans hk) hwaits j r hold] at hengaged
      cases hengaged
  · intro k j j' r r' hj hj' hr hr'
    rcases hback k j r hj hr with ⟨hk, hji, -⟩ | ⟨hne, hold⟩
    · rcases hback k j' r' hj' hr' with ⟨-, hji', -⟩ | ⟨hne, -⟩
      · exact hji.trans hji'.symm
      · exact absurd hk hne
    · rcases hback k j' r' hj' hr' with ⟨hk, -, -⟩ | ⟨-, hold'⟩
      · exact absurd hk hne
      · exact hinv.single k j j' r r' hold hold' hr hr'
  · intro k run hk hdecided j r hj hresume
    by_contra hengaged
    rw [Bool.not_eq_false] at hengaged
    rcases hback k j r hj hengaged with ⟨rfl, -, rfl⟩ | ⟨hne, hold⟩
    · obtain ⟨run', hrun', -, hkind⟩ := hrun hengaged
      have hsame : run' = run := Option.some.inj (hrun'.symm.trans hk)
      exact hkind.mp hresume (hsame ▸ hdecided)
    · rw [hinv.resumes k run ((hframe k hne).symm.trans hk) hdecided j r hold hresume] at hengaged
      cases hengaged
  · intro k j r hj hother hengaged
    rcases hback k j r hj hengaged with ⟨rfl, -, rfl⟩ | ⟨hne, hold⟩
    · obtain ⟨run, hrun', -, hkind⟩ := hrun hengaged
      refine ⟨run, hrun', ?_⟩
      by_contra hundecided
      have hresume : request.isResume = false := hother
      rw [hkind.mpr hundecided] at hresume
      cases hresume
    · show ∃ run, c'.run k = some run ∧ decided run.status
      rw [hframe k hne]
      exact hinv.decides k j r hold hother hengaged

theorem OnceInv.claim (hinv : OnceInv s) {id : Nat} {run run' : TaskRun}
    (hrun : s.control.run id = some run) (hwaits : run.status = .awaitingApproval)
    (hrun' : c'.run id = some run')
    (hstatus : if request.isResume then run'.status = .pending else decided run'.status)
    (hframe : ∀ k, k ≠ id → c'.run k = s.control.run k)
    (he : ∀ k, progress'.engaged k = true → k = id) :
    OnceInv (s.advanced i request (progress', c')) := by
  refine hinv.ofRun hframe ?_ fun _ => ⟨run', hrun', ?_, ?_⟩
  · intro k j r hj hengaged
    rcases request_advanced hj with ⟨hji, rfl⟩ | ⟨-, hold⟩
    · exact .inl ⟨he k hengaged, hji, rfl⟩
    · -- nobody was engaged on a run that waited
      refine .inr ⟨?_, hold⟩
      rintro rfl
      rw [hinv.free k run hrun hwaits j r hold] at hengaged
      cases hengaged
  · split_ifs at hstatus
    · rw [hstatus]
      simp
    · rcases hstatus with h | h <;> simp [h]
  · split_ifs at hstatus with hresume
    · rw [hstatus]
      simp [hresume, decided]
    · simp [hresume, hstatus]

theorem OnceInv.revert (hinv : OnceInv s) (hi : s.request i = some (request, progress)) {id : Nat}
    (hheld : progress.engaged id = true) (hframe : ∀ k, k ≠ id → c'.run k = s.control.run k)
    (he : ∀ k, progress'.engaged k = false) :
    OnceInv (s.advanced i request (progress', c')) := by
  refine hinv.ofRun hframe ?_ ?_
  · intro k j r hj hengaged
    rcases request_advanced hj with ⟨-, rfl⟩ | ⟨hne, hold⟩
    · rw [he k] at hengaged
      cases hengaged
    · -- the request that gives the run back was the one that held it
      refine .inr ⟨?_, hold⟩
      rintro rfl
      exact hne (hinv.single k j i r _ hold hi hengaged hheld)
  · intro hengaged
    rw [he id] at hengaged
    cases hengaged

end Step

theorem onceInv_step (s : Approvals) (a : ApprovalAction) (s' : Approvals) (hinv : OnceInv s)
    (h : s.step a = some s') : OnceInv s' := by
  unfold Approvals.step at h
  cases hi : s.request a.request with
  | none =>
    rw [hi] at h
    cases h
  | some r =>
    obtain ⟨request, progress⟩ := r
    rw [hi] at h
    obtain ⟨⟨progress', c'⟩, hadvance, rfl⟩ := Option.map_eq_some_iff.mp h
    cases effect_advance hadvance with
    | quiet hquiet he => exact hinv.quiet hi hquiet he
    | claim id run run' hrun hwaits hrun' hstatus hframe he =>
      exact hinv.claim hrun hwaits hrun' hstatus hframe he
    | revert id hheld hframe he => exact hinv.revert hi hheld hframe he

/-- The request has succeeded on the run. -/
def Progress.succeededOn (k : Nat) (progress : Progress) : Bool := progress == .succeeded k

theorem Progress.engaged_of_succeededOn {k : Nat} {progress : Progress}
    (h : progress.succeededOn k = true) : progress.engaged k = true := by
  rw [beq_iff_eq.mp h]
  exact beq_self_eq_true k

/-- Whatever requests there are and however their steps interleave: at most one of them succeeds on a
run, and once a run is rejected or completed, by a request or before them all, no resume holds it or has
succeeded on it. -/
theorem approval_decided_once (c : Control) (requests : List ApprovalRequest)
    (actions : List ApprovalAction) (t : Approvals)
    (h : Runs.exec Approvals.step (Approvals.start c requests) actions = some t) (runId : Nat) :
    (t.requests.filter fun r => r.2.succeededOn runId).length ≤ 1 ∧
      (∀ r ∈ t.requests, r.1.isResume = false → r.2.succeededOn runId = true →
        ∀ r' ∈ t.requests, r'.1.isResume = true → r'.2.engaged runId = false) ∧
      (∀ run, t.control.run runId = some run → decided run.status →
        ∀ r ∈ t.requests, r.1.isResume = true → r.2.engaged runId = false) := by
  have hinv : OnceInv t := Runs.invariant onceInv_step (onceInv_start c requests) h
  have hresumes : ∀ run, t.control.run runId = some run → decided run.status →
      ∀ r ∈ t.requests, r.1.isResume = true → r.2.engaged runId = false := by
    intro run hrun hdecided r hr hresume
    obtain ⟨i, hi⟩ := List.mem_iff_getElem?.mp hr
    exact hinv.resumes runId run hrun hdecided i r hi hresume
  refine ⟨?_, ?_, hresumes⟩
  · refine length_filter_le_one fun i j r r' hi hj hr hr' => ?_
    exact hinv.single runId i j r r' hi hj (Progress.engaged_of_succeededOn hr)
      (Progress.engaged_of_succeededOn hr')
  · intro r hr hkind hsucceeded
    obtain ⟨i, hi⟩ := List.mem_iff_getElem?.mp hr
    obtain ⟨run, hrun, hdecided⟩ :=
      hinv.decides runId i r hi hkind (Progress.engaged_of_succeededOn hsucceeded)
    exact hresumes run hrun hdecided

/-- A resume reads the run, claims it and fails at the budget of its issue; a rejection that has read the
run before comes too late for its claim, and a second one succeeds after the claim was given back. -/
def rejectedAfterFailure : List ApprovalAction :=
  [⟨0, overBudget, false⟩, ⟨1, overBudget, false⟩, ⟨0, overBudget, false⟩, ⟨1, overBudget, false⟩,
   ⟨0, overBudget, false⟩, ⟨0, overBudget, false⟩, ⟨0, overBudget, false⟩, ⟨2, overBudget, false⟩,
   ⟨2, overBudget, false⟩]

theorem approval_decided_once_rejected :
    ∃ t, Runs.exec Approvals.step
        (Approvals.start (waitingControl none) [.resume 7, .reject 7, .reject 7])
        rejectedAfterFailure = some t ∧
      (t.requests.map fun r => r.2.succeededOn 7) = [false, false, true] ∧
      (t.requests.filter fun r => r.2.succeededOn 7).length ≤ 1 := by
  have hrun : Runs.exec Approvals.step
      (Approvals.start (waitingControl none) [.resume 7, .reject 7, .reject 7])
      rejectedAfterFailure = some _ := rfl
  exact ⟨_, hrun, rfl, (approval_decided_once _ _ _ _ hrun 7).1⟩

end Dashboard

import SovaVerified.Core.MonitorCi

/-!
# When CI counts as passed

What justifies a pass is stated on the answers that the step has read. The resume check and the poll loop
pass only when it is there; the fast path for runs without new commits also passes a list of cancelled
checks, and that is the only way to pass without it.
-/

namespace Core.MonitorCi

open Outside

/-! ## What justifies a pass -/

def Read.checks : Read → Option (List CICheck)
  | .prChecks checks => checks
  | .shaChecks _ checks => checks
  | _ => none

/-- The last check list that was read. -/
def lastChecks (reads : List Read) : Option (List CICheck) := reads.findSome? Read.checks

/-- There are checks, all of them completed and none failed, and not only cancelled ones. -/
def Green (checks : List CICheck) : Prop :=
  checks ≠ [] ∧ (∀ c ∈ checks, c.isCompleted = true) ∧ (∀ c ∈ checks, c.isFailed = false) ∧
    ¬ ((∀ c ∈ checks, c.isPassed = false) ∧ ∃ c ∈ checks, c.conclusion = some .cancelled)

/-- The last list has excluded checks only, and the clock says that the grace period is over. -/
inductive AllExcluded (cfg : CIConfig) : List Read → Prop
  | intro {read : Read} {checks : List CICheck} {now start : ℚ} {older : List Read}
      (hread : read.checks = some checks) (hne : checks ≠ [])
      (hleft : withoutExcluded cfg checks = []) (hstart : Read.clock start ∈ older)
      (hgrace : (cfg.noChecksGracePeriod : ℚ) ≤ now - start) :
      AllExcluded cfg (.clock now :: read :: older)

/-- The pull request has no check and the commit no workflow run. -/
inductive NoneConfirmed (cfg : CIConfig) : List Read → Prop
  /-- The list of the commit was empty, and the one of the pull request leaves nothing either. -/
  | forCommit {sha : Text} {now : ℚ} {prChecks : List CICheck} {older : List Read}
      (hleft : withoutExcluded cfg prChecks = []) :
      NoneConfirmed cfg (.workflowRuns sha (some false) :: .prChecks (some prChecks) :: .clock now ::
        .shaChecks sha (some []) :: older)
  /-- Without a local commit the list that was empty is the one of the pull request. -/
  | forHead {sha : Text} {now : ℚ} {older : List Read} :
      NoneConfirmed cfg (.workflowRuns sha (some false) :: .headSha sha :: .clock now ::
        .prChecks (some []) :: older)

/-- What has been read is enough for a pass. -/
def Justified (cfg : CIConfig) (reads : List Read) : Prop :=
  (∃ checks, lastChecks reads = some checks ∧ Green (withoutExcluded cfg checks)) ∨
    AllExcluded cfg reads ∨ NoneConfirmed cfg reads

theorem onlyCancelled_iff (checks : List CICheck) :
    onlyCancelled checks = true ↔
      (∀ c ∈ checks, c.isPassed = false) ∧ ∃ c ∈ checks, c.conclusion = some .cancelled := by
  simp [onlyCancelled, CICheck.isCancelled]

theorem green_of {checks : List CICheck} (hne : checks.isEmpty = false)
    (hcompleted : checks.all CICheck.isCompleted = true)
    (hfailed : (checks.filter CICheck.isFailed).isEmpty = true) (hcancelled : onlyCancelled checks = false) :
    Green checks := by
  refine ⟨by simpa using hne, by simpa using hcompleted, by simpa using hfailed, ?_⟩
  rw [← onlyCancelled_iff, hcancelled]
  simp

/-! ## The paths -/

variable {ω : Type} (env : Env ω) {s : Session ω Read}

/-- An iteration of the loop does not forget when the grace period began, and decides for a pass only
with a justification. -/
def PollPost (cfg : CIConfig) : Polled → Session ω Read → Prop
  | .decided result _, s => result.success = true → Justified cfg s.reads
  | .again p, s => Read.clock p.graceStart ∈ s.reads

theorem pollAgain_ensures (cfg : CIConfig) {p : Polling} (hstart : Read.clock p.graceStart ∈ s.reads) :
    Ensures (pollAgain env p) s (PollPost cfg) := by
  refine ensures_bind (ensures_ask fun now w => ensures_pure ?_)
  exact List.mem_cons_of_mem _ hstart

theorem pollUnknownCommit_ensures (cfg : CIConfig) {p : Polling} (message : Text)
    (hstart : Read.clock p.graceStart ∈ s.reads) :
    Ensures (pollUnknownCommit env p message) s (PollPost cfg) := by
  refine ensures_bind (ensures_ask fun headSha w => ?_)
  split
  · exact pollAgain_ensures env cfg (List.mem_cons_of_mem _ hstart)
  · exact ensures_pure fun h => by cases h

/-- The check list of the iteration was the last thing read, and the grace period began before. -/
structure JustRead (p : Polling) (checks : List CICheck) (reads : List Read) : Prop where
  last : (p.expectedSha ≠ [] ∧ ∃ older, reads = .shaChecks p.expectedSha (some checks) :: older ∧
      Read.clock p.graceStart ∈ older) ∨
    (p.expectedSha = [] ∧ ∃ older, reads = .prChecks (some checks) :: older ∧
      Read.clock p.graceStart ∈ older)

theorem JustRead.start {p : Polling} {checks : List CICheck} {reads : List Read}
    (h : JustRead p checks reads) : Read.clock p.graceStart ∈ reads := by
  rcases h.last with ⟨-, older, hreads, hstart⟩ | ⟨-, older, hreads, hstart⟩
  · rw [hreads]
    exact List.mem_cons_of_mem _ hstart
  · rw [hreads]
    exact List.mem_cons_of_mem _ hstart

theorem JustRead.read {p : Polling} {checks : List CICheck} {reads : List Read}
    (h : JustRead p checks reads) :
    ∃ read older, reads = read :: older ∧ read.checks = some checks ∧ Read.clock p.graceStart ∈ older := by
  rcases h.last with ⟨-, older, hreads, hstart⟩ | ⟨-, older, hreads, hstart⟩
  · exact ⟨_, older, hreads, rfl, hstart⟩
  · exact ⟨_, older, hreads, rfl, hstart⟩

theorem judgePolled_success {checks : List CICheck} (hne : checks.isEmpty = false)
    (hcompleted : checks.all CICheck.isCompleted = true) (h : (judgePolled checks).1.success = true) :
    Green checks := by
  unfold judgePolled at h
  dsimp only at h
  split at h
  · cases h
  · next hfailed =>
    split at h
    · cases h
    · next hcancelled => exact green_of hne hcompleted (by simpa using hfailed) (by simpa using hcancelled)

theorem judgeResumed_success {checks : List CICheck} (hne : checks.isEmpty = false)
    (hcompleted : checks.all CICheck.isCompleted = true) (h : (judgeResumed checks).success = true) :
    Green checks := by
  unfold judgeResumed at h
  dsimp only at h
  split at h
  · cases h
  · next hfailed =>
    split at h
    · cases h
    · next hcancelled => exact green_of hne hcompleted (by simpa using hfailed) (by simpa using hcancelled)

theorem judgeExisting_success {checks : List CICheck} (hne : checks.isEmpty = false)
    (hcompleted : checks.all CICheck.isCompleted = true) (hcancelled : onlyCancelled checks = false)
    (h : (judgeExisting checks).success = true) : Green checks := by
  unfold judgeExisting at h
  dsimp only at h
  split at h
  · cases h
  · next hfailed => exact green_of hne hcompleted (by simpa using hfailed) hcancelled

theorem movedHead_ensures {expectedSha : Text} {Q : Option Text → Session ω Read → Prop}
    (hnone : Q none s)
    (hread : ∀ moved headSha w, Q moved { world := w, reads := .headSha headSha :: s.reads }) :
    Ensures (movedHead env expectedSha) s Q := by
  unfold movedHead
  split
  · exact ensures_pure hnone
  · exact ensures_bind (ensures_ask fun headSha w => ensures_pure (hread _ headSha w))

theorem pollCompleted_ensures {cfg : CIConfig} {p : Polling} {checks : List CICheck}
    (hread : JustRead p checks s.reads) (hne : (withoutExcluded cfg checks).isEmpty = false)
    (hcompleted : (withoutExcluded cfg checks).all CICheck.isCompleted = true) :
    Ensures (pollCompleted env p (withoutExcluded cfg checks)) s (PollPost cfg) := by
  obtain ⟨read, older, hreads, hchecks, -⟩ := hread.read
  have hlast : lastChecks s.reads = some checks := by
    rw [hreads]
    simp [lastChecks, hchecks]
  refine ensures_bind (movedHead_ensures env ?_ ?_)
  · refine ensures_pure fun h => ?_
    exact .inl ⟨checks, hlast, judgePolled_success hne hcompleted h⟩
  · intro moved headSha w
    cases moved with
    | some newHead =>
      refine ensures_bind (ensures_ask fun graceStart w' => ?_)
      exact pollAgain_ensures env cfg List.mem_cons_self
    | none =>
      refine ensures_pure fun h => ?_
      exact .inl ⟨checks, hlast, judgePolled_success hne hcompleted h⟩

/-- What is made of the checks of the pull request. -/
def judgePrChecks (cfg : CIConfig) (sha : Text) : Option (List CICheck) → Ci ω (Option NotConfirmed)
  | none => pure (some .prLookupFailed)
  | some checks =>
    if !(withoutExcluded cfg checks).isEmpty then pure (some .prReportsChecks)
    else do
      match ← shaHasWorkflowRuns env sha with
      | none => pure (some .runLookupUnreadable)
      | some true => pure (some .runWithoutChecks)
      | some false => pure none

/-- What is read until the absence of checks is confirmed. -/
theorem prConfirmsNoChecks_ensures {cfg : CIConfig} {sha : Text} {Q : Option NotConfirmed → Session ω Read → Prop}
    (prChecks : Option (List CICheck))
    (hnot : ∀ reason w reads, s.reads <:+ reads → Q (some reason) { world := w, reads })
    (hread : ∀ checks w, prChecks = some checks → withoutExcluded cfg checks = [] →
      Q none { world := w, reads := .workflowRuns sha (some false) :: s.reads })
    (hlookup : ∀ checks w, prChecks = none → withoutExcluded cfg checks = [] →
      Q none { world := w
               reads := .workflowRuns sha (some false) :: .prChecks (some checks) :: s.reads }) :
    Ensures (prConfirmsNoChecks env cfg sha prChecks) s Q := by
  -- the part after the checks of the pull request, whatever was read for them
  have hrest : ∀ (checks : Option (List CICheck)) (s' : Session ω Read), s.reads <:+ s'.reads →
      (∀ l w, checks = some l → withoutExcluded cfg l = [] →
        Q none { world := w, reads := .workflowRuns sha (some false) :: s'.reads }) →
      Ensures (judgePrChecks env cfg sha checks) s' Q := by
    intro checks s' hsuffix hconfirmed
    cases checks with
    | none => exact ensures_pure (hnot _ s'.world s'.reads hsuffix)
    | some l =>
      simp only [judgePrChecks]
      split
      · exact ensures_pure (hnot _ s'.world s'.reads hsuffix)
      · next hempty =>
        refine ensures_bind (ensures_ask fun found w => ?_)
        have hsuffix' : s.reads <:+ Read.workflowRuns sha found :: s'.reads :=
          hsuffix.trans (List.suffix_cons _ _)
        cases found with
        | none => exact ensures_pure (hnot _ w _ hsuffix')
        | some found =>
          cases found with
          | true => exact ensures_pure (hnot _ w _ hsuffix')
          | false => exact ensures_pure (hconfirmed l w rfl (by simpa using hempty))
  unfold prConfirmsNoChecks
  refine ensures_bind ?_
  cases prChecks with
  | some checks =>
    refine ensures_pure (hrest (some checks) s (List.suffix_refl _) ?_)
    intro l w hl hleft
    cases hl
    exact hread checks w rfl hleft
  | none =>
    refine ensures_ask fun checks w => hrest checks _ (List.suffix_cons _ _) ?_
    intro l w' hl hleft
    cases hl
    exact hlookup l w' rfl hleft

theorem pollUnregistered_ensures {cfg : CIConfig} {p : Polling} {now : ℚ} {older : List Read} {w : ω}
    (hread : JustRead p [] older) :
    Ensures (pollUnregistered env cfg p) { world := w, reads := .clock now :: older } (PollPost cfg) := by
  have hstart := List.mem_cons_of_mem (Read.clock now) hread.start
  unfold pollUnregistered confirmSha
  rcases hread.last with ⟨hsha, older', rfl, -⟩ | ⟨hsha, older', rfl, -⟩
  · -- the commit is known: the pull request is asked, then the workflow runs
    have hne : p.expectedSha.isEmpty = false := by simpa using hsha
    simp only [hne, Bool.false_eq_true, if_false]
    refine ensures_bind (ensures_pure ?_)
    rw [hne]
    refine ensures_bind (prConfirmsNoChecks_ensures env none ?_ ?_ ?_)
    · intro reason w' reads hsuffix
      exact pollAgain_ensures env cfg (hsuffix.subset hstart)
    · intro checks w' h
      cases h
    · intro checks w' _ hleft
      exact ensures_pure fun _ => .inr (.inr (.forCommit hleft))
  · -- the list that was read is the one of the pull request; its head is asked for
    simp only [hsha, List.isEmpty_nil, if_true]
    refine ensures_bind (ensures_ask fun headSha w' => ?_)
    split
    · exact pollAgain_ensures env cfg (List.mem_cons_of_mem _ hstart)
    · refine ensures_bind (prConfirmsNoChecks_ensures env (some []) ?_ ?_ ?_)
      · intro reason w'' reads hsuffix
        exact pollAgain_ensures env cfg (hsuffix.subset (List.mem_cons_of_mem _ hstart))
      · intro checks w'' _ _
        exact ensures_pure fun _ => .inr (.inr .forHead)
      · intro checks w'' h
        cases h

theorem pollNoChecks_ensures {cfg : CIConfig} {p : Polling} {checks : List CICheck}
    (hread : JustRead p checks s.reads) (hleft : withoutExcluded cfg checks = []) :
    Ensures (pollNoChecks env cfg p checks) s (PollPost cfg) := by
  refine ensures_bind (ensures_ask fun now w => ?_)
  have hstart := List.mem_cons_of_mem (Read.clock now) hread.start
  dsimp only
  split
  · next hne =>
    split
    · next hgrace =>
      refine ensures_pure fun _ => .inr (.inl ?_)
      obtain ⟨read, older, hreads, hchecks, holder⟩ := hread.read
      dsimp only
      rw [hreads]
      exact .intro hchecks (by simpa using hne) hleft holder (by simpa using hgrace)
    · exact pollAgain_ensures env cfg hstart
  · next hempty =>
    have hnil : checks = [] := by simpa using hempty
    split
    · exact pollUnregistered_ensures env (hnil ▸ hread)
    · exact pollAgain_ensures env cfg hstart

theorem fetchChecks_ensures {p : Polling} (hstart : Read.clock p.graceStart ∈ s.reads)
    {Q : Fetched → Session ω Read → Prop}
    (hchecks : ∀ checks s', JustRead p checks s'.reads → Q (.checks (some checks)) s')
    (hnone : ∀ s', Read.clock p.graceStart ∈ s'.reads → Q (.checks none) s')
    (hunknown : ∀ message s', Read.clock p.graceStart ∈ s'.reads → Q (.unknownCommit message) s') :
    Ensures (fetchChecks env p.expectedSha) s Q := by
  have hmem : ∀ read : Read, Read.clock p.graceStart ∈ read :: s.reads :=
    fun read => List.mem_cons_of_mem _ hstart
  unfold fetchChecks
  split
  · next hempty =>
    refine ensures_bind (ensures_ask fun checks w => ensures_pure ?_)
    cases checks with
    | none => exact hnone _ (hmem _)
    | some checks => exact hchecks checks _ ⟨.inr ⟨by simpa using hempty, _, rfl, hstart⟩⟩
  · next hsha =>
    refine ensures_trying_ask ?_ ?_
    · intro checks w _
      cases checks with
      | none => exact hnone _ (hmem _)
      | some checks => exact hchecks checks _ ⟨.inl ⟨by simpa using hsha, _, rfl, hstart⟩⟩
    · intro e fetched w hhandled
      cases e with
      | unknownCommit message =>
        cases hhandled
        exact hunknown message _ hstart
      | runtime message => cases hhandled
      | os message => cases hhandled
      | other message => cases hhandled

theorem pollOnce_ensures (cfg : CIConfig) {p : Polling} (hstart : Read.clock p.graceStart ∈ s.reads) :
    Ensures (pollOnce env cfg p) s (PollPost cfg) := by
  refine ensures_bind (fetchChecks_ensures env hstart ?_ ?_ ?_)
  · intro checks s' hread
    dsimp only
    split
    · next hempty => exact pollNoChecks_ensures env hread (by simpa using hempty)
    · next hne =>
      split
      · next hcompleted => exact pollCompleted_ensures env hread (by simpa using hne) hcompleted
      · exact pollAgain_ensures env cfg hread.start
  · intro s' hstart'
    exact pollAgain_ensures env cfg hstart'
  · intro message s' hstart'
    exact pollUnknownCommit_ensures env cfg message hstart'

/-- What a path may return: a pass only with a justification. -/
def PathPost (cfg : CIConfig) (result : Option StepResult) (s : Session ω Read) : Prop :=
  ∀ r, result = some r → r.success = true → Justified cfg s.reads

theorem pollLoop_ensures (cfg : CIConfig) (fuel : Nat) {p : Polling}
    (hstart : Read.clock p.graceStart ∈ s.reads) :
    Ensures (pollLoop env cfg fuel p) s fun polled => PathPost cfg (polled.map Prod.fst) := by
  induction fuel generalizing p s with
  | zero =>
    refine ensures_pure fun r h => ?_
    cases h
  | succ fuel ih =>
    unfold pollLoop
    split
    · refine ensures_bind ((pollOnce_ensures env cfg hstart).mono ?_)
      intro polled s' hpost
      cases polled with
      | decided result failed =>
        refine ensures_pure fun r h hsuccess => ?_
        cases h
        exact hpost hsuccess
      | again p' => exact ih hpost
    · refine ensures_pure fun r h hsuccess => ?_
      cases h
      cases hsuccess

theorem getLocalHeadSha_ensures {Q : Text → Session ω Read → Prop}
    (hread : ∀ sha read w, Q sha { world := w, reads := read :: s.reads })
    (herror : ∀ sha w, Q sha { world := w, reads := s.reads }) :
    Ensures (getLocalHeadSha env) s Q := by
  refine ensures_bind (ensures_trying_ask ?_ ?_)
  · intro result w _
    exact ensures_pure (hread _ _ w)
  · intro e result w _
    exact ensures_pure (herror _ w)

theorem pollCi_ensures (cfg : CIConfig) (fuel : Nat) :
    Ensures (pollCi env cfg fuel) s fun polled => PathPost cfg (polled.map Prod.fst) := by
  refine ensures_bind (ensures_ask fun startTime w => ?_)
  refine ensures_bind (getLocalHeadSha_ensures env ?_ ?_)
  · intro sha read w'
    exact pollLoop_ensures env cfg fuel (List.mem_cons_of_mem _ List.mem_cons_self)
  · intro sha w'
    exact pollLoop_ensures env cfg fuel List.mem_cons_self

theorem fetchOnResume_ensures (expectedSha : Text) {Q : Option (List CICheck) → Session ω Read → Prop}
    (hchecks : ∀ checks s', lastChecks s'.reads = some checks → Q (some checks) s')
    (hnone : ∀ s', Q none s') : Ensures (fetchOnResume env expectedSha) s Q := by
  unfold fetchOnResume
  split
  · refine ensures_ask fun checks w => ?_
    cases checks with
    | none => exact hnone _
    | some checks => exact hchecks checks _ rfl
  · refine ensures_trying_ask ?_ ?_
    · intro checks w _
      cases checks with
      | none => exact hnone _
      | some checks => exact hchecks checks _ rfl
    · intro e checks w hhandled
      cases e with
      | unknownCommit message =>
        cases hhandled
        exact hnone _
      | runtime message => cases hhandled
      | os message => cases hhandled
      | other message => cases hhandled

/-- The resume check for the commit that the working tree is on. -/
def checkCiOf (cfg : CIConfig) (sha : Text) : Ci ω (Option StepResult) := do
  match ← fetchOnResume env sha with
  | none => pure none
  | some checks =>
    let checks := withoutExcluded cfg checks
    if checks.isEmpty then pure none
    else if !(checks.all CICheck.isCompleted) then pure none
    else
      let mismatch ← movedHead env sha
      if mismatch.isSome then pure none else pure (some (judgeResumed checks))

theorem checkCiOnResume_ensures (cfg : CIConfig) : Ensures (checkCiOnResume env cfg) s (PathPost cfg) := by
  have hnothing : ∀ s' : Session ω Read, PathPost cfg none s' := fun s' r h => by cases h
  have hrest : ∀ (sha : Text) (s' : Session ω Read), Ensures (checkCiOf env cfg sha) s' (PathPost cfg) := by
    intro sha s'
    refine ensures_bind (fetchOnResume_ensures env sha ?_ fun s'' => ensures_pure (hnothing s''))
    intro checks s'' hlast
    dsimp only
    split
    · exact ensures_pure (hnothing s'')
    · next hne =>
      split
      · exact ensures_pure (hnothing s'')
      · next hcompleted =>
        have hgreen : (judgeResumed (withoutExcluded cfg checks)).success = true →
            Green (withoutExcluded cfg checks) :=
          judgeResumed_success (by simpa using hne) (by simpa using hcompleted)
        refine ensures_bind (movedHead_ensures env ?_ ?_)
        · refine ensures_pure fun r h hsuccess => ?_
          cases h
          exact .inl ⟨checks, hlast, hgreen hsuccess⟩
        · intro moved headSha w
          split
          · exact ensures_pure (hnothing _)
          · refine ensures_pure fun r h hsuccess => ?_
            cases h
            exact .inl ⟨checks, hlast, hgreen hsuccess⟩
  refine ensures_bind (getLocalHeadSha_ensures env ?_ ?_)
  · intro sha read w
    exact hrest sha _
  · intro sha w
    exact hrest sha _

theorem pollAndReport_ensures (ctx : StepContext) (fuel : Nat) :
    Ensures (pollAndReport env ctx fuel) s fun outcome s' =>
      ∀ r, outcome = .returned r → r.success = true → Justified ctx.config s'.reads := by
  refine ensures_bind ((pollCi_ensures env ctx.config fuel).mono ?_)
  intro polled s' hpost
  cases polled with
  | none => exact ensures_pure fun r h => by cases h
  | some polled =>
    dsimp only
    split
    · refine ensures_pure fun r h hsuccess => ?_
      cases h
      exact hpost polled.1 rfl hsuccess
    · exact ensures_pure fun r h => by cases h

theorem resumeOrPoll_ensures (ctx : StepContext) (fuel : Nat) :
    Ensures (resumeOrPoll env ctx fuel) s fun outcome s' =>
      ∀ r, outcome = .returned r → r.success = true → Justified ctx.config s'.reads := by
  have hresume : Ensures (resumePath env ctx) s (PathPost ctx.config) := by
    unfold resumePath
    split
    · exact checkCiOnResume_ensures env ctx.config
    · exact ensures_pure fun r h => by cases h
  refine ensures_bind (hresume.mono ?_)
  intro resumed s' hpost
  cases resumed with
  | none => exact pollAndReport_ensures env ctx fuel
  | some result =>
    refine ensures_pure fun r h hsuccess => ?_
    cases h
    exact hpost result rfl hsuccess

/-! ## The fast path -/

/-- The fast path is taken, and the pull request lists checks that are completed and have not failed, but
none of them passed and some are cancelled. -/
def fastPathCancelled (ctx : StepContext) (w : ω) : Prop :=
  ctx.prNumber.isSome = true ∧ ctx.noNewCommits = true ∧
    ∃ checks, (env.getCiChecks w).1 = .ok (some checks) ∧
      (withoutExcluded ctx.config checks).all CICheck.isCompleted = true ∧
      (withoutExcluded ctx.config checks).all (fun c => !c.isFailed) = true ∧
      onlyCancelled (withoutExcluded ctx.config checks) = true

theorem checkExistingCi_ensures (ctx : StepContext) (hpr : ctx.prNumber.isSome = true)
    (hfast : ctx.noNewCommits = true) (h : ¬ fastPathCancelled env ctx s.world) :
    Ensures (checkExistingCi env ctx.config) s (PathPost ctx.config) := by
  have hnothing : ∀ s' : Session ω Read, PathPost ctx.config none s' := fun s' r h => by cases h
  refine ensures_bind (ensures_trying_ask ?_ ?_)
  · intro checks w hanswer
    cases checks with
    | none => exact ensures_pure (hnothing _)
    | some checks =>
      dsimp only [id]
      split
      · exact ensures_pure (hnothing _)
      · next hne =>
        split
        · exact ensures_pure (hnothing _)
        · next hpending =>
          have hcompleted : (withoutExcluded ctx.config checks).all CICheck.isCompleted = true := by
            simpa using hpending
          refine ensures_pure fun r hr hsuccess => ?_
          cases hr
          have hfailed : (withoutExcluded ctx.config checks).all (fun c => !c.isFailed) = true := by
            unfold judgeExisting at hsuccess
            dsimp only at hsuccess
            split at hsuccess
            · cases hsuccess
            · next hnone => simpa using hnone
          have hcancelled : onlyCancelled (withoutExcluded ctx.config checks) = false := by
            by_contra honly
            exact h ⟨hpr, hfast, checks, by rw [hanswer], hcompleted, hfailed, by simpa using honly⟩
          exact .inl ⟨checks, rfl,
            judgeExisting_success (by simpa using hne) hcompleted hcancelled hsuccess⟩
  · intro e checks w hhandled
    cases e with
    | other message => cases hhandled
    | unknownCommit message =>
      cases hhandled
      exact ensures_pure (hnothing _)
    | runtime message =>
      cases hhandled
      exact ensures_pure (hnothing _)
    | os message =>
      cases hhandled
      exact ensures_pure (hnothing _)

theorem execute_ensures (ctx : StepContext) (fuel : Nat) (h : ¬ fastPathCancelled env ctx s.world) :
    Ensures (execute env ctx fuel) s fun outcome s' =>
      ∀ r, outcome = .returned r → r.success = true → Justified ctx.config s'.reads := by
  unfold execute
  split
  · refine ensures_pure fun r hr hsuccess => ?_
    cases hr
    cases hsuccess
  · next hpr =>
    have hfast : Ensures (fastPath env ctx) s (PathPost ctx.config) := by
      unfold fastPath
      split
      · next hnew => exact checkExistingCi_ensures env ctx (Option.isSome_iff_ne_none.mpr (by simpa using hpr)) hnew h
      · exact ensures_pure fun r h => by cases h
    refine ensures_bind (hfast.mono ?_)
    intro existing s' hpost
    cases existing with
    | none => exact resumeOrPoll_ensures env ctx fuel
    | some result =>
      refine ensures_pure fun r hr hsuccess => ?_
      cases hr
      exact hpost result rfl hsuccess

/-- On a list of cancelled checks the fast path passes at once. -/
theorem execute_fastPathCancelled {ctx : StepContext} {w : ω} (h : fastPathCancelled env ctx w)
    (fuel : Nat) :
    ∃ result checks w', execute env ctx fuel { world := w } =
        (.ok (.returned result), { world := w', reads := [.prChecks (some checks)] }) ∧
      result.success = true ∧ onlyCancelled (withoutExcluded ctx.config checks) = true := by
  obtain ⟨hpr, hfast, checks, hanswer, hcompleted, hfailed, hcancelled⟩ := h
  refine ⟨judgeExisting (withoutExcluded ctx.config checks), checks, (env.getCiChecks w).2, ?_, ?_,
    hcancelled⟩
  · have hne : (withoutExcluded ctx.config checks).isEmpty = false := by
      cases hleft : withoutExcluded ctx.config checks with
      | nil =>
        rw [hleft] at hcancelled
        cases hcancelled
      | cons c rest => rfl
    have hask : env.getCiChecks w = (.ok (some checks), (env.getCiChecks w).2) := Prod.ext hanswer rfl
    have hexisting : checkExistingCi env ctx.config { world := w } =
        (.ok (some (judgeExisting (withoutExcluded ctx.config checks))),
          { world := (env.getCiChecks w).2, reads := [.prChecks (some checks)] }) := by
      unfold checkExistingCi
      refine (bind_ok (some checks)
        { world := (env.getCiChecks w).2, reads := [.prChecks (some checks)] } ?_).trans ?_
      · unfold trying getCiChecks ask
        rw [hask]
        rfl
      · dsimp only
        rw [hne, hcompleted]
        rfl
    have hnone : ctx.prNumber.isNone = false := by
      rw [← Option.not_isSome, hpr]
      rfl
    unfold execute fastPath
    rw [hnone, hfast]
    simp only [Bool.false_eq_true, if_false, if_true]
    rw [bind_ok _ _ hexisting]
    rfl
  · have hempty : ((withoutExcluded ctx.config checks).filter CICheck.isFailed).isEmpty = true := by
      simpa using hfailed
    unfold judgeExisting
    dsimp only
    rw [hempty]
    rfl

/-- A list of cancelled checks is no justification. -/
theorem not_justified_cancelled {cfg : CIConfig} {checks : List CICheck}
    (h : onlyCancelled (withoutExcluded cfg checks) = true) : ¬ Justified cfg [.prChecks (some checks)] := by
  rintro (⟨checks', hlast, hgreen⟩ | hexcluded | hnone)
  · cases hlast
    exact hgreen.2.2.2 ((onlyCancelled_iff _).mp h)
  · cases hexcluded
  · cases hnone

/-- The step passes without the fix loop only on a justification exactly when the fast path does not come
upon a list of cancelled checks. -/
theorem execute_justified_iff (ctx : StepContext) (w : ω) :
    (∀ fuel result s, execute env ctx fuel { world := w } = (.ok (.returned result), s) →
      result.success = true → Justified ctx.config s.reads) ↔ ¬ fastPathCancelled env ctx w := by
  constructor
  · intro hjustified hcancelled
    obtain ⟨result, checks, w', hexecute, hsuccess, honly⟩ := execute_fastPathCancelled env hcancelled 0
    exact not_justified_cancelled honly (hjustified 0 result _ hexecute hsuccess)
  · intro hcancelled fuel result s hexecute hsuccess
    exact execute_ensures env ctx fuel hcancelled _ s hexecute result rfl hsuccess

/-- A pull request whose only check was cancelled, with nothing else to read. -/
def cancelledOnly : Env Unit where
  getCiChecks w :=
    (.ok (some [{ name := "build".toList, status := .completed, conclusion := some .cancelled }]), w)
  getCiChecksForSha _ w := (.ok none, w)
  getPrHeadSha w := (.ok [], w)
  shaHasWorkflowRuns _ w := (.ok none, w)
  revParseHead w := (.ok (false, []), w)
  monotonic w := (0, w)

/-- The step passes, on nothing but a cancelled check. -/
theorem execute_passes_cancelled :
    ¬ ∀ (ω : Type) (env : Env ω) (ctx : StepContext) (w : ω) (fuel : Nat) (result : StepResult)
      (s : Session ω Read), execute env ctx fuel { world := w } = (.ok (.returned result), s) →
        result.success = true → Justified ctx.config s.reads := by
  intro hclaim
  have hcancelled : fastPathCancelled cancelledOnly { prNumber := some 1, noNewCommits := true } () :=
    ⟨rfl, rfl, _, rfl, by decide, by decide, by decide⟩
  obtain ⟨result, checks, w', hexecute, hsuccess, honly⟩ :=
    execute_fastPathCancelled cancelledOnly hcancelled 0
  exact not_justified_cancelled honly (hclaim Unit cancelledOnly _ () 0 result _ hexecute hsuccess)

end Core.MonitorCi

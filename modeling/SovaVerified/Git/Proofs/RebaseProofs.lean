import Mathlib.Algebra.Order.BigOperators.Group.List
import SovaVerified.Git.Rebase

/-!
# Cleaning up after a rebase, and continuing only when it is clean

What a run spends is found once for any weight of its entries: with one weight it counts the calls of a
model, with another one the commands of a kind that it does not give.
-/

namespace Git.Rebase

open Outside

variable {ω : Type} {services : Services ω} {settings : Settings} {s : Session ω Event}

/-! ## What a run spends -/

/-- A weight of entries under which a turn of the loop over attempts weighs at most `attempt`, and a round
of the consensus models, with all the calls in it, at most `round`. -/
structure Tariff (w : Event → ℤ) (ask attempt round : ℤ) : Prop where
  ask_nonneg : 0 ≤ ask
  attempt_nonneg : 0 ≤ attempt
  round_nonneg : 0 ≤ round
  ran : ∀ command outcome, command ≠ .stash → command ≠ .rebaseContinue → w (.ran command outcome) ≤ 0
  checked : ∀ files, w (.checked files) ≤ 0
  resolving : ∀ files, w (.resolving files) ≤ attempt
  asked : ∀ model file, w (.asked model file) ≤ ask
  round : ∀ models files,
    w (.round models files) + (files.length : ℤ) * (models.length * ask) ≤ round

/-- What a turn of the loop over commits weighs at most. -/
def Settings.turn (settings : Settings) (attempt round : ℤ) : ℤ :=
  round + settings.maxAttempts * attempt

section Spends

variable {w : Event → ℤ} {ask attempt round : ℤ}

theorem spends_run (services : Services ω) (command : GitCommand)
    (h : ∀ outcome, w (.ran command outcome) ≤ 0) :
    Spends w (run services command) 0 :=
  spends_perform h

theorem spends_consensusModels (services : Services ω)
    (h : ∀ outcome, w (.ran .configDiff3 outcome) ≤ 0) :
    Spends w (consensusModels services) 0 := by
  unfold consensusModels
  refine spends_first (spends_act (le_refl 0)) fun config => ?_
  split_ifs
  · refine spends_first (spends_run services .configDiff3 h) fun _ => ?_
    exact spends_first (spends_act (le_refl 0)) fun _ => spends_pure (le_refl 0)
  · exact spends_pure (le_refl 0)

theorem spends_addConflicted (files unresolved : List Text) :
    Spends w (addConflicted services unresolved files) 0 := by
  induction files generalizing unresolved with
  | nil => exact spends_pure (le_refl 0)
  | cons path files ih =>
    unfold addConflicted
    split_ifs
    · exact ih unresolved
    · exact spends_first (spends_trying (spends_act (le_refl 0))) fun conflict => ih _

variable (h : Tariff w ask attempt round)
include h

theorem spends_getConflictedFiles : Spends w (getConflictedFiles services) 0 := by
  unfold getConflictedFiles
  refine spends_first (spends_run services .unmerged fun o => h.ran _ o (by simp) (by simp)) fun result => ?_
  exact spends_first (spends_note (h.checked _)) fun _ => spends_pure (le_refl 0)

theorem spends_unresolvedPaths (files : List Text) : Spends w (unresolvedPaths services files) 0 := by
  unfold unresolvedPaths
  refine spends_first (spends_getConflictedFiles h) fun unmerged => ?_
  cases unmerged with
  | none => exact spends_pure (le_refl 0)
  | some unmerged =>
    refine spends_first (spends_addConflicted files unmerged) fun unresolved => ?_
    exact spends_first (spends_note (h.checked _)) fun _ => spends_pure (le_refl 0)

theorem spends_invokeModel (filename content : Text) (budget : Option ℚ) (model : Text) :
    Spends w (invokeModel services filename content budget model) ask := by
  unfold invokeModel
  exact spends_first (spends_note (h.asked model filename)) fun _ =>
    spends_trying (spends_act (le_refl 0))

theorem spends_resolveFileWithConsensus (config : ConsensusConfig) (budget : Option ℚ)
    (filename content : Text) :
    Spends w (resolveFileWithConsensus services config budget filename content)
      (config.models.length * ask) := by
  unfold resolveFileWithConsensus
  split_ifs
  · exact spends_pure (mul_nonneg (by omega) h.ask_nonneg)
  · refine spends_first ?_ fun _ => spends_pure (le_refl 0)
    exact spends_gather fun model _ => spends_invokeModel h filename content _ model

theorem spends_resolveFiles (config : ConsensusConfig) (budget : Option ℚ) (cost : ℚ)
    (files : List Text) :
    Spends w (resolveFiles services config budget cost files)
      (files.length * (config.models.length * ask)) := by
  have hmodels : 0 ≤ (config.models.length : ℤ) * ask := mul_nonneg (by omega) h.ask_nonneg
  induction files generalizing cost with
  | nil => exact spends_pure (by simp)
  | cons filepath files ih =>
    have hfiles : 0 ≤ (files.length : ℤ) * (config.models.length * ask) := mul_nonneg (by omega) hmodels
    have hlength : ((filepath :: files).length : ℤ) * (config.models.length * ask) =
        config.models.length * ask + files.length * (config.models.length * ask) := by
      rw [List.length_cons, Nat.cast_succ]
      ring
    unfold resolveFiles
    rw [hlength]
    refine spends_rest (spends_trying (spends_act (le_refl 0))) (fun content => ?_) (by omega)
    cases content with
    | none => exact spends_pure (by omega)
    | some content =>
      refine spends_bind (spends_resolveFileWithConsensus h config budget filepath content) ?_ hfiles
      rintro ⟨resolved, fileCost⟩
      cases resolved with
      | none => exact spends_pure hfiles
      | some text =>
        refine spends_rest (spends_act (le_refl 0)) (fun _ => ?_) hfiles
        have hadd := spends_run services (.add filepath) fun o =>
          h.ran (.add filepath) o (by simp) (by simp)
        refine spends_rest hadd (fun stage => ?_) hfiles
        split_ifs
        · exact ih _
        · exact spends_pure hfiles

theorem spends_tryConsensusResolution (config : ConsensusConfig) (budget : Option ℚ)
    (files : List Text) : Spends w (tryConsensusResolution services config budget files) round := by
  have hfiles : 0 ≤ (files.length : ℤ) * (config.models.length * ask) :=
    mul_nonneg (by omega) (mul_nonneg (by omega) h.ask_nonneg)
  unfold tryConsensusResolution
  exact (spends_bind (spends_note (le_refl _)) (fun _ => spends_resolveFiles h config _ 0 files)
    hfiles).mono (h.round config.models files)

theorem spends_popStash : Spends w (popStash services settings) 0 := by
  unfold popStash
  split_ifs
  · exact spends_first (spends_run services .stashPop fun o => h.ran _ o (by simp) (by simp)) fun _ =>
      spends_pure (le_refl 0)
  · exact spends_pure (le_refl 0)

theorem spends_giveUp (resolved : Nat) (error : Text) :
    Spends w (giveUp services settings resolved error) 0 := by
  unfold giveUp
  refine spends_first (spends_run services .rebaseAbort fun o => h.ran _ o (by simp) (by simp)) fun _ => ?_
  exact spends_first (spends_popStash h) fun _ => spends_pure (le_refl 0)

theorem spends_abortUnverifiable (p : Progress) :
    Spends w (abortUnverifiable services settings p) 0 := by
  unfold abortUnverifiable
  exact spends_first (spends_giveUp h _ _) fun _ => spends_pure (le_refl 0)

theorem spends_finish (p : Progress) : Spends w (finish services settings p) 0 := by
  unfold finish
  refine spends_first (spends_popStash h) fun popped => ?_
  split_ifs
  · exact spends_pure (le_refl 0)
  · exact spends_pure (le_refl 0)

theorem spends_attempts (conflicted remaining : List Text) (cost : ℚ) (left : Nat) :
    Spends w (attempts services settings conflicted remaining cost left) (left * attempt) := by
  induction left generalizing conflicted remaining cost with
  | zero => exact spends_pure (by simp)
  | succ left ih =>
    have hleft : 0 ≤ (left : ℤ) * attempt := mul_nonneg (by omega) h.attempt_nonneg
    have hsucc : ((left + 1 : ℕ) : ℤ) * attempt = attempt + left * attempt := by
      rw [Nat.cast_succ]
      ring
    unfold attempts
    rw [hsucc]
    refine spends_bind (spends_note (h.resolving conflicted)) (fun _ => ?_) hleft
    refine spends_rest (spends_trying (spends_act (le_refl 0))) (fun answer => ?_) hleft
    cases answer with
    | error error => exact spends_pure hleft
    | ok callCost =>
      refine spends_rest (spends_unresolvedPaths h conflicted) (fun verified => ?_) hleft
      rcases verified with _ | _ | ⟨file, files⟩
      · exact spends_pure hleft
      · exact spends_pure hleft
      · exact ih _ _ _

variable (hcontinue : ∀ outcome, w (.ran .rebaseContinue outcome) ≤ 0)
include hcontinue

theorem spends_continueResolved (p : Progress) :
    Spends w (continueResolved services settings p) 0 := by
  unfold continueResolved
  refine spends_first (spends_run services .rebaseContinue hcontinue) fun cont => ?_
  split_ifs
  · exact spends_finish h _
  · refine spends_first (spends_unresolvedPaths h _) fun next => ?_
    cases next with
    | none => exact spends_abortUnverifiable h _
    | some next => exact spends_pure (le_refl 0)

theorem spends_resolveCommit (p : Progress) :
    Spends w (resolveCommit services settings p) (settings.maxAttempts * attempt) := by
  unfold resolveCommit
  refine spends_first (spends_attempts h p.conflicted [] p.cost settings.maxAttempts) ?_
  rintro ⟨outcome, cost⟩
  cases outcome with
  | failed error => exact spends_first (spends_giveUp h _ _) fun _ => spends_pure (le_refl 0)
  | unverifiable => exact spends_abortUnverifiable h _
  | clean conflicted => exact spends_continueResolved h hcontinue _
  | unresolved remaining => exact spends_first (spends_giveUp h _ _) fun _ => spends_pure (le_refl 0)

theorem spends_fallBack (p : Progress) :
    Spends w (fallBack services settings p) (settings.maxAttempts * attempt) := by
  have hattempts : 0 ≤ (settings.maxAttempts : ℤ) * attempt := mul_nonneg (by omega) h.attempt_nonneg
  unfold fallBack
  refine spends_rest (spends_getConflictedFiles h) (fun still => ?_) hattempts
  rcases still with _ | _ | ⟨file, files⟩
  · exact spends_resolveCommit h hcontinue p
  · exact spends_resolveCommit h hcontinue p
  · exact spends_resolveCommit h hcontinue _

theorem spends_resolveByConsensus (config : ConsensusConfig) (p : Progress) :
    Spends w (resolveByConsensus services settings config p) (settings.turn attempt round) := by
  have hattempts : 0 ≤ (settings.maxAttempts : ℤ) * attempt := mul_nonneg (by omega) h.attempt_nonneg
  unfold resolveByConsensus Settings.turn
  refine spends_bind (spends_tryConsensusResolution h config settings.budget p.conflicted) ?_ hattempts
  rintro ⟨resolved, cost⟩
  cases resolved with
  | false => exact spends_fallBack h hcontinue _
  | true =>
    refine spends_rest (spends_unresolvedPaths h _) (fun remaining => ?_) hattempts
    rcases remaining with _ | _ | ⟨file, files⟩
    · exact (spends_abortUnverifiable h _).mono hattempts
    · refine Spends.mono (n := 0) ?_ hattempts
      refine spends_first (spends_run services .rebaseContinue hcontinue) fun cont => ?_
      split_ifs
      · exact spends_finish h _
      · refine spends_first (spends_getConflictedFiles h) fun next => ?_
        cases next with
        | none => exact spends_abortUnverifiable h _
        | some next => exact spends_pure (le_refl 0)
    · exact spends_fallBack h hcontinue _

omit hcontinue in
theorem turn_nonneg (settings : Settings) : 0 ≤ settings.turn attempt round := by
  have hattempts : 0 ≤ (settings.maxAttempts : ℤ) * attempt := mul_nonneg (by omega) h.attempt_nonneg
  have hround := h.round_nonneg
  unfold Settings.turn
  omega

theorem spends_commitTurn (p : Progress) :
    Spends w (commitTurn services settings p) (settings.turn attempt round) := by
  have hturn := turn_nonneg h settings
  have hround := h.round_nonneg
  unfold commitTurn
  split_ifs
  · refine Spends.mono (n := 0) ?_ hturn
    refine spends_first (spends_run services .rebaseContinue hcontinue) fun cont => ?_
    split_ifs
    · exact spends_finish h _
    · exact spends_pure (le_refl 0)
  · cases settings.consensus with
    | some config => exact spends_resolveByConsensus h hcontinue config p
    | none =>
      refine (spends_resolveCommit h hcontinue p).mono ?_
      unfold Settings.turn
      omega

theorem spends_commitLoop (p : Progress) (left : Nat) :
    Spends w (commitLoop services settings p left) (left * settings.turn attempt round) := by
  have hturn := turn_nonneg h settings
  induction left generalizing p with
  | zero => exact spends_pure (by simp)
  | succ left ih =>
    have hleft : 0 ≤ (left : ℤ) * settings.turn attempt round := mul_nonneg (by omega) hturn
    have hsucc : ((left + 1 : ℕ) : ℤ) * settings.turn attempt round =
        settings.turn attempt round + left * settings.turn attempt round := by
      rw [Nat.cast_succ]
      ring
    unfold commitLoop
    rw [hsucc]
    refine spends_bind (spends_commitTurn h hcontinue p) (fun turn => ?_) hleft
    cases turn with
    | goOn p => exact ih p
    | leave p => exact spends_pure hleft
    | done result cost => exact spends_pure hleft

theorem spends_resolveRebase (p : Progress) :
    Spends w (resolveRebase services settings p)
      (settings.maxCommits * settings.turn attempt round) := by
  unfold resolveRebase
  refine spends_first (spends_commitLoop h hcontinue p settings.maxCommits) fun turn => ?_
  cases turn with
  | goOn p =>
    refine spends_first (spends_giveUp h _ _) fun _ => ?_
    split_ifs
    · exact spends_raise (le_refl 0)
    · exact spends_pure (le_refl 0)
  | leave p => exact spends_first (spends_giveUp h _ _) fun _ => spends_pure (le_refl 0)
  | done result cost => exact spends_pure (le_refl 0)

theorem spends_rebaseOnto (base : Text) :
    Spends w (rebaseOnto services settings base)
      (settings.maxCommits * settings.turn attempt round) := by
  have hall : 0 ≤ (settings.maxCommits : ℤ) * settings.turn attempt round :=
    mul_nonneg (by omega) (turn_nonneg h settings)
  unfold rebaseOnto
  have hrebase := spends_run services (.rebase ("origin/".toList ++ base)) fun o =>
    h.ran _ o (by simp) (by simp)
  refine spends_rest hrebase (fun result => ?_) hall
  split_ifs
  · refine Spends.mono (n := 0) ?_ hall
    refine spends_first (spends_popStash h) fun popped => ?_
    split_ifs
    · exact spends_pure (le_refl 0)
    · exact spends_pure (le_refl 0)
  · refine spends_rest (spends_getConflictedFiles h) (fun conflicted => ?_) hall
    have hgiveUp : ∀ error, Spends w (giveUp services settings 0 error >>= fun result =>
        (pure (result, 0) : Action ω (RebaseResult × ℚ))) 0 := fun error =>
      spends_first (spends_giveUp h _ _) fun _ => spends_pure (le_refl 0)
    rcases conflicted with _ | _ | ⟨file, files⟩
    · exact (hgiveUp _).mono hall
    · exact (hgiveUp _).mono hall
    · exact spends_resolveRebase h hcontinue _

theorem spends_rebaseWithConflictResolution (hstash : ∀ outcome, w (.ran .stash outcome) ≤ 0)
    (base : Text) (model : Option Text) (budget : Option ℚ) (maxAttempts maxCommits : Nat) :
    Spends w (rebaseWithConflictResolution services base model budget maxAttempts maxCommits)
      (maxCommits * (round + maxAttempts * attempt)) := by
  have hall : 0 ≤ (maxCommits : ℤ) * (round + maxAttempts * attempt) :=
    mul_nonneg (by omega) (turn_nonneg h { maxAttempts := maxAttempts })
  have hfetch := spends_run services (.fetch base) fun o => h.ran _ o (by simp) (by simp)
  have hunstage := spends_run services .unstage fun o => h.ran _ o (by simp) (by simp)
  unfold rebaseWithConflictResolution
  have hconfig := spends_consensusModels services fun o =>
    h.ran .configDiff3 o (by simp) (by simp)
  refine spends_rest hconfig (fun consensus => ?_) hall
  refine spends_rest hfetch (fun fetch => ?_) hall
  split_ifs
  · refine spends_rest hunstage (fun _ => ?_) hall
    refine spends_rest (spends_trying (spends_act (le_refl 0))) (fun cleared => ?_) hall
    cases cleared with
    | some error => exact spends_pure hall
    | none =>
      refine spends_rest (spends_run services .stash hstash) (fun stash => ?_) hall
      exact spends_rebaseOnto h hcontinue base
  · exact spends_pure hall

end Spends

/-! ## Continuing only when it is clean -/

/-- What the latest conflict check of a run said. -/
def latestCheck : List Event → Option (Option (List Text))
  | [] => none
  | .checked files :: _ => some files
  | _ :: log => latestCheck log

/-- Each `git rebase --continue` of a run came after a check whose list was empty. -/
def ContinuesClean (log : List Event) : Prop :=
  ∀ later outcome earlier, log = later ++ .ran .rebaseContinue outcome :: earlier →
    latestCheck earlier = some (some [])

theorem continuesClean_nil : ContinuesClean [] := by
  intro later outcome earlier h
  cases later <;> cases h

theorem continuesClean_cons {e : Event} {log : List Event} (h : ContinuesClean log)
    (he : ∀ outcome, e = .ran .rebaseContinue outcome → latestCheck log = some (some [])) :
    ContinuesClean (e :: log) := by
  intro later outcome earlier heq
  cases later with
  | nil =>
    obtain ⟨hentry, hlog⟩ := List.cons.inj heq
    rw [← hlog]
    exact he outcome hentry
  | cons e' later => exact h later outcome earlier (List.cons.inj heq).2

/-- One for each `git rebase --continue`. -/
def continues : Event → ℤ
  | .ran .rebaseContinue _ => 1
  | _ => 0

theorem continues_nonneg (e : Event) : 0 ≤ continues e := by
  unfold continues
  split
  · exact Int.one_nonneg
  · exact le_refl 0

/-- Where entries of weight zero are added, none of them counts. -/
theorem eq_zero_of_sum_le {w : Event → ℤ} (hw : ∀ e, 0 ≤ w e) {es : List Event}
    (h : (es.map w).sum ≤ 0) : ∀ e ∈ es, w e = 0 := by
  induction es with
  | nil => simp
  | cons e es ih =>
    have hes : 0 ≤ (es.map w).sum := List.sum_nonneg (by simpa using fun e _ => hw e)
    have he := hw e
    rw [List.map_cons, List.sum_cons] at h
    exact List.forall_mem_cons.mpr ⟨by omega, ih (by omega)⟩

theorem continuesClean_append {es log : List Event} (hes : (es.map continues).sum ≤ 0)
    (h : ContinuesClean log) : ContinuesClean (es ++ log) := by
  have hzero := eq_zero_of_sum_le continues_nonneg hes
  clear hes
  induction es with
  | nil => exact h
  | cons e es ih =>
    obtain ⟨he, hrest⟩ := List.forall_mem_cons.mp hzero
    refine continuesClean_cons (ih hrest) ?_
    rintro outcome rfl
    cases he

theorem continues_tariff : Tariff continues 0 0 0 where
  ask_nonneg := le_refl 0
  attempt_nonneg := le_refl 0
  round_nonneg := le_refl 0
  ran := by
    intro command outcome _ hcontinue
    cases command <;> first | exact le_refl 0 | exact absurd rfl hcontinue
  checked := fun _ => le_refl 0
  resolving := fun _ => le_refl 0
  asked := fun _ _ => le_refl 0
  round := by
    intro models files
    simp [continues]

/-- A part of the program that does not continue the rebase. -/
theorem always_quiet {α : Type} {p : Action ω α} (h : Spends continues p 0)
    (hI : ContinuesClean s.reads) : Always p s ContinuesClean fun _ _ => True :=
  Emits.always h (fun _ hes => continuesClean_append hes hI) fun _ _ _ => trivial

/-- Nothing but a clean conflict check comes between it and the command. -/
theorem always_continue (hI : ContinuesClean s.reads) (hclean : latestCheck s.reads = some (some [])) :
    Always (run services .rebaseContinue) s ContinuesClean fun _ _ => True :=
  always_perform (fun _ => continuesClean_cons hI fun _ _ => hclean) fun _ => trivial

theorem always_getConflictedFiles (hI : ContinuesClean s.reads) :
    Always (getConflictedFiles services) s ContinuesClean fun files es =>
      latestCheck es = some files := by
  unfold getConflictedFiles
  refine always_bind (always_perform ?_ ?_)
  · exact fun _ => continuesClean_cons hI fun _ h => by cases h
  · rintro result s₁ hs₁
    have hI₁ : ContinuesClean s₁.reads := by
      rw [hs₁]
      exact continuesClean_cons hI fun _ h => by cases h
    have hI₂ : ∀ files, ContinuesClean (.checked files :: s₁.reads) := fun files =>
      continuesClean_cons hI₁ fun _ h => by cases h
    refine always_bind (always_note (hI₂ _) ?_)
    intro s₂ hs₂
    refine always_pure ?_ ?_
    · rw [hs₂]
      exact hI₂ _
    · rw [hs₂]
      rfl

theorem always_unresolvedPaths (files : List Text) (hI : ContinuesClean s.reads) :
    Always (unresolvedPaths services files) s ContinuesClean fun unresolved es =>
      latestCheck es = some unresolved := by
  unfold unresolvedPaths
  refine always_bind ((always_getConflictedFiles hI).mono ?_)
  rintro unmerged es hI₁ hcheck s₁ rfl
  cases unmerged with
  | none => exact always_pure hI₁ hcheck
  | some unmerged =>
    refine always_bind ((always_quiet (spends_addConflicted files unmerged) hI₁).mono ?_)
    rintro unresolved es hI₂ - s₂ rfl
    have hI₃ : ContinuesClean (.checked (some unresolved) :: s₂.reads) :=
      continuesClean_cons hI₂ fun _ h => by cases h
    refine always_bind (always_note hI₃ ?_)
    intro s₃ hs₃
    refine always_pure ?_ ?_
    · rw [hs₃]
      exact hI₃
    · rw [hs₃]
      rfl

/-- The loop over attempts finds the conflicts resolved only by a check, if an attempt is left or there
are paths that remain. -/
theorem always_attempts (conflicted remaining : List Text) (cost : ℚ) (left : Nat)
    (hleft : left = 0 → remaining ≠ []) (hI : ContinuesClean s.reads) :
    Always (attempts services settings conflicted remaining cost left) s ContinuesClean fun r es =>
      ∀ files, r.1 = .clean files → latestCheck es = some (some []) := by
  induction left generalizing conflicted remaining cost s with
  | zero =>
    refine always_pure hI ?_
    intro files hfiles
    rw [if_neg (hleft rfl)] at hfiles
    cases hfiles
  | succ left ih =>
    unfold attempts
    have hI₁ : ContinuesClean (.resolving conflicted :: s.reads) :=
      continuesClean_cons hI fun _ h => by cases h
    refine always_bind (always_note hI₁ ?_)
    intro s₁ hs₁
    rw [← hs₁] at hI₁
    have hcall : Spends (ρ := Event) continues (trying
        (act (services.resolveConflicts conflicted settings.model settings.budget)) Except.ok fun e =>
          if e = .runtimeError then some (Except.error (services.errorText e)) else none) 0 :=
      spends_trying (spends_act (le_refl 0))
    refine always_bind ((always_quiet hcall hI₁).mono ?_)
    rintro answer es hI₂ - s₂ rfl
    cases answer with
    | error error => exact always_pure hI₂ fun files h => nomatch h
    | ok callCost =>
      refine always_bind ((always_unresolvedPaths conflicted hI₂).mono ?_)
      rintro verified es hI₃ hcheck s₃ rfl
      rcases verified with _ | _ | ⟨file, files⟩
      · exact always_pure hI₃ fun files h => nomatch h
      · exact always_pure hI₃ fun _ _ => hcheck
      · exact ih _ _ _ (fun _ => List.cons_ne_nil file files) hI₃

/-- A turn goes on with no conflicts only if the latest check was clean. -/
def Turn.Ready (turn : Turn) (log : List Event) : Prop :=
  ∀ p, turn = .goOn p → p.conflicted = [] → latestCheck log = some (some [])

/-- A part of the program that ends the run. -/
theorem always_done {α : Type} {p : Action ω α} {f : α → RebaseResult × ℚ} (h : Spends continues p 0)
    (hI : ContinuesClean s.reads) :
    Always (p >>= fun a => (pure (.done (f a).1 (f a).2) : Action ω Turn)) s ContinuesClean
      Turn.Ready := by
  refine always_bind ((always_quiet h hI).mono ?_)
  rintro a es hI₁ - s₁ rfl
  exact always_pure hI₁ fun p hp => nomatch hp

theorem always_finish (p : Progress) (hI : ContinuesClean s.reads) :
    Always (finish services settings p) s ContinuesClean Turn.Ready := by
  unfold finish
  refine always_bind ((always_quiet (spends_popStash continues_tariff) hI).mono ?_)
  rintro popped es hI₁ - s₁ rfl
  split_ifs
  · exact always_pure hI₁ fun p hp => nomatch hp
  · exact always_pure hI₁ fun p hp => nomatch hp

theorem always_abortUnverifiable (p : Progress) (hI : ContinuesClean s.reads) :
    Always (abortUnverifiable services settings p) s ContinuesClean Turn.Ready :=
  always_done (f := fun result => (result, p.cost)) (spends_giveUp continues_tariff _ _) hI

/-- A command that continues, and then a check of what is left. -/
theorem always_continueResolved (p : Progress) (hI : ContinuesClean s.reads)
    (hclean : latestCheck s.reads = some (some [])) :
    Always (continueResolved services settings p) s ContinuesClean Turn.Ready := by
  unfold continueResolved
  refine always_bind ((always_continue hI hclean).mono ?_)
  rintro cont es hI₁ - s₁ rfl
  split_ifs
  · exact always_finish _ hI₁
  · refine always_bind ((always_unresolvedPaths _ hI₁).mono ?_)
    rintro next es hI₂ hcheck s₂ rfl
    cases next with
    | none => exact always_abortUnverifiable _ hI₂
    | some next =>
      refine always_pure hI₂ ?_
      rintro p' hp' hnext
      cases hp'
      rw [hcheck, show next = [] from hnext]

theorem always_resolveCommit (p : Progress) (hattempts : settings.maxAttempts ≠ 0)
    (hI : ContinuesClean s.reads) :
    Always (resolveCommit services settings p) s ContinuesClean Turn.Ready := by
  unfold resolveCommit
  refine always_bind ((always_attempts p.conflicted [] p.cost settings.maxAttempts
    (fun h => absurd h hattempts) hI).mono ?_)
  rintro ⟨outcome, cost⟩ es hI₁ hclean s₁ rfl
  cases outcome with
  | failed error =>
    exact always_done (f := fun result => (result, cost)) (spends_giveUp continues_tariff _ _) hI₁
  | unverifiable => exact always_abortUnverifiable _ hI₁
  | clean conflicted => exact always_continueResolved _ hI₁ (hclean conflicted rfl)
  | unresolved remaining =>
    exact always_done (f := fun result => (result, cost)) (spends_giveUp continues_tariff _ _) hI₁

theorem always_fallBack (p : Progress) (hattempts : settings.maxAttempts ≠ 0)
    (hI : ContinuesClean s.reads) :
    Always (fallBack services settings p) s ContinuesClean Turn.Ready := by
  unfold fallBack
  refine always_bind ((always_getConflictedFiles hI).mono ?_)
  rintro still es hI₁ - s₁ rfl
  rcases still with _ | _ | ⟨file, files⟩
  · exact always_resolveCommit p hattempts hI₁
  · exact always_resolveCommit p hattempts hI₁
  · exact always_resolveCommit _ hattempts hI₁

theorem always_resolveByConsensus (config : ConsensusConfig) (p : Progress)
    (hattempts : settings.maxAttempts ≠ 0) (hI : ContinuesClean s.reads) :
    Always (resolveByConsensus services settings config p) s ContinuesClean Turn.Ready := by
  unfold resolveByConsensus
  refine always_bind ((always_quiet
    (spends_tryConsensusResolution continues_tariff config settings.budget p.conflicted) hI).mono ?_)
  rintro ⟨resolved, cost⟩ es hI₁ - s₁ rfl
  cases resolved with
  | false => exact always_fallBack _ hattempts hI₁
  | true =>
    refine always_bind ((always_unresolvedPaths _ hI₁).mono ?_)
    rintro remaining es hI₂ hcheck s₂ rfl
    rcases remaining with _ | _ | ⟨file, files⟩
    · exact always_abortUnverifiable _ hI₂
    · refine always_bind ((always_continue hI₂ hcheck).mono ?_)
      rintro cont es hI₃ - s₃ rfl
      split_ifs
      · exact always_finish _ hI₃
      · refine always_bind ((always_getConflictedFiles hI₃).mono ?_)
        rintro next es hI₄ hnext s₄ rfl
        cases next with
        | none => exact always_abortUnverifiable _ hI₄
        | some next =>
          refine always_pure hI₄ ?_
          rintro p' hp' hempty
          cases hp'
          rw [hnext, show next = [] from hempty]
    · exact always_fallBack _ hattempts hI₂

/-- One turn of the loop over commits keeps to the rule, and leaves the next turn ready to. -/
theorem always_commitTurn (p : Progress) (hattempts : settings.maxAttempts ≠ 0)
    (hI : ContinuesClean s.reads)
    (hready : p.conflicted = [] → latestCheck s.reads = some (some [])) :
    Always (commitTurn services settings p) s ContinuesClean Turn.Ready := by
  unfold commitTurn
  split_ifs with hconflicted
  · refine always_bind ((always_continue hI (hready hconflicted)).mono ?_)
    rintro cont es hI₁ - s₁ rfl
    split_ifs
    · exact always_finish _ hI₁
    · exact always_pure hI₁ fun p hp => nomatch hp
  · cases settings.consensus with
    | some config => exact always_resolveByConsensus config p hattempts hI
    | none => exact always_resolveCommit p hattempts hI

theorem always_commitLoop (p : Progress) (left : Nat) (hattempts : settings.maxAttempts ≠ 0)
    (hI : ContinuesClean s.reads)
    (hready : p.conflicted = [] → latestCheck s.reads = some (some [])) :
    Always (commitLoop services settings p left) s ContinuesClean fun _ _ => True := by
  induction left generalizing p s with
  | zero => exact always_pure hI trivial
  | succ left ih =>
    unfold commitLoop
    refine always_bind ((always_commitTurn p hattempts hI hready).mono ?_)
    rintro turn es hI₁ hturn s₁ rfl
    cases turn with
    | goOn p => exact ih p hI₁ (hturn p rfl)
    | leave p => exact always_pure hI₁ trivial
    | done result cost => exact always_pure hI₁ trivial

theorem always_resolveRebase (p : Progress) (hattempts : settings.maxAttempts ≠ 0)
    (hI : ContinuesClean s.reads) (hconflicted : p.conflicted ≠ []) :
    Always (resolveRebase services settings p) s ContinuesClean fun _ _ => True := by
  unfold resolveRebase
  refine always_bind ((always_commitLoop p settings.maxCommits hattempts hI
    fun h => absurd h hconflicted).mono ?_)
  rintro turn es hI₁ - s₁ rfl
  refine always_quiet ?_ hI₁
  cases turn with
  | goOn p =>
    refine spends_first (spends_giveUp continues_tariff _ _) fun _ => ?_
    split_ifs
    · exact spends_raise (le_refl 0)
    · exact spends_pure (le_refl 0)
  | leave p =>
    exact spends_first (spends_giveUp continues_tariff _ _) fun _ => spends_pure (le_refl 0)
  | done result cost => exact spends_pure (le_refl 0)

theorem always_rebaseOnto (base : Text) (hattempts : settings.maxAttempts ≠ 0)
    (hI : ContinuesClean s.reads) :
    Always (rebaseOnto services settings base) s ContinuesClean fun _ _ => True := by
  unfold rebaseOnto
  have hrebase := spends_run services (.rebase ("origin/".toList ++ base)) fun o =>
    continues_tariff.ran _ o (by simp) (by simp)
  refine always_bind ((always_quiet hrebase hI).mono ?_)
  rintro result es hI₁ - s₁ rfl
  split_ifs
  · refine always_quiet ?_ hI₁
    refine spends_first (spends_popStash continues_tariff) fun popped => ?_
    split_ifs
    · exact spends_pure (le_refl 0)
    · exact spends_pure (le_refl 0)
  · refine always_bind ((always_getConflictedFiles hI₁).mono ?_)
    rintro conflicted es hI₂ - s₂ rfl
    have hgiveUp : ∀ error, Spends continues (giveUp services settings 0 error >>= fun result =>
        (pure (result, 0) : Action ω (RebaseResult × ℚ))) 0 := fun error =>
      spends_first (spends_giveUp continues_tariff _ _) fun _ => spends_pure (le_refl 0)
    rcases conflicted with _ | _ | ⟨file, files⟩
    · exact always_quiet (hgiveUp _) hI₂
    · exact always_quiet (hgiveUp _) hI₂
    · exact always_resolveRebase _ hattempts hI₂ (List.cons_ne_nil file files)

theorem always_rebaseWithConflictResolution (base : Text) (model : Option Text) (budget : Option ℚ)
    {maxAttempts : Nat} (maxCommits : Nat) (hattempts : maxAttempts ≠ 0) (hI : ContinuesClean s.reads) :
    Always (rebaseWithConflictResolution services base model budget maxAttempts maxCommits) s
      ContinuesClean fun _ _ => True := by
  have hrun : ∀ command, command ≠ .stash → command ≠ .rebaseContinue →
      Spends continues (run services command) 0 := fun command hstash hcontinue =>
    spends_run services command fun o => continues_tariff.ran command o hstash hcontinue
  unfold rebaseWithConflictResolution
  have hconfig := spends_consensusModels services fun o =>
    continues_tariff.ran .configDiff3 o (by simp) (by simp)
  refine always_bind ((always_quiet hconfig hI).mono ?_)
  rintro consensus es hI₁ - s₁ rfl
  refine always_bind ((always_quiet (hrun (.fetch base) (by simp) (by simp)) hI₁).mono ?_)
  rintro fetch es hI₂ - s₂ rfl
  split_ifs
  · refine always_bind ((always_quiet (hrun .unstage (by simp) (by simp)) hI₂).mono ?_)
    rintro unstage es hI₃ - s₃ rfl
    refine always_bind ((always_quiet (spends_trying (spends_act (le_refl 0))) hI₃).mono ?_)
    rintro cleared es hI₄ - s₄ rfl
    cases cleared with
    | some error => exact always_pure hI₄ trivial
    | none =>
      refine always_bind ((always_quiet (spends_run services .stash fun _ => le_refl 0) hI₄).mono ?_)
      rintro stash es hI₅ - s₅ rfl
      exact always_rebaseOnto base hattempts hI₅
  · exact always_pure hI₂ trivial

/-! ## Calls of models -/

def Event.isResolving : Event → Bool
  | .resolving _ => true
  | _ => false

def Event.isRound : Event → Bool
  | .round _ _ => true
  | _ => false

def Event.isAsked : Event → Bool
  | .asked _ _ => true
  | _ => false

/-- How many calls a round of the consensus models can make. -/
def Event.roundSize : Event → Nat
  | .round models files => models.length * files.length
  | _ => 0

/-- The weight that counts entries of a kind. -/
def counts (kind : Event → Bool) (e : Event) : ℤ := if kind e then 1 else 0

theorem sum_counts (kind : Event → Bool) (es : List Event) :
    (es.map (counts kind)).sum = es.countP kind := by
  induction es with
  | nil => rfl
  | cons e es ih =>
    rw [List.map_cons, List.sum_cons, ih, List.countP_cons]
    unfold counts
    split_ifs
    · push_cast
      ring
    · simp

/-- The calls of consensus models, less the ones that the rounds can make. -/
def excess (e : Event) : ℤ := counts Event.isAsked e - e.roundSize

theorem sum_excess (es : List Event) :
    (es.map excess).sum = es.countP Event.isAsked - (es.map Event.roundSize).sum := by
  induction es with
  | nil => rfl
  | cons e es ih =>
    have hsum := sum_counts Event.isAsked (e :: es)
    rw [List.map_cons, List.sum_cons, sum_counts] at hsum
    rw [List.map_cons, List.sum_cons, List.map_cons, List.sum_cons, ih, ← hsum]
    unfold excess
    push_cast
    ring

theorem resolving_tariff : Tariff (counts Event.isResolving) 0 1 0 where
  ask_nonneg := le_refl 0
  attempt_nonneg := Int.one_nonneg
  round_nonneg := le_refl 0
  ran := fun _ _ _ _ => le_refl 0
  checked := fun _ => le_refl 0
  resolving := fun _ => le_refl 1
  asked := fun _ _ => le_refl 0
  round := by simp [counts, Event.isResolving]

theorem round_tariff : Tariff (counts Event.isRound) 0 0 1 where
  ask_nonneg := le_refl 0
  attempt_nonneg := le_refl 0
  round_nonneg := Int.one_nonneg
  ran := fun _ _ _ _ => le_refl 0
  checked := fun _ => le_refl 0
  resolving := fun _ => le_refl 0
  asked := fun _ _ => le_refl 0
  round := by simp [counts, Event.isRound]

theorem excess_tariff : Tariff excess 1 0 0 where
  ask_nonneg := Int.one_nonneg
  attempt_nonneg := le_refl 0
  round_nonneg := le_refl 0
  ran := fun _ _ _ _ => le_refl 0
  checked := fun _ => le_refl 0
  resolving := fun _ => le_refl 0
  asked := fun _ _ => le_refl 1
  round := by
    intro models files
    simp [excess, counts, Event.isAsked, Event.roundSize, mul_comm]

theorem sum_roundSize_le {es : List Event} {size : Nat}
    (h : ∀ models files, .round models files ∈ es → models.length * files.length ≤ size) :
    (es.map Event.roundSize).sum ≤ es.countP Event.isRound * size := by
  induction es with
  | nil => simp
  | cons e es ih =>
    have hrest := ih fun models files hmem => h models files (List.mem_cons_of_mem _ hmem)
    rw [List.map_cons, List.sum_cons, List.countP_cons]
    cases e with
    | round models files =>
      have hhead := h models files (List.mem_cons_self ..)
      have hone : Event.isRound (.round models files) = true := rfl
      have hsize : Event.roundSize (.round models files) = models.length * files.length := rfl
      rw [if_pos hone, hsize, Nat.add_mul, one_mul]
      omega
    | ran command outcome => simpa [Event.roundSize, Event.isRound] using hrest
    | checked files => simpa [Event.roundSize, Event.isRound] using hrest
    | resolving files => simpa [Event.roundSize, Event.isRound] using hrest
    | asked model file => simpa [Event.roundSize, Event.isRound] using hrest

/-- With two attempts and two consensus calls, attempts and consensus calls are together at most as many
as their product. -/
theorem add_mul_le {attempts size : Nat} (commits : Nat) (hattempts : 2 ≤ attempts) (hsize : 2 ≤ size) :
    commits * attempts + commits * size ≤ commits * attempts * size := by
  obtain ⟨a, rfl⟩ := Nat.exists_eq_add_of_le hattempts
  obtain ⟨k, rfl⟩ := Nat.exists_eq_add_of_le hsize
  have hsum : 2 + a + (2 + k) ≤ (2 + a) * (2 + k) := by
    have hproduct : (2 + a) * (2 + k) = 4 + 2 * a + 2 * k + a * k := by ring
    rw [hproduct]
    omega
  calc commits * (2 + a) + commits * (2 + k)
      = commits * (2 + a + (2 + k)) := (Nat.mul_add ..).symm
    _ ≤ commits * ((2 + a) * (2 + k)) := Nat.mul_le_mul_left commits hsum
    _ = commits * (2 + a) * (2 + k) := (Nat.mul_assoc ..).symm

/-- Whatever git, the files and the models do, and whether the run returns or raises: the rebase is
continued only after a conflict check that came back empty, and the calls of models are bounded. A round
of consensus models makes at most as many calls as there are models times files. -/
theorem rebaseWithConflictResolution_continues (services : Services ω) (base : Text)
    (model : Option Text) (budget : Option ℚ) (maxAttempts maxCommits : Nat) (world : ω)
    (hattempts : 1 ≤ maxAttempts) :
    let log := (rebaseWithConflictResolution services base model budget maxAttempts maxCommits
      { world := world }).2.reads
    ContinuesClean log ∧
      log.countP Event.isResolving ≤ maxCommits * maxAttempts ∧
      log.countP Event.isRound ≤ maxCommits ∧
      log.countP Event.isAsked ≤ (log.map Event.roundSize).sum ∧
      ∀ size, 2 ≤ maxAttempts → 2 ≤ size →
        (∀ models files, .round models files ∈ log → models.length * files.length ≤ size) →
        log.countP Event.isResolving + log.countP Event.isAsked ≤ maxCommits * maxAttempts * size := by
  intro log
  have hspends : ∀ {w : Event → ℤ} {n : ℤ},
      Spends w (rebaseWithConflictResolution services base model budget maxAttempts maxCommits) n →
        (log.map w).sum ≤ n := by
    intro w n h
    obtain ⟨es, hreads, hes⟩ := h { world := world }
    rw [List.append_nil] at hreads
    show ((rebaseWithConflictResolution services base model budget maxAttempts maxCommits
      { world := world }).2.reads.map w).sum ≤ n
    rw [hreads]
    exact hes
  have hresolving := hspends (spends_rebaseWithConflictResolution resolving_tariff
    (fun _ => le_refl 0) (fun _ => le_refl 0) base model budget maxAttempts maxCommits)
  have hround := hspends (spends_rebaseWithConflictResolution round_tariff
    (fun _ => le_refl 0) (fun _ => le_refl 0) base model budget maxAttempts maxCommits)
  have hexcess := hspends (spends_rebaseWithConflictResolution excess_tariff
    (fun _ => le_refl 0) (fun _ => le_refl 0) base model budget maxAttempts maxCommits)
  rw [sum_counts, zero_add, mul_one] at hresolving
  rw [sum_counts, mul_zero, add_zero, mul_one] at hround
  rw [sum_excess, mul_zero, add_zero, mul_zero] at hexcess
  have hresolving' : log.countP Event.isResolving ≤ maxCommits * maxAttempts := by exact_mod_cast hresolving
  have hround' : log.countP Event.isRound ≤ maxCommits := by exact_mod_cast hround
  have hasked : log.countP Event.isAsked ≤ (log.map Event.roundSize).sum := by omega
  refine ⟨?_, hresolving', hround', hasked, ?_⟩
  · exact (always_rebaseWithConflictResolution base model budget maxCommits (by omega)
      continuesClean_nil).1
  · intro size htwo hsize hrounds
    have hsum := sum_roundSize_le hrounds
    have hmul : log.countP Event.isRound * size ≤ maxCommits * size := Nat.mul_le_mul_right size hround'
    have hall := add_mul_le maxCommits htwo hsize
    omega

/-- The result of the rebase command where it stops at a conflict. -/
def conflict : ShellResult := { success := false, stderr := "CONFLICT (content)".toList }

/-- Services that always answer the same. There is always one conflicted file. -/
def steady (command : GitCommand → Option ShellResult) (models : List Text)
    (answer : Text → Text) (write : Except PyException Unit) : Services Unit where
  run := fun c w =>
    match command c, c with
    | some result, _ => (.ok result, w)
    | none, .unmerged => (.ok { stdout := "a.py".toList }, w)
    | none, .stash => (.ok { stdout := "Saved working directory".toList }, w)
    | none, _ => (.ok {}, w)
  readText := fun _ w => (.ok "x = 1".toList, w)
  writeText := fun _ _ w => (write, w)
  clearConflictingRuntimeFiles := fun _ w => (.ok (), w)
  loadConsensusConfig := fun w => ({ models := models, reaches := fun count total => total ≤ count }, w)
  createProviders := fun _ w => (true, w)
  askModel := fun model _ _ _ w => (.ok (answer model, 0), w)
  resolveConflicts := fun _ _ _ w => (.ok 0, w)
  errorText := fun _ => []

/-- The rebase stops at a conflict, which stays. -/
def conflicting (models : List Text) : Services Unit :=
  steady (fun c => match c with
    | .rebase _ => some conflict
    | _ => none) models id (.ok ())

/-- The conflict stays through three attempts, and the rebase is not continued. -/
theorem conflicting_continues :
    ContinuesClean (rebaseWithConflictResolution (conflicting []) "main".toList none none 3 5
      { world := () }).2.reads :=
  (rebaseWithConflictResolution_continues (conflicting []) "main".toList none none 3 5 ()
    (by decide)).1

/-- Without an attempt, the rebase is continued with its conflict. With one attempt and a round of two
consensus models about one file, there are three calls. -/
theorem no_attempt_continues :
    ¬ContinuesClean (rebaseWithConflictResolution (conflicting []) "main".toList none none 0 5
        { world := () }).2.reads ∧
      let log := (rebaseWithConflictResolution (conflicting ["m1".toList, "m2".toList]) "main".toList
        none none 1 1 { world := () }).2.reads
      log.countP Event.isResolving + log.countP Event.isAsked = 3 ∧
        (log.map Event.roundSize).sum = 2 := by
  constructor
  · intro h
    have hcheck := h [.ran .stashPop (.ok {})] (.ok {}) _ rfl
    cases hcheck
  · decide +kernel

end Git.Rebase

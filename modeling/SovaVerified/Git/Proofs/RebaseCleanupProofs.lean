import SovaVerified.Git.Proofs.RebaseProofs
import SovaVerified.Git.Rebase

/-!
# How a rebase that was started ends

A run that returns without success has aborted the rebase and popped the stash as the last things it did.
There is one exception: the rebase was complete, and only the stash could not be restored.
-/

namespace Git.Rebase

open Outside

variable {ω : Type} {services : Services ω} {settings : Settings} {s : Session ω Event}

/-- The changes of the worktree were stashed. -/
def Stashed (log : List Event) : Prop :=
  ∃ result, .ran .stash (.ok result) ∈ log ∧ pushed result = true

/-- The rebase was started. -/
def Started (log : List Event) : Prop := ∃ onto outcome, .ran (.rebase onto) outcome ∈ log

/-- The last that a run did was to abort the rebase and, where there is a stash, to pop it. -/
def Aborted (stashed : Prop) (log : List Event) : Prop :=
  (stashed ∧ ∃ pop abort rest, log = .ran .stashPop (.ok pop) :: .ran .rebaseAbort (.ok abort) :: rest) ∨
    (¬stashed ∧ ∃ abort rest, log = .ran .rebaseAbort (.ok abort) :: rest)

/-- The rebase was complete, and the stash could not be popped. -/
def RestoreFailed (stashed : Prop) (log : List Event) : Prop :=
  stashed ∧ ∃ pop command complete rest,
    log = .ran .stashPop (.ok pop) :: .ran command (.ok complete) :: rest ∧
      pop.success = false ∧ complete.success = true ∧
      (command = .rebaseContinue ∨ ∃ onto, command = .rebase onto)

/-- How a run with the given result may end. -/
def Ended (stashed : Prop) (result : RebaseResult) (log : List Event) : Prop :=
  result.success = false → Aborted stashed log ∨ RestoreFailed stashed log

/-- A turn that ends the run ends it properly. -/
def Turn.Ended (stashed : Prop) (turn : Turn) (log : List Event) : Prop :=
  ∀ result cost, turn = .done result cost → Rebase.Ended stashed result log

theorem ensures_popStash : Ensures (popStash services settings) s fun popped s' =>
    (settings.stashed = true ∧ ∃ pop, s'.reads = .ran .stashPop (.ok pop) :: s.reads ∧
      popped = pop.success) ∨
    (settings.stashed = false ∧ s'.reads = s.reads ∧ popped = true) := by
  unfold popStash
  split_ifs with hstashed
  · refine ensures_bind (ensures_perform fun pop w => ensures_pure ?_)
    exact .inl ⟨hstashed, pop, rfl, rfl⟩
  · exact ensures_pure (.inr ⟨Bool.eq_false_iff.mpr hstashed, rfl, rfl⟩)

theorem ensures_giveUp (resolved : Nat) (error : Text) :
    Ensures (giveUp services settings resolved error) s fun _ s' =>
      Aborted (settings.stashed = true) s'.reads := by
  unfold giveUp
  refine ensures_bind (ensures_perform fun abort w => ensures_bind (ensures_popStash.mono ?_))
  rintro popped s' (⟨hstashed, pop, hreads, -⟩ | ⟨hstashed, hreads, -⟩)
  · exact ensures_pure (.inl ⟨hstashed, pop, abort, _, hreads⟩)
  · exact ensures_pure (.inr ⟨Bool.eq_false_iff.mp hstashed, abort, _, hreads⟩)

theorem ensures_abortUnverifiable (p : Progress) :
    Ensures (abortUnverifiable services settings p) s fun turn s' =>
      turn.Ended (settings.stashed = true) s'.reads := by
  unfold abortUnverifiable
  refine ensures_bind ((ensures_giveUp _ _).mono ?_)
  rintro result s' haborted
  refine ensures_pure ?_
  rintro result' cost' - -
  exact .inl haborted

/-- After the command that completed the rebase. -/
theorem ensures_finish (p : Progress) {command : GitCommand} {complete : ShellResult}
    {rest : List Event} (hreads : s.reads = .ran command (.ok complete) :: rest)
    (hcomplete : complete.success = true)
    (hcommand : command = .rebaseContinue ∨ ∃ onto, command = .rebase onto) :
    Ensures (finish services settings p) s fun turn s' =>
      turn.Ended (settings.stashed = true) s'.reads := by
  unfold finish
  refine ensures_bind (ensures_popStash.mono ?_)
  rintro popped s' (⟨hstashed, pop, hpop, rfl⟩ | ⟨-, -, rfl⟩)
  · split_ifs with hpopped
    · refine ensures_pure ?_
      rintro result cost hturn hfailed
      cases hturn
      cases hfailed
    · refine ensures_pure ?_
      rintro result cost - -
      rw [hreads] at hpop
      exact .inr ⟨hstashed, pop, command, complete, rest, hpop, Bool.eq_false_iff.mpr hpopped,
        hcomplete, hcommand⟩
  · refine ensures_pure ?_
    rintro result cost hturn hfailed
    cases hturn
    cases hfailed

theorem ensures_continueResolved (p : Progress) :
    Ensures (continueResolved services settings p) s fun turn s' =>
      turn.Ended (settings.stashed = true) s'.reads := by
  unfold continueResolved
  refine ensures_bind (ensures_perform fun cont w => ?_)
  split_ifs with hcont
  · exact ensures_finish _ rfl hcont (.inl rfl)
  · refine ensures_after fun next s₁ => ?_
    cases next with
    | none => exact ensures_abortUnverifiable _
    | some next => exact ensures_pure fun result cost h => nomatch h

theorem ensures_resolveCommit (p : Progress) :
    Ensures (resolveCommit services settings p) s fun turn s' =>
      turn.Ended (settings.stashed = true) s'.reads := by
  unfold resolveCommit
  refine ensures_after ?_
  rintro ⟨outcome, cost⟩ s₁
  have hgiveUp : ∀ error, Ensures (giveUp services settings p.resolved error >>= fun result =>
      (pure (.done result cost) : Action ω Turn)) s₁ fun turn s' =>
        turn.Ended (settings.stashed = true) s'.reads := by
    intro error
    refine ensures_bind ((ensures_giveUp _ _).mono ?_)
    intro result s' haborted
    exact ensures_pure fun result' cost' _ _ => .inl haborted
  cases outcome with
  | failed error => exact hgiveUp error
  | unverifiable => exact ensures_abortUnverifiable _
  | clean conflicted => exact ensures_continueResolved _
  | unresolved remaining => exact hgiveUp _

theorem ensures_fallBack (p : Progress) :
    Ensures (fallBack services settings p) s fun turn s' =>
      turn.Ended (settings.stashed = true) s'.reads := by
  unfold fallBack
  refine ensures_after fun still s₁ => ?_
  rcases still with _ | _ | ⟨file, files⟩
  · exact ensures_resolveCommit p
  · exact ensures_resolveCommit p
  · exact ensures_resolveCommit _

theorem ensures_resolveByConsensus (config : ConsensusConfig) (p : Progress) :
    Ensures (resolveByConsensus services settings config p) s fun turn s' =>
      turn.Ended (settings.stashed = true) s'.reads := by
  unfold resolveByConsensus
  refine ensures_after ?_
  rintro ⟨resolved, cost⟩ s₁
  cases resolved with
  | false => exact ensures_fallBack _
  | true =>
    refine ensures_after fun remaining s₂ => ?_
    rcases remaining with _ | _ | ⟨file, files⟩
    · exact ensures_abortUnverifiable _
    · refine ensures_bind (ensures_perform fun cont w => ?_)
      split_ifs with hcont
      · exact ensures_finish _ rfl hcont (.inl rfl)
      · refine ensures_after fun next s₃ => ?_
        cases next with
        | none => exact ensures_abortUnverifiable _
        | some next => exact ensures_pure fun result cost h => nomatch h
    · exact ensures_fallBack _

theorem ensures_commitTurn (p : Progress) :
    Ensures (commitTurn services settings p) s fun turn s' =>
      turn.Ended (settings.stashed = true) s'.reads := by
  unfold commitTurn
  split_ifs
  · refine ensures_bind (ensures_perform fun cont w => ?_)
    split_ifs with hcont
    · exact ensures_finish _ rfl hcont (.inl rfl)
    · exact ensures_pure fun result cost h => nomatch h
  · cases settings.consensus with
    | some config => exact ensures_resolveByConsensus config p
    | none => exact ensures_resolveCommit p

theorem ensures_commitLoop (p : Progress) (left : Nat) :
    Ensures (commitLoop services settings p left) s fun turn s' =>
      turn.Ended (settings.stashed = true) s'.reads := by
  induction left generalizing p s with
  | zero => exact ensures_pure fun result cost h => nomatch h
  | succ left ih =>
    unfold commitLoop
    refine ensures_bind ((ensures_commitTurn p).mono ?_)
    intro turn s₁ hturn
    cases turn with
    | goOn p => exact ih p
    | leave p => exact ensures_pure hturn
    | done result cost => exact ensures_pure hturn

theorem ensures_resolveRebase (p : Progress) :
    Ensures (resolveRebase services settings p) s fun r s' =>
      Ended (settings.stashed = true) r.1 s'.reads := by
  unfold resolveRebase
  refine ensures_bind ((ensures_commitLoop p settings.maxCommits).mono ?_)
  intro turn s₁ hturn
  cases turn with
  | goOn p =>
    refine ensures_bind ((ensures_giveUp _ _).mono ?_)
    intro result s₂ haborted
    split_ifs
    · exact fun _ _ h => nomatch (Prod.mk.inj h).1
    · exact ensures_pure fun _ => .inl haborted
  | leave p =>
    refine ensures_bind ((ensures_giveUp _ _).mono ?_)
    intro result s₂ haborted
    exact ensures_pure fun _ => .inl haborted
  | done result cost => exact ensures_pure (hturn result cost rfl)

theorem ensures_rebaseOnto (base : Text) :
    Ensures (rebaseOnto services settings base) s fun r s' =>
      Ended (settings.stashed = true) r.1 s'.reads := by
  unfold rebaseOnto
  refine ensures_bind (ensures_perform fun complete w => ?_)
  split_ifs with hcomplete
  · refine ensures_bind (ensures_popStash.mono ?_)
    rintro popped s' (⟨hstashed, pop, hpop, rfl⟩ | ⟨-, -, rfl⟩)
    · split_ifs with hpopped
      · exact ensures_pure fun hfailed => nomatch hfailed
      · exact ensures_pure fun _ => .inr ⟨hstashed, pop, _, complete, s.reads, hpop,
          Bool.eq_false_iff.mpr hpopped, hcomplete, .inr ⟨_, rfl⟩⟩
    · exact ensures_pure fun hfailed => nomatch hfailed
  · have hgiveUp : ∀ error s₁, Ensures (giveUp services settings 0 error >>= fun result =>
        (pure (result, 0) : Action ω (RebaseResult × ℚ))) s₁ fun r s' =>
          Ended (settings.stashed = true) r.1 s'.reads := by
      intro error s₁
      refine ensures_bind ((ensures_giveUp _ _).mono ?_)
      intro result s₂ haborted
      exact ensures_pure fun _ => .inl haborted
    refine ensures_after fun conflicted s₁ => ?_
    rcases conflicted with _ | _ | ⟨file, files⟩
    · exact hgiveUp _ s₁
    · exact hgiveUp _ s₁
    · exact ensures_resolveRebase _

/-! ## The stash of a run -/

def Event.isStash : Event → Bool
  | .ran .stash _ => true
  | _ => false

/-- A stash, or the start of the rebase. -/
def Event.isLate : Event → Bool
  | .ran .stash _ => true
  | .ran (.rebase _) _ => true
  | _ => false

theorem stash_tariff : Tariff (counts Event.isStash) 0 0 0 where
  ask_nonneg := le_refl 0
  attempt_nonneg := le_refl 0
  round_nonneg := le_refl 0
  ran := by
    intro command outcome hstash _
    cases command <;> first | exact le_refl 0 | exact absurd rfl hstash
  checked := fun _ => le_refl 0
  resolving := fun _ => le_refl 0
  asked := fun _ _ => le_refl 0
  round := by simp [counts, Event.isStash]

theorem eq_false_of_sum_counts_le {kind : Event → Bool} {es : List Event}
    (h : (es.map (counts kind)).sum ≤ 0) : ∀ e ∈ es, kind e = false := by
  have hnonneg : ∀ e, 0 ≤ counts kind e := by
    intro e
    unfold counts
    split_ifs
    · exact Int.one_nonneg
    · exact le_refl 0
  intro e he
  have hzero := eq_zero_of_sum_le hnonneg h e he
  unfold counts at hzero
  cases hkind : kind e with
  | false => rfl
  | true =>
    rw [hkind] at hzero
    cases hzero

/-- The changes were stashed exactly when the one stash command of the run has pushed them. -/
theorem stashed_iff {later earlier : List Event} {stash : ShellResult}
    (hlater : ∀ e ∈ later, e.isStash = false) (hearlier : ∀ e ∈ earlier, e.isLate = false) :
    Stashed (later ++ .ran .stash (.ok stash) :: earlier) ↔ pushed stash = true := by
  constructor
  · rintro ⟨result, hmem, hpushed⟩
    rcases List.mem_append.mp hmem with hmem | hmem
    · cases hlater _ hmem
    · rcases List.mem_cons.mp hmem with heq | hmem
      · cases heq
        exact hpushed
      · cases hearlier _ hmem
  · exact fun h => ⟨stash, List.mem_append_right _ (List.mem_cons_self ..), h⟩

theorem not_started {log : List Event} (h : ∀ e ∈ log, e.isLate = false) : ¬Started log := by
  rintro ⟨onto, outcome, hmem⟩
  cases h _ hmem

/-- The rebase of a run, after its stash command. -/
theorem ensures_rebaseOnto_stashed (base : Text) {stash : ShellResult} {earlier : List Event}
    (hstashed : settings.stashed = pushed stash)
    (hreads : s.reads = .ran .stash (.ok stash) :: earlier)
    (hearlier : ∀ e ∈ earlier, e.isLate = false) :
    Ensures (rebaseOnto services settings base) s fun r s' => Ended (Stashed s'.reads) r.1 s'.reads := by
  intro r s' heq
  have hended := ensures_rebaseOnto base r s' heq
  have hspends : Spends (counts Event.isStash) (rebaseOnto services settings base)
      (settings.maxCommits * settings.turn 0 0) :=
    spends_rebaseOnto stash_tariff (fun _ => le_refl 0) base
  obtain ⟨later, hlater, hsum⟩ := hspends s
  rw [heq, hreads] at hlater
  have hzero : (later.map (counts Event.isStash)).sum ≤ 0 := by simpa [Settings.turn] using hsum
  have hstash : Stashed s'.reads ↔ settings.stashed = true := by
    rw [hlater, hstashed]
    exact stashed_iff (eq_false_of_sum_counts_le hzero) hearlier
  rwa [propext hstash]

theorem ensures_rebaseWithConflictResolution (base : Text) (model : Option Text) (budget : Option ℚ)
    (maxAttempts maxCommits : Nat) (world : ω) :
    Ensures (rebaseWithConflictResolution services base model budget maxAttempts maxCommits)
      { world := world } fun r s' => Started s'.reads → Ended (Stashed s'.reads) r.1 s'.reads := by
  have hstart : ((({ world := world } : Session ω Event).reads).map (counts Event.isLate)).sum = 0 := rfl
  have hearly : ∀ {log : List Event}, (log.map (counts Event.isLate)).sum ≤ 0 →
      ∀ e ∈ log, e.isLate = false := eq_false_of_sum_counts_le
  have hconfig := spends_consensusModels (w := counts Event.isLate) services fun _ => le_refl 0
  have hfetch := spends_run (w := counts Event.isLate) services (.fetch base) fun _ => le_refl 0
  have hunstage := spends_run (w := counts Event.isLate) services .unstage fun _ => le_refl 0
  unfold rebaseWithConflictResolution
  refine ensures_bind (hconfig.ensures.mono fun consensus s₁ h₁ => ?_)
  refine ensures_bind (hfetch.ensures.mono fun fetch s₂ h₂ => ?_)
  split_ifs
  · refine ensures_bind (hunstage.ensures.mono fun unstage s₃ h₃ => ?_)
    have hclear : Spends (counts Event.isLate) (trying
        (act (services.clearConflictingRuntimeFiles ("origin/".toList ++ base))) (fun _ => none)
          fun e => if e = .runtimeError then some (some (services.errorText e)) else none) 0 :=
      spends_trying (spends_act (le_refl 0))
    refine ensures_bind (hclear.ensures.mono fun cleared s₄ h₄ => ?_)
    have hlog : (s₄.reads.map (counts Event.isLate)).sum ≤ 0 := by omega
    cases cleared with
    | some error => exact ensures_pure fun hstarted => absurd hstarted (not_started (hearly hlog))
    | none =>
      refine ensures_bind (ensures_perform fun stash w => ?_)
      exact (ensures_rebaseOnto_stashed base rfl rfl (hearly hlog)).mono fun _ _ hended _ => hended
  · have hlog : (s₂.reads.map (counts Event.isLate)).sum ≤ 0 := by omega
    exact ensures_pure fun hstarted => absurd hstarted (not_started (hearly hlog))

/-- Whatever git, the files and the models do: if a run returns after the rebase was started, and it is no
success, then the rebase was aborted and a stash popped at its end, or the rebase was complete and only
the stash could not be restored. -/
theorem rebaseWithConflictResolution_cleans_up (services : Services ω) (base : Text)
    (model : Option Text) (budget : Option ℚ) (maxAttempts maxCommits : Nat) (world : ω)
    {result : RebaseResult} {cost : ℚ} {s' : Session ω Event}
    (hrun : rebaseWithConflictResolution services base model budget maxAttempts maxCommits
      { world := world } = (.ok (result, cost), s'))
    (hstarted : Started s'.reads) (hfailed : result.success = false) :
    Aborted (Stashed s'.reads) s'.reads ∨ RestoreFailed (Stashed s'.reads) s'.reads :=
  ensures_rebaseWithConflictResolution base model budget maxAttempts maxCommits world _ s' hrun hstarted
    hfailed

/-! ## Three rebases -/

/-- The rebase stops, and git lists no conflict. -/
def refusing : Services Unit :=
  steady (fun c => match c with
    | .rebase _ => some conflict
    | .unmerged => some {}
    | _ => none) [] id (.ok ())

/-- The rebase is clean, but the stash cannot be popped. -/
def stashLost : Services Unit :=
  steady (fun c => match c with
    | .stashPop => some { success := false }
    | _ => none) [] id (.ok ())

/-- Two models agree on a resolution, which cannot be written. -/
def unwritable : Services Unit :=
  steady (fun c => match c with
    | .rebase _ => some conflict
    | _ => none) ["m1".toList, "m2".toList] (fun _ => "x = 1".toList) (.error .osError)

/-- What a run from `git fetch` to `git rebase` writes down, where `git rebase` comes to the given result. -/
def startedWith (result : ShellResult) : List Event :=
  [.ran (.rebase "origin/main".toList) (.ok result),
    .ran .stash (.ok { stdout := "Saved working directory".toList }), .ran .unstage (.ok {}),
    .ran (.fetch "main".toList) (.ok {})]

theorem started_append (later : List Event) (result : ShellResult) (earlier : List Event) :
    Started (later ++ (startedWith result ++ earlier)) :=
  ⟨"origin/main".toList, .ok result, List.mem_append_right _ (List.mem_cons_self ..)⟩

/-- A rebase that git refuses is aborted, and the stash popped. -/
theorem refusing_cleans_up :
    let log := (rebaseWithConflictResolution refusing "main".toList none none 3 5 { world := () }).2.reads
    Aborted (Stashed log) log ∨ RestoreFailed (Stashed log) log :=
  rebaseWithConflictResolution_cleans_up refusing "main".toList none none 3 5 () rfl
    (started_append [.ran .stashPop (.ok {}), .ran .rebaseAbort (.ok {}), .checked (some []),
      .ran .unmerged (.ok {})] conflict []) rfl

/-- Two ends without success after which nothing was aborted: the stash is lost after a clean rebase, and
an error of the file system leaves the function. -/
theorem not_always_aborted :
    (∃ result cost s', rebaseWithConflictResolution stashLost "main".toList none none 3 5
        { world := () } = (.ok (result, cost), s') ∧ result.success = false ∧ Started s'.reads ∧
        ∀ outcome, .ran .rebaseAbort outcome ∉ s'.reads) ∧
      ∃ e s', rebaseWithConflictResolution unwritable "main".toList none none 3 5
        { world := () } = (.error e, s') ∧ Started s'.reads ∧
        ∀ outcome, .ran .rebaseAbort outcome ∉ s'.reads := by
  have hlost : rebaseWithConflictResolution stashLost "main".toList none none 3 5 { world := () } =
      (.ok ({ success := false, error := "Stash restore failed after clean rebase".toList }, 0),
        { world := ()
          reads := [.ran .stashPop (.ok { success := false })] ++ (startedWith {} ++ []) }) := rfl
  have hunwritable : rebaseWithConflictResolution unwritable "main".toList none none 3 5
      { world := () } = (.error .osError,
        { world := ()
          reads := [.asked "m2".toList "a.py".toList, .asked "m1".toList "a.py".toList,
            .round ["m1".toList, "m2".toList] ["a.py".toList], .checked (some ["a.py".toList]),
            .ran .unmerged (.ok { stdout := "a.py".toList })] ++
              (startedWith conflict ++ [.ran .configDiff3 (.ok {})]) }) := rfl
  refine ⟨⟨_, _, _, hlost, rfl, started_append _ _ _, ?_⟩,
    ⟨_, _, hunwritable, started_append _ _ _, ?_⟩⟩
  · simp [startedWith]
  · simp [startedWith]

end Git.Rebase

/-!
# The consensus of the models

The candidates are grouped by their normal forms. A group that reaches a threshold above one half has more
than half of the candidates, whatever the floats are rounded to, so that there is at most one
(`selectConsensus_spec`).
-/

namespace Git.Rebase

/-! ## Groups -/

section

variable {groups : List (Text × List Nat)} {entries : List (Text × Nat)} {entry : Text × Nat}

/-- The places at which a text comes up. -/
def placesOf (norm : Text) (entries : List (Text × Nat)) : List Nat :=
  (entries.filter fun e => e.1 = norm).map Prod.snd

theorem placesOf_append (norm : Text) (xs ys : List (Text × Nat)) :
    placesOf norm (xs ++ ys) = placesOf norm xs ++ placesOf norm ys := by
  simp [placesOf]

theorem placesOf_eq_nil_iff {norm : Text} : placesOf norm entries = [] ↔ ∀ e ∈ entries, e.1 ≠ norm := by
  simp [placesOf]

/-- There is one group for each text that comes up, with all its places. -/
structure Grouped (groups : List (Text × List Nat)) (entries : List (Text × Nat)) : Prop where
  keys : (groups.map Prod.fst).Nodup
  places : ∀ g ∈ groups, g.2 = placesOf g.1 entries ∧ g.2 ≠ []
  covers : ∀ e ∈ entries, e.1 ∈ groups.map Prod.fst

theorem mem_keys_addToGroups {norm : Text} :
    norm ∈ (addToGroups groups entry).map Prod.fst ↔ norm = entry.1 ∨ norm ∈ groups.map Prod.fst := by
  induction groups with
  | nil => simp [addToGroups]
  | cons g groups ih =>
    unfold addToGroups
    split_ifs with hsame
    · rw [List.map_cons, List.map_cons, List.mem_cons, ← hsame]
      tauto
    · rw [List.map_cons, List.map_cons, List.mem_cons, List.mem_cons, ih]
      tauto

theorem nodup_addToGroups (h : (groups.map Prod.fst).Nodup) :
    ((addToGroups groups entry).map Prod.fst).Nodup := by
  induction groups with
  | nil => simp [addToGroups]
  | cons g groups ih =>
    obtain ⟨hnot, hnodup⟩ := List.nodup_cons.mp h
    unfold addToGroups
    split_ifs with hsame
    · exact h
    · refine List.nodup_cons.mpr ⟨?_, ih hnodup⟩
      rw [mem_keys_addToGroups]
      exact fun hmem => hmem.elim hsame hnot

/-- A group is as it was, or it has one place more, or it is new. -/
theorem mem_addToGroups {g : Text × List Nat} (h : (groups.map Prod.fst).Nodup)
    (hg : g ∈ addToGroups groups entry) :
    (g ∈ groups ∧ g.1 ≠ entry.1) ∨
      (∃ indices, (entry.1, indices) ∈ groups ∧ g = (entry.1, indices ++ [entry.2])) ∨
      (entry.1 ∉ groups.map Prod.fst ∧ g = (entry.1, [entry.2])) := by
  induction groups with
  | nil => exact .inr (.inr ⟨List.not_mem_nil, List.mem_singleton.mp hg⟩)
  | cons first groups ih =>
    obtain ⟨hnot, hnodup⟩ := List.nodup_cons.mp h
    unfold addToGroups at hg
    split_ifs at hg with hsame
    · rcases List.mem_cons.mp hg with rfl | hmem
      · refine .inr (.inl ⟨first.2, ?_, by rw [← hsame]⟩)
        rw [← hsame]
        exact List.mem_cons_self
      · refine .inl ⟨List.mem_cons_of_mem _ hmem, fun hkey => hnot ?_⟩
        rw [hsame, ← hkey]
        exact List.mem_map_of_mem hmem
    · rcases List.mem_cons.mp hg with rfl | hmem
      · exact .inl ⟨List.mem_cons_self, hsame⟩
      · rcases ih hnodup hmem with ⟨hold, hkey⟩ | ⟨indices, hold, hgrown⟩ | ⟨hnew, hfresh⟩
        · exact .inl ⟨List.mem_cons_of_mem _ hold, hkey⟩
        · exact .inr (.inl ⟨indices, List.mem_cons_of_mem _ hold, hgrown⟩)
        · refine .inr (.inr ⟨fun hkey => ?_, hfresh⟩)
          rcases List.mem_cons.mp hkey with hkey | hkey
          · exact hsame hkey.symm
          · exact hnew hkey

theorem Grouped.addToGroups (h : Grouped groups entries) :
    Grouped (addToGroups groups entry) (entries ++ [entry]) where
  keys := nodup_addToGroups h.keys
  places g hg := by
    rw [placesOf_append]
    rcases mem_addToGroups h.keys hg with ⟨hold, hkey⟩ | ⟨indices, hold, rfl⟩ | ⟨hnew, rfl⟩
    · have hno : placesOf g.1 [entry] = [] := by simp [placesOf, hkey.symm]
      rw [hno, List.append_nil]
      exact h.places g hold
    · have hone : placesOf entry.1 [entry] = [entry.2] := by simp [placesOf]
      refine ⟨?_, by simp⟩
      show indices ++ [entry.2] = _
      rw [hone, ← (h.places _ hold).1]
    · have hone : placesOf entry.1 [entry] = [entry.2] := by simp [placesOf]
      have hnone : placesOf entry.1 entries = [] := by
        rw [placesOf_eq_nil_iff]
        intro e he hkey
        exact hnew (hkey ▸ h.covers e he)
      refine ⟨?_, by simp⟩
      show [entry.2] = _
      rw [hone, hnone, List.nil_append]
  covers e he := by
    rw [mem_keys_addToGroups]
    rcases List.mem_append.mp he with hold | hnew
    · exact .inr (h.covers e hold)
    · rw [List.mem_singleton.mp hnew]
      exact .inl rfl

theorem Grouped.foldl (h : Grouped groups entries) (more : List (Text × Nat)) :
    Grouped (more.foldl Rebase.addToGroups groups) (entries ++ more) := by
  induction more generalizing groups entries with
  | nil => rwa [List.append_nil]
  | cons entry more ih =>
    rw [List.append_cons]
    exact ih h.addToGroups

theorem grouped_nil : Grouped [] [] where
  keys := List.nodup_nil
  places _ hg := absurd hg List.not_mem_nil
  covers _ he := absurd he List.not_mem_nil

end

/-! ## The selected candidate -/

section

variable {resolutions : List Text} {resolution : Text} {p : Nat → Nat → Bool}

/-- How many candidates agree with a text, up to normalization. -/
def votes (resolutions : List Text) (resolution : Text) : Nat :=
  resolutions.countP fun r => normalizeResolution r = normalizeResolution resolution

/-- The groups of the candidates. -/
theorem grouped_resolutions (resolutions : List Text) :
    Grouped ((resolutions.map normalizeResolution).zipIdx.foldl addToGroups [])
      (resolutions.map normalizeResolution).zipIdx := grouped_nil.foldl _

theorem length_placesOf (resolutions : List Text) (resolution : Text) :
    (placesOf (normalizeResolution resolution) (resolutions.map normalizeResolution).zipIdx).length =
      votes resolutions resolution := by
  unfold placesOf votes
  rw [List.length_map, ← List.countP_eq_length_filter]
  calc (resolutions.map normalizeResolution).zipIdx.countP
        (fun e => decide (e.1 = normalizeResolution resolution))
      = ((resolutions.map normalizeResolution).zipIdx.map Prod.fst).countP
          (fun norm => decide (norm = normalizeResolution resolution)) := by
        rw [List.countP_map]
        rfl
    _ = resolutions.countP fun r => normalizeResolution r = normalizeResolution resolution := by
        rw [List.zipIdx_map_fst, List.countP_map]
        rfl

/-- At a place of a text there is a candidate that has it as its normal form. -/
theorem normalize_of_mem_placesOf {norm : Text} {i : Nat}
    (h : i ∈ placesOf norm (resolutions.map normalizeResolution).zipIdx) :
    ∃ resolution, resolutions[i]? = some resolution ∧ normalizeResolution resolution = norm := by
  obtain ⟨⟨norm', i'⟩, hentry, rfl⟩ := List.mem_map.mp h
  obtain ⟨hmem, hnorm⟩ := List.mem_filter.mp hentry
  have hat := List.mem_zipIdx_iff_getElem?.mp hmem
  rw [List.getElem?_map, Option.map_eq_some_iff] at hat
  obtain ⟨resolution, hresolution, hnormal⟩ := hat
  exact ⟨resolution, hresolution, hnormal.trans (of_decide_eq_true hnorm)⟩

theorem mem_of_selectConsensus (h : selectConsensus resolutions p = some resolution) :
    resolution ∈ resolutions ∧ p (votes resolutions resolution) resolutions.length = true := by
  unfold selectConsensus at h
  dsimp only at h
  split_ifs at h
  split at h
  · cases h
  · rename_i g hfound
    obtain ⟨i, hi, hresolution⟩ := Option.bind_eq_some_iff.mp h
    have hmem := (List.mem_insertionSort _).mp (List.mem_of_find?_eq_some hfound)
    have hreached := List.find?_some hfound
    have hplaces := ((grouped_resolutions resolutions).places g hmem).1
    have hplace : i ∈ g.2 := List.mem_of_mem_head? hi
    rw [hplaces] at hplace
    obtain ⟨resolution', hat, hnormal⟩ := normalize_of_mem_placesOf hplace
    obtain rfl : resolution' = resolution := Option.some.inj (hat.symm.trans hresolution)
    refine ⟨List.mem_of_getElem? hresolution, ?_⟩
    rw [hplaces, ← hnormal, length_placesOf, List.length_map] at hreached
    exact hreached

theorem not_reached_of_selectConsensus (hlen : 2 ≤ resolutions.length)
    (h : selectConsensus resolutions p = none) (hmem : resolution ∈ resolutions) :
    p (votes resolutions resolution) resolutions.length = false := by
  have hgrouped := grouped_resolutions resolutions
  obtain ⟨i, hi, hat⟩ := List.getElem_of_mem hmem
  have hentry : (normalizeResolution resolution, i) ∈ (resolutions.map normalizeResolution).zipIdx := by
    rw [List.mem_zipIdx_iff_getElem?, List.getElem?_map, List.getElem?_eq_getElem hi, hat]
    rfl
  obtain ⟨g, hg, hkey⟩ := List.mem_map.mp (hgrouped.covers _ hentry)
  obtain ⟨hplaces, hne⟩ := hgrouped.places g hg
  have hlength : g.2.length = votes resolutions resolution := by
    rw [hplaces, hkey]
    exact length_placesOf resolutions resolution
  unfold selectConsensus at h
  dsimp only at h
  rw [if_neg (by omega)] at h
  split at h
  · rename_i hnone
    have hnot := List.find?_eq_none.mp hnone g ((List.mem_insertionSort _).mpr hg)
    rw [hlength, List.length_map] at hnot
    exact Bool.eq_false_iff.mpr hnot
  · -- A group that is found has a place, and there is a candidate at it.
    rename_i g' hfound
    have hg' := (List.mem_insertionSort _).mp (List.mem_of_find?_eq_some hfound)
    obtain ⟨hplaces', hne'⟩ := hgrouped.places g' hg'
    obtain ⟨i', rest, hfirst⟩ := List.exists_cons_of_ne_nil hne'
    have hplace : i' ∈ placesOf g'.1 (resolutions.map normalizeResolution).zipIdx := by
      rw [← hplaces', hfirst]
      exact List.mem_cons_self
    obtain ⟨resolution', hat', -⟩ := normalize_of_mem_placesOf hplace
    rw [hfirst] at h
    exact absurd (h.symm.trans hat') nofun

/-! ## Majorities -/

/-- Two candidates with more than half of the votes each agree. -/
theorem agree_of_majority {r r' : Text} (h : resolutions.length < 2 * votes resolutions r)
    (h' : resolutions.length < 2 * votes resolutions r') :
    normalizeResolution r' = normalizeResolution r := by
  by_contra hne
  have hsplit := List.length_eq_countP_add_countP (l := resolutions)
    fun x => decide (normalizeResolution x = normalizeResolution r)
  simp only [decide_eq_true_eq, decide_not] at hsplit
  have hothers : votes resolutions r' ≤
      resolutions.countP fun x => !decide (normalizeResolution x = normalizeResolution r) := by
    refine List.countP_mono_left fun x _ hx => ?_
    have hx' : normalizeResolution x = normalizeResolution r' := of_decide_eq_true hx
    simp [hx', hne]
  unfold votes at h h' hothers
  omega

theorem votes_perm {resolutions' : List Text} (h : resolutions.Perm resolutions') :
    votes resolutions' resolution = votes resolutions resolution := (h.countP_eq _).symm

end

/-! ## Thresholds -/

section

variable {threshold : PyFloat} {resolutions : List Text} {resolution : Text} {count total : Nat}

theorem one_le_mul_one (htotal : 0 < total) : PyFloat.one ≤ total * PyFloat.one :=
  Nat.le_mul_of_pos_left _ htotal

/-- A threshold above one half that is reached is a number of units. -/
theorem eq_finite_of_reaches (habove : threshold.aboveHalf = true) (htotal : 0 < total)
    (h : reaches threshold count total = true) :
    ∃ n : Nat, threshold = .finite n ∧ PyFloat.one < 2 * n := by
  cases threshold with
  | finite units =>
    have hunits : (PyFloat.one : Int) < 2 * units := of_decide_eq_true habove
    obtain ⟨n, rfl⟩ := Int.eq_ofNat_of_zero_le (show 0 ≤ units by omega)
    exact ⟨n, rfl, by exact_mod_cast hunits⟩
  | infinite negative =>
    -- No count is above an infinite product.
    obtain rfl : negative = false := by simpa [PyFloat.aboveHalf] using habove
    have hinfinite := PyFloat.leInt_mul_infinite (one_le_mul_one htotal) count
    exact absurd (hinfinite.symm.trans h) Bool.false_ne_true
  | nan => cases habove

/-- What reaches a threshold above one half is more than half. -/
theorem majority_of_reaches (hdouble : threshold.isDouble = true) (habove : threshold.aboveHalf = true)
    (htotal : 0 < total) (h : reaches threshold count total = true) : total < 2 * count := by
  obtain ⟨n, rfl, hn⟩ := eq_finite_of_reaches habove htotal h
  have hreached := PyFloat.le_of_leInt_mul (one_le_mul_one htotal) hn h
  have hmore := PyFloat.lt_two_mul_mulMagnitude (one_le_mul_one htotal) hdouble hn
  have hones : total * PyFloat.one < 2 * count * PyFloat.one := by
    rw [Nat.mul_assoc]
    omega
  exact Nat.lt_of_mul_lt_mul_right hones

/-- The threshold is missed by no more than what is rounded away. -/
theorem share_of_reaches {units : Int} (habove : (PyFloat.finite units).aboveHalf = true) (htotal : 0 < total)
    (h : reaches (.finite units) count total = true) :
    (2 ^ 53 - 1) ^ 2 * (total * units) ≤ 2 ^ 106 * (count * PyFloat.one : Int) := by
  obtain ⟨n, hunits, hn⟩ := eq_finite_of_reaches habove htotal h
  obtain rfl : units = n := PyFloat.finite.inj hunits
  have hreached := PyFloat.le_of_leInt_mul (one_le_mul_one htotal) hn h
  have hproduct := PyFloat.mul_le_mulMagnitude (one_le_mul_one htotal) hn
  have hones : (2 ^ 53 - 1) ^ 2 * (total * n) * PyFloat.one ≤
      2 ^ 106 * (count * PyFloat.one) * PyFloat.one := by
    calc (2 ^ 53 - 1) ^ 2 * (total * n) * PyFloat.one
        = (2 ^ 53 - 1) ^ 2 * (total * PyFloat.one * n) := by ring
      _ ≤ 2 ^ 106 * (PyFloat.mulMagnitude (PyFloat.roundMagnitude (total * PyFloat.one)) n * PyFloat.one) :=
          hproduct
      _ ≤ 2 ^ 106 * (count * PyFloat.one * PyFloat.one) :=
          Nat.mul_le_mul_left _ (Nat.mul_le_mul_right _ hreached)
      _ = 2 ^ 106 * (count * PyFloat.one) * PyFloat.one := by ring
  have hshare := Nat.le_of_mul_le_mul_right hones PyFloat.one_pos
  generalize PyFloat.one = one at hshare ⊢
  norm_num at hshare ⊢
  exact_mod_cast hshare

/-- The candidates that agree with a text reach the threshold. -/
def Reached (threshold : PyFloat) (resolutions : List Text) (resolution : Text) : Prop :=
  reaches threshold (votes resolutions resolution) resolutions.length = true

instance : Decidable (Reached threshold resolutions resolution) :=
  inferInstanceAs (Decidable (_ = true))

theorem Reached.perm {resolutions' : List Text} (hperm : resolutions.Perm resolutions')
    (h : Reached threshold resolutions resolution) : Reached threshold resolutions' resolution := by
  unfold Reached at h ⊢
  rwa [votes_perm hperm, ← hperm.length_eq]

/-- Two candidates that reach a threshold above one half agree. -/
theorem Reached.agree (hdouble : threshold.isDouble = true) (habove : threshold.aboveHalf = true)
    {resolution' : Text} (hmem : resolution ∈ resolutions) (h : Reached threshold resolutions resolution)
    (h' : Reached threshold resolutions resolution') :
    normalizeResolution resolution' = normalizeResolution resolution := by
  have htotal : 0 < resolutions.length := List.length_pos_of_mem hmem
  exact agree_of_majority (majority_of_reaches hdouble habove htotal h)
    (majority_of_reaches hdouble habove htotal h')

theorem selectConsensus_isSome_of_reached (hlen : 2 ≤ resolutions.length) (hmem : resolution ∈ resolutions)
    (h : Reached threshold resolutions resolution) :
    ∃ selected, selectConsensus resolutions (reaches threshold) = some selected := by
  cases hselect : selectConsensus resolutions (reaches threshold) with
  | some selected => exact ⟨selected, rfl⟩
  | none =>
    have hnot := not_reached_of_selectConsensus hlen hselect hmem
    exact absurd (hnot.symm.trans h) Bool.false_ne_true

theorem two_le_of_selectConsensus {p : Nat → Nat → Bool}
    (h : selectConsensus resolutions p = some resolution) : 2 ≤ resolutions.length := by
  unfold selectConsensus at h
  split_ifs at h
  omega

/-- In another order, a candidate with the same normal form is selected. -/
theorem selectConsensus_perm_some {resolutions' : List Text} (hdouble : threshold.isDouble = true)
    (habove : threshold.aboveHalf = true) (hperm : resolutions.Perm resolutions')
    (h : selectConsensus resolutions (reaches threshold) = some resolution) :
    ∃ resolution', selectConsensus resolutions' (reaches threshold) = some resolution' ∧
      normalizeResolution resolution' = normalizeResolution resolution := by
  obtain ⟨hmem, hreached⟩ := mem_of_selectConsensus h
  have hlen := two_le_of_selectConsensus h
  rw [hperm.length_eq] at hlen
  have hreached' := Reached.perm hperm hreached
  obtain ⟨resolution', hselect⟩ :=
    selectConsensus_isSome_of_reached hlen (hperm.mem_iff.mp hmem) hreached'
  obtain ⟨hmem', hagrees⟩ := mem_of_selectConsensus hselect
  exact ⟨resolution', hselect, hreached'.agree hdouble habove (hperm.mem_iff.mp hmem) hagrees⟩

theorem selectConsensus_perm {resolutions' : List Text} (hdouble : threshold.isDouble = true)
    (habove : threshold.aboveHalf = true) (hperm : resolutions.Perm resolutions') :
    (selectConsensus resolutions' (reaches threshold)).map normalizeResolution =
      (selectConsensus resolutions (reaches threshold)).map normalizeResolution := by
  cases h : selectConsensus resolutions (reaches threshold) with
  | some resolution =>
    obtain ⟨resolution', hselect, hnormal⟩ := selectConsensus_perm_some hdouble habove hperm h
    rw [hselect, Option.map_some, Option.map_some, hnormal]
  | none =>
    cases h' : selectConsensus resolutions' (reaches threshold) with
    | none => rfl
    | some resolution' =>
      obtain ⟨resolution, hselect, -⟩ := selectConsensus_perm_some hdouble habove hperm.symm h'
      rw [h] at hselect
      cases hselect

end

/-- The selected candidate reaches the threshold, all that reach it agree with it, and it is selected in
every order. It has the threshold's share of the candidates but for what is rounded away. -/
theorem selectConsensus_spec (threshold : PyFloat) (hdouble : threshold.isDouble = true)
    (habove : threshold.aboveHalf = true) (resolutions : List Text) :
    (∀ resolution, selectConsensus resolutions (reaches threshold) = some resolution →
      resolution ∈ resolutions ∧ Reached threshold resolutions resolution ∧
        (∀ resolution', Reached threshold resolutions resolution' →
          normalizeResolution resolution' = normalizeResolution resolution) ∧
        ∀ units, threshold = .finite units → (2 ^ 53 - 1) ^ 2 * (resolutions.length * units) ≤
          2 ^ 106 * (votes resolutions resolution * PyFloat.one : Int)) ∧
    (∀ resolutions', resolutions.Perm resolutions' →
      (selectConsensus resolutions' (reaches threshold)).map normalizeResolution =
        (selectConsensus resolutions (reaches threshold)).map normalizeResolution) ∧
    ((∀ resolution ∈ resolutions, ¬Reached threshold resolutions resolution) →
      selectConsensus resolutions (reaches threshold) = none) := by
  refine ⟨fun resolution h => ?_, fun _ hperm => selectConsensus_perm hdouble habove hperm, fun hnot => ?_⟩
  · obtain ⟨hmem, hreached⟩ := mem_of_selectConsensus h
    refine ⟨hmem, hreached, fun _ h' => Reached.agree hdouble habove hmem hreached h', ?_⟩
    rintro units rfl
    exact share_of_reaches habove (List.length_pos_of_mem hmem) hreached
  · cases h : selectConsensus resolutions (reaches threshold) with
    | none => rfl
    | some resolution =>
      obtain ⟨hmem, hreached⟩ := mem_of_selectConsensus h
      exact absurd hreached (hnot resolution hmem)

/-- `0.67` -/
def twoThirds : PyFloat := .finite (6034823500676465 * 2 ^ 1021)

/-- Three of four candidates, with blanks at line ends that are not looked at. -/
theorem selectConsensus_twoThirds :
    Reached twoThirds ["x = 2".toList, "x = 1\r\n".toList, "x = 1".toList, "x = 1 ".toList]
      "x = 1\r\n".toList :=
  ((selectConsensus_spec twoThirds (by decide +kernel) (by decide +kernel) _).1 _
    (by decide +kernel)).2.1

/-- With a threshold just above two thirds, two of three candidates are enough: three times the threshold is
rounded down to two. -/
theorem selectConsensus_rounds_down :
    selectConsensus ["a".toList, "a".toList, "b".toList]
        (reaches (.finite (6004799503160662 * 2 ^ 1021))) = some "a".toList ∧
      votes ["a".toList, "a".toList, "b".toList] "a".toList * PyFloat.one <
        3 * (6004799503160662 * 2 ^ 1021) := by
  constructor
  · decide +kernel
  · decide +kernel

end Git.Rebase

import SovaVerified.Core.CommitFold

/-!
# Folded or unwound

A fold that returns has found no marker commit on the branch, or it has undone its own fixup commit. A command
that raises in between leaves the fixup commit where it is.
-/

namespace Core.CommitFold

open Exceptions Outside
open Utils.Shell (ShellResult)

variable {ω α β : Type} {svc : Services ω} {allowed : GitCommand → Bool} {es xs ys : List Event}

/-! ## Records of a fold -/

/-- The error that a step of the fold raised. -/
def raised : Event → Option PyException
  | .ran _ (.error e) => some e
  | .located (.error e) => some e
  | _ => none

/-- Only allowed commands are on record. -/
def Only (allowed : GitCommand → Bool) (es : List Event) : Prop :=
  ∀ command outcome, Event.ran command outcome ∈ es → allowed command = true

theorem Only.append (hx : Only allowed xs) (hy : Only allowed ys) : Only allowed (ys ++ xs) := by
  intro command outcome h
  rcases List.mem_append.mp h with h | h
  · exact hy command outcome h
  · exact hx command outcome h

theorem Only.mono {allowed' : GitCommand → Bool} (h : Only allowed es)
    (hle : ∀ command, allowed command = true → allowed' command = true) : Only allowed' es :=
  fun command outcome hmem => hle command (h command outcome hmem)

/-- A program that runs allowed commands and has every error that it meets on record and raises it. -/
def Steady (allowed : GitCommand → Bool) (p : Fold ω α) : Prop :=
  Yields p fun outcome es => Told raised outcome es ∧ Only allowed es

theorem steady_pure (a : α) : Steady allowed (pure a : Fold ω α) :=
  yields_pure ⟨fun x hx => by (cases hx), fun command outcome hmem => by (cases hmem)⟩

theorem steady_run {command : GitCommand} (h : allowed command = true) : Steady allowed (run svc command) := by
  refine yields_perform fun answer => ⟨?_, ?_⟩
  · cases answer with
    | ok result =>
      intro x hx
      rw [List.mem_singleton.mp hx]
      rfl
    | error e => exact ⟨_, [], rfl, rfl, fun y hy => by cases hy⟩
  · intro command' outcome hmem
    cases List.mem_singleton.mp hmem
    exact h

theorem Steady.bind {p : Fold ω α} {f : α → Fold ω β} (hp : Steady allowed p) (hf : ∀ a, Steady allowed (f a)) :
    Steady allowed (p >>= f) := by
  refine Yields.bind hp (fun e xs h => h) fun a xs hxs => ?_
  refine (hf a).mono fun outcome ys hys => ?_
  exact ⟨hxs.1.append hys.1, hxs.2.append hys.2⟩

theorem Steady.mono {allowed' : GitCommand → Bool} {p : Fold ω α} (h : Steady allowed p)
    (hle : ∀ command, allowed command = true → allowed' command = true) : Steady allowed' p :=
  Yields.mono h fun _ _ hes => ⟨hes.1, hes.2.mono hle⟩

/-- The commands that neither make a fixup commit nor reset the branch. -/
def isCalm : GitCommand → Bool
  | .commitFixup _ => false
  | .resetSoft _ => false
  | _ => true

/-- The calm commands, but for the one that asks for the head. -/
def isIdle : GitCommand → Bool
  | .revParseHead => false
  | command => isCalm command

theorem isCalm_of_isIdle {command : GitCommand} (h : isIdle command = true) : isCalm command = true := by
  cases command <;> first | rfl | cases h

/-! ## The steps that only look, or mend the index -/

theorem steady_changedPaths : Steady isIdle (changedPaths svc) :=
  (steady_run rfl).bind fun _ => steady_pure _

theorem steady_isOnBase (sha baseRef : Text) : Steady isIdle (isOnBase svc sha baseRef) :=
  (steady_run rfl).bind fun _ => steady_pure _

theorem steady_firstVerified (candidates : List Text) : Steady isIdle (firstVerified svc candidates) := by
  induction candidates with
  | nil => exact steady_pure none
  | cons candidate candidates ih =>
    refine (steady_run rfl).bind fun result => ?_
    split_ifs
    · exact steady_pure _
    · exact ih

theorem steady_resolveBaseRef (baseBranch : Text) : Steady isIdle (resolveBaseRef svc baseBranch) :=
  steady_firstVerified _

theorem steady_lastCommits (baseRef : Text) (commits paths : List Text) :
    Steady isIdle (lastCommits svc baseRef commits paths) := by
  induction paths generalizing commits with
  | nil => exact steady_pure _
  | cons path paths ih =>
    refine (steady_run rfl).bind fun result => ?_
    cases outputLines result with
    | nil => exact steady_pure _
    | cons line lines => exact ih _

theorem steady_isDuplicateSubject (baseRef target : Text) :
    Steady isIdle (isDuplicateSubject svc baseRef target) := by
  refine (steady_run rfl).bind fun subjects => ?_
  split_ifs
  · exact (steady_run rfl).bind fun _ => steady_pure _
  · exact steady_pure _

theorem steady_headSha : Steady isCalm (headSha svc) := (steady_run rfl).bind fun _ => steady_pure _

theorem steady_resolveFixupTarget (baseBranch : Text) (changed : List Text) :
    Steady isCalm (resolveFixupTarget svc baseBranch changed) := by
  have hidle : ∀ {γ : Type} {p : Fold ω γ}, Steady isIdle p → Steady isCalm p :=
    fun h => h.mono fun _ => isCalm_of_isIdle
  refine steady_headSha.bind fun head => ?_
  cases head with
  | none => exact steady_pure _
  | some head =>
    refine (hidle (steady_resolveBaseRef baseBranch)).bind fun baseRef => ?_
    cases baseRef with
    | none => exact steady_pure _
    | some baseRef =>
      refine (hidle (steady_isOnBase head baseRef)).bind fun onBase => ?_
      split_ifs
      · exact steady_pure _
      · exact steady_pure _
      · refine (hidle (steady_lastCommits baseRef [] changed)).bind fun commits => ?_
        split
        · refine (hidle (steady_isOnBase _ baseRef)).bind fun targetOnBase => ?_
          split_ifs
          · exact steady_pure _
          · refine (hidle (steady_isDuplicateSubject baseRef _)).bind fun duplicate => ?_
            split_ifs
            · exact steady_pure _
            · exact steady_pure _
        · exact steady_pure _

theorem steady_stagedPaths : Steady isIdle (stagedPaths svc) := (steady_run rfl).bind fun _ => steady_pure _

theorem steady_restoreStagedPaths (paths : List Text) : Steady isIdle (restoreStagedPaths svc paths) := by
  refine (steady_run rfl).bind fun _ => ?_
  split_ifs
  · exact steady_pure _
  · exact (steady_run rfl).bind fun _ => steady_pure _

theorem steady_resetChunks (n : Nat) (paths : List Text) : Steady isIdle (resetChunks svc n paths) := by
  induction n generalizing paths with
  | zero => exact steady_pure _
  | succ n ih =>
    unfold resetChunks
    split_ifs
    · exact steady_pure _
    · exact (steady_run rfl).bind fun _ => ih _

theorem steady_unstageSuspiciousFiles : Steady isIdle (unstageSuspiciousFiles svc) := by
  refine (steady_run rfl).bind fun staged => ?_
  dsimp only
  split_ifs
  · exact steady_pure _
  · refine Steady.bind (steady_resetChunks _ _) fun _ => ?_
    refine (steady_run rfl).bind fun recheck => ?_
    split_ifs
    · exact steady_pure _
    · exact steady_pure _
  · exact steady_pure _

/-! ## The fixup commit -/

/-- A fixup commit of its own was made. -/
def isOwn : Event → Bool
  | .ran (.commitFixup _) (.ok result) => result.success
  | _ => false

/-- The branch was reset, whether that succeeded or not. -/
def isReset : Event → Bool
  | .ran (.resetSoft _) (.ok _) => true
  | _ => false

/-- The head that was asked for last. -/
def lastHead (es : List Event) : Option Text :=
  es.findSome? fun
    | .ran .revParseHead (.ok result) => if result.success then some (Text.strip result.stdout) else none
    | _ => none

theorem not_isOwn_of_only (h : Only isCalm es) : ∀ x ∈ es, isOwn x = false := by
  intro x hx
  cases x with
  | ran command outcome =>
    have hcalm := h command outcome hx
    cases command <;> first | rfl | cases hcalm
  | located _ => rfl
  | checked _ => rfl

theorem not_isReset_of_only (h : Only isCalm es) : ∀ x ∈ es, isReset x = false := by
  intro x hx
  cases x with
  | ran command outcome =>
    have hcalm := h command outcome hx
    cases command <;> first | rfl | cases hcalm
  | located _ => rfl
  | checked _ => rfl

/-- The head was asked for. -/
def isAsk : Event → Bool
  | .ran .revParseHead (.ok _) => true
  | _ => false

/-- Neither a fixup commit nor an answer about the head. -/
def Silent (es : List Event) : Prop := ∀ x ∈ es, isOwn x = false ∧ isAsk x = false

theorem silent_of_only (h : Only isIdle es) : Silent es := by
  intro x hx
  refine ⟨not_isOwn_of_only (h.mono fun _ => isCalm_of_isIdle) x hx, ?_⟩
  cases x with
  | ran command outcome =>
    have hidle := h command outcome hx
    cases command <;> first | rfl | cases hidle
  | located _ => rfl
  | checked _ => rfl

theorem Silent.append (hx : Silent xs) (hy : Silent ys) : Silent (ys ++ xs) := by
  intro x hmem
  rcases List.mem_append.mp hmem with hmem | hmem
  · exact hy x hmem
  · exact hx x hmem

theorem lastHead_append (h : Silent xs) (ys : List Event) : lastHead (xs ++ ys) = lastHead ys := by
  have hnone : lastHead xs = none := by
    unfold lastHead
    refine List.findSome?_eq_none_iff.mpr fun x hx => ?_
    have hask := (h x hx).2
    match x, hask with
    | .ran command (.error e), _ => cases command <;> rfl
    | .ran command (.ok result), hask => cases command <;> first | rfl | cases hask
    | .located _, _ => rfl
    | .checked _, _ => rfl
  unfold lastHead at hnone ⊢
  rw [List.findSome?_append, hnone, Option.none_or]

/-- The last event is a fixup commit, made on top of the head. -/
def Committed (head : Text) (es : List Event) : Prop :=
  ∃ commit earlier, es = commit :: earlier ∧ isOwn commit = true ∧ lastHead earlier = some head

/-- A fixup commit was made if a head is returned, and else none was. -/
def Prepared : Except PyException (Option Text) → List Event → Prop
  | .ok (some head), es => Committed head es
  | _, es => ∀ x ∈ es, isOwn x = false

theorem Prepared.of_raise {e : PyException} (h : Only isCalm es) : Prepared (.error e) es := not_isOwn_of_only h

/-- The record of a step in front of one that prepares the fold. -/
theorem Prepared.append {outcome : Except PyException (Option Text)} (h : Prepared outcome ys)
    (hxs : Only isCalm xs) : Prepared outcome (ys ++ xs) := by
  have hnot : (∀ x ∈ ys, isOwn x = false) → ∀ x ∈ ys ++ xs, isOwn x = false := by
    intro hys x hx
    rcases List.mem_append.mp hx with hx | hx
    · exact hys x hx
    · exact not_isOwn_of_only hxs x hx
  match outcome, h with
  | .ok (some head), ⟨commit, earlier, hes, hown, hhead⟩ =>
    refine ⟨commit, earlier ++ xs, by rw [hes, List.cons_append], hown, ?_⟩
    unfold lastHead at hhead ⊢
    rw [List.findSome?_append, hhead]
    rfl
  | .ok none, h => exact hnot h
  | .error e, h => exact hnot h

/-- The record of the fold up to its fixup commit. -/
def Preparing (outcome : Except PyException (Option Text)) (es : List Event) : Prop :=
  Told raised outcome es ∧ Prepared outcome es

/-- A calm step in front of the rest of the preparation. -/
theorem preparing_bind {p : Fold ω α} {f : α → Fold ω (Option Text)} (hp : Steady isCalm p)
    (hf : ∀ a, Yields (f a) Preparing) : Yields (p >>= f) Preparing := by
  refine Yields.bind hp (fun e xs h => ⟨h.1, Prepared.of_raise h.2⟩) fun a xs hxs => ?_
  refine (hf a).mono fun outcome ys hys => ?_
  exact ⟨hxs.1.append hys.1, hys.2.append hxs.2⟩

theorem preparing_none : Yields (pure none : Fold ω (Option Text)) Preparing :=
  yields_pure ⟨fun x hx => by (cases hx), fun x hx => by (cases hx)⟩

/-- What is on record from the moment on when the head is known: nothing asks for it again, and the last event
is the fixup commit if the head is returned. -/
def Fixing (head : Text) (outcome : Except PyException (Option Text)) (es : List Event) : Prop :=
  Told raised outcome es ∧ match outcome with
    | .ok (some head') => head' = head ∧ ∃ commit earlier, es = commit :: earlier ∧ isOwn commit = true ∧
        Silent earlier
    | _ => ∀ x ∈ es, isOwn x = false

theorem fixing_none (head : Text) : Yields (pure none : Fold ω (Option Text)) (Fixing head) :=
  yields_pure ⟨fun x hx => by (cases hx), fun x hx => by (cases hx)⟩

theorem Fixing.append {head : Text} {a : α} {outcome : Except PyException (Option Text)}
    (hy : Fixing head outcome ys) (hx : Told raised (.ok a : Except PyException α) xs) (hsilent : Silent xs) :
    Fixing head outcome (ys ++ xs) := by
  obtain ⟨htold, hrest⟩ := hy
  refine ⟨hx.append htold, ?_⟩
  have hnot : (∀ x ∈ ys, isOwn x = false) → ∀ x ∈ ys ++ xs, isOwn x = false := by
    intro hys x hmem
    rcases List.mem_append.mp hmem with hmem | hmem
    · exact hys x hmem
    · exact (hsilent x hmem).1
  match outcome, hrest with
  | .ok (some head'), ⟨hhead, commit, earlier, hes, hown, hearlier⟩ =>
    exact ⟨hhead, commit, earlier ++ xs, by rw [hes, List.cons_append], hown, hsilent.append hearlier⟩
  | .ok none, hrest => exact hnot hrest
  | .error e, hrest => exact hnot hrest

/-- An idle step in front of the rest. -/
theorem fixing_bind {head : Text} {p : Fold ω α} {f : α → Fold ω (Option Text)} (hp : Steady isIdle p)
    (hf : ∀ a, Yields (f a) (Fixing head)) : Yields (p >>= f) (Fixing head) := by
  refine Yields.bind hp (fun e xs h => ⟨h.1, fun x hx => (silent_of_only h.2 x hx).1⟩) fun a xs hxs => ?_
  exact (hf a).mono fun outcome ys hys => hys.append hxs.1 (silent_of_only hxs.2)

/-- A command and what came of it. -/
theorem yields_run (command : GitCommand) :
    Yields (run svc command) fun outcome es => es = [.ran command outcome] :=
  yields_perform fun _ => rfl

theorem told_answer {command : GitCommand} {result : ShellResult} :
    Told raised (.ok result : Except PyException ShellResult) [.ran command (.ok result)] := by
  intro x hx
  rw [List.mem_singleton.mp hx]
  rfl

theorem told_error {γ : Type} {command : GitCommand} {e : PyException} :
    Told raised (.error e : Except PyException γ) [.ran command (.error e)] :=
  ⟨_, [], rfl, rfl, fun y hy => by cases hy⟩

theorem yields_commitFix (target head : Text) (staged : List Text) :
    Yields (commitFix svc target head staged) (Fixing head) := by
  have hrestore : Yields (do restoreStagedPaths svc staged; return none) (Fixing head) :=
    fixing_bind (steady_restoreStagedPaths staged) fun _ => fixing_none head
  refine fixing_bind steady_unstageSuspiciousFiles fun scan => ?_
  split_ifs
  · refine Yields.bind (yields_run (.commitFixup target)) ?_ ?_
    · rintro e xs rfl
      refine ⟨told_error, fun x hx => ?_⟩
      rw [List.mem_singleton.mp hx]
      rfl
    · rintro fixup xs rfl
      split_ifs with hsuccess
      · exact yields_pure ⟨told_answer, rfl, _, [], rfl, hsuccess, fun x hx => by cases hx⟩
      · refine hrestore.mono fun outcome ys hys => hys.append told_answer fun x hx => ?_
        rw [List.mem_singleton.mp hx]
        exact ⟨by simpa [isOwn] using hsuccess, rfl⟩
  · exact hrestore

/-- What the answer about the head leaves on record. -/
theorem yields_headSha : Yields (headSha svc) fun outcome es =>
    Told raised outcome es ∧ Only isCalm es ∧ ∀ head, outcome = .ok (some head) → lastHead es = some head := by
  refine Yields.bind (yields_run .revParseHead) ?_ ?_
  · rintro e xs rfl
    refine ⟨told_error, ?_, fun head h => by cases h⟩
    intro command outcome hmem
    cases List.mem_singleton.mp hmem
    rfl
  · rintro result xs rfl
    refine yields_pure ⟨told_answer, ?_, ?_⟩
    · intro command outcome hmem
      cases List.mem_singleton.mp hmem
      rfl
    · intro head h
      have hif := Except.ok.inj h
      show List.findSome? _ [_] = some head
      rw [List.findSome?_singleton]
      exact hif

/-- The last thing that `_fold_uncommitted_changes` does is a fixup commit on top of the head that it returns. -/
theorem yields_foldUncommittedChanges (baseBranch : Text) :
    Yields (foldUncommittedChanges svc baseBranch) Preparing := by
  refine preparing_bind (steady_changedPaths.mono fun _ => isCalm_of_isIdle) fun paths => ?_
  dsimp only
  split_ifs
  · exact preparing_none
  · refine preparing_bind (steady_resolveFixupTarget baseBranch _) fun target => ?_
    cases target with
    | none => exact preparing_none
    | some target =>
      refine Yields.bind yields_headSha (fun e xs h => ⟨h.1, Prepared.of_raise h.2.1⟩) ?_
      rintro head xs ⟨htold, hcalm, hhead⟩
      cases head with
      | none => exact yields_pure ⟨htold, not_isOwn_of_only hcalm⟩
      | some head =>
        have hfix : Yields (do
            let preAddStaged ← stagedPaths svc
            let added ← run svc (.add (paths.filter fun p => !isAgentArtifact p))
            if added.success then commitFix svc target head preAddStaged else return none) (Fixing head) := by
          refine fixing_bind steady_stagedPaths fun staged => ?_
          refine fixing_bind (steady_run rfl) fun added => ?_
          split_ifs
          · exact yields_commitFix target head staged
          · exact fixing_none head
        refine hfix.mono fun outcome ys hys => ?_
        obtain ⟨htold', hrest⟩ := hys
        refine ⟨htold.append htold', ?_⟩
        have hnot : (∀ x ∈ ys, isOwn x = false) → ∀ x ∈ ys ++ xs, isOwn x = false := by
          intro hown x hmem
          rcases List.mem_append.mp hmem with hmem | hmem
          · exact hown x hmem
          · exact not_isOwn_of_only hcalm x hmem
        match outcome, hrest with
        | .ok (some head'), ⟨hsame, commit, earlier, hes, hown, hsilent⟩ =>
          refine ⟨commit, earlier ++ xs, by rw [hes, List.cons_append], hown, ?_⟩
          rw [lastHead_append hsilent, hsame]
          exact hhead head rfl
        | .ok none, hrest => exact hnot hrest
        | .error e, hrest => exact hnot hrest

/-! ## Markers and the rebase -/

/-- What the last check for markers found. -/
def lastCheck (es : List Event) : Option (Option Bool) :=
  es.findSome? fun
    | .checked pending => some pending
    | _ => none

theorem lastCheck_append (xs ys : List Event) : lastCheck (ys ++ xs) = (lastCheck ys).or (lastCheck xs) :=
  List.findSome?_append

theorem steady_pendingMarkers (baseBranch : Text) : Steady isCalm (pendingMarkers svc baseBranch) := by
  refine ((steady_resolveBaseRef baseBranch).mono fun _ => isCalm_of_isIdle).bind fun baseRef => ?_
  cases baseRef with
  | none => exact steady_pure _
  | some baseRef => exact (steady_run rfl).bind fun _ => steady_pure _

theorem yields_hasPendingAutosquashCommits (baseBranch : Text) :
    Yields (hasPendingAutosquashCommits svc baseBranch) fun outcome es =>
      Told raised outcome es ∧ Only isCalm es ∧
        ∀ pending, outcome = .ok pending → lastCheck es = some pending := by
  refine Yields.bind (steady_pendingMarkers baseBranch) (fun e xs h => ⟨h.1, h.2, fun _ hok => by cases hok⟩) ?_
  rintro pending xs ⟨htold, hcalm⟩
  intro s
  refine ⟨[.checked pending], rfl, ?_, ?_, ?_⟩
  · intro x hx
    rcases List.mem_cons.mp hx with rfl | hx
    · rfl
    · exact htold x hx
  · intro command outcome hmem
    rcases List.mem_cons.mp hmem with hmem | hmem
    · cases hmem
    · exact hcalm command outcome hmem
  · intro pending' hok
    cases hok
    rfl

theorem steady_markerCommits (baseBranch : Text) : Steady isCalm (markerCommits svc baseBranch) := by
  refine ((steady_resolveBaseRef baseBranch).mono fun _ => isCalm_of_isIdle).bind fun baseRef => ?_
  cases baseRef with
  | none => exact steady_pure _
  | some baseRef =>
    refine (steady_run rfl).bind fun result => ?_
    dsimp only
    split_ifs
    · exact steady_pure _
    · exact steady_pure _

theorem steady_survivingMarkerSubjects (baseBranch : Text) :
    Steady isCalm (survivingMarkerSubjects svc baseBranch) := by
  refine ((steady_resolveBaseRef baseBranch).mono fun _ => isCalm_of_isIdle).bind fun baseRef => ?_
  cases baseRef with
  | none => exact steady_pure _
  | some baseRef => exact (steady_run rfl).bind fun _ => steady_pure _

theorem steady_firstEmpty (candidates : List Text) : Steady isCalm (firstEmpty svc candidates) := by
  induction candidates with
  | nil => exact steady_pure _
  | cons candidate candidates ih =>
    refine Steady.bind ((steady_run rfl).bind fun _ => steady_pure _) fun empty => ?_
    split_ifs
    · exact steady_pure _
    · exact ih

theorem steady_dropMarkers (baseBranch : Text) (n : Nat) (droppedAny : Bool) :
    Steady isCalm (dropMarkers svc baseBranch n droppedAny) := by
  induction n generalizing droppedAny with
  | zero => exact steady_pure _
  | succ n ih =>
    refine (steady_markerCommits baseBranch).bind fun markers => ?_
    refine (steady_firstEmpty markers).bind fun found => ?_
    cases found with
    | none => exact steady_pure _
    | some sha =>
      refine (steady_run rfl).bind fun result => ?_
      split_ifs
      · exact ih true
      · exact (steady_run rfl).bind fun _ => steady_pure _

theorem steady_getMergeBase (baseRef : Text) : Steady isCalm (getMergeBase svc baseRef) := by
  refine (steady_run rfl).bind fun result => ?_
  dsimp only
  split_ifs
  · exact steady_pure _
  · exact steady_pure _
  · exact steady_pure _

theorem steady_locate (w : Worktree) : Steady isCalm (locate svc w) := by
  unfold locate
  split_ifs
  · exact steady_pure _
  · refine yields_perform fun answer => ⟨?_, ?_⟩
    · cases answer with
      | ok _ =>
        intro x hx
        rw [List.mem_singleton.mp hx]
        rfl
      | error e => exact ⟨_, [], rfl, rfl, fun y hy => by cases hy⟩
    · intro command outcome hmem
      cases List.mem_singleton.mp hmem

theorem steady_autosquash (w : Worktree) : Steady isCalm (autosquash svc w) := by
  refine ((steady_resolveBaseRef w.baseBranch).mono fun _ => isCalm_of_isIdle).bind fun baseRef => ?_
  cases baseRef with
  | none => exact steady_pure _
  | some baseRef =>
    refine (steady_locate w).bind fun _ => ?_
    refine (steady_getMergeBase baseRef).bind fun mergeBase => ?_
    cases mergeBase with
    | none => exact steady_pure _
    | some mergeBase =>
      refine (steady_run rfl).bind fun result => ?_
      split_ifs
      · exact steady_pure _
      · exact (steady_run rfl).bind fun _ => steady_pure _

/-! ## The rest of the fold -/

/-- How the fold goes on when `pre` is the head before its fixup commit and `last` what the last check found: it
returns `true` on a check without markers only, and `false` not without a reset as its last command. -/
structure Rest (pre : Option Text) (last : Option (Option Bool)) (outcome : Except PyException Bool)
    (es : List Event) : Prop where
  told : Told raised outcome es
  notOwn : ∀ x ∈ es, isOwn x = false
  clean : outcome = .ok true → (lastCheck es).or last = some (some false)
  resets : ∀ head, pre = some head → (outcome ≠ .ok false ∧ ∀ x ∈ es, isReset x = false) ∨
    (outcome = .ok false ∧ ∃ result earlier, es = .ran (.resetSoft head) (.ok result) :: earlier ∧
      ∀ x ∈ earlier, isReset x = false)

variable {pre : Option Text} {last : Option (Option Bool)}

theorem Rest.raise {e : PyException} (htold : Told raised (.error e : Except PyException Bool) es)
    (hcalm : Only isCalm es) : Rest pre last (.error e) es where
  told := htold
  notOwn := not_isOwn_of_only hcalm
  clean h := by cases h
  resets _ _ := .inl ⟨by simp, not_isReset_of_only hcalm⟩

theorem Rest.append {a : α} {outcome : Except PyException Bool} {last' : Option (Option Bool)}
    (h : Rest pre last' outcome ys) (htold : Told raised (.ok a : Except PyException α) xs)
    (hcalm : Only isCalm xs) (hlast : last' = none ∨ last' = lastCheck xs) : Rest pre last outcome (ys ++ xs) where
  told := htold.append h.told
  notOwn := by
    intro x hx
    rcases List.mem_append.mp hx with hx | hx
    · exact h.notOwn x hx
    · exact not_isOwn_of_only hcalm x hx
  clean hok := by
    have hclean := h.clean hok
    rw [lastCheck_append]
    rcases hlast with rfl | rfl
    · rw [Option.or_none] at hclean
      rw [hclean]
      rfl
    · rw [hclean]
      rfl
  resets head hhead := by
    rcases h.resets head hhead with ⟨hok, hnot⟩ | ⟨hok, result, earlier, rfl, hnot⟩
    · refine .inl ⟨hok, fun x hx => ?_⟩
      rcases List.mem_append.mp hx with hx | hx
      · exact hnot x hx
      · exact not_isReset_of_only hcalm x hx
    · refine .inr ⟨hok, result, earlier ++ xs, rfl, fun x hx => ?_⟩
      rcases List.mem_append.mp hx with hx | hx
      · exact hnot x hx
      · exact not_isReset_of_only hcalm x hx

theorem rest_bind {p : Fold ω α} {f : α → Fold ω Bool} (hp : Steady isCalm p)
    (hf : ∀ a, Yields (f a) (Rest pre none)) : Yields (p >>= f) (Rest pre last) := by
  refine Yields.bind hp (fun e xs h => Rest.raise h.1 h.2) fun a xs hxs => ?_
  exact (hf a).mono fun outcome ys hys => hys.append hxs.1 hxs.2 (.inl rfl)

theorem rest_check {baseBranch : Text} {f : Option Bool → Fold ω Bool}
    (hf : ∀ pending, Yields (f pending) (Rest pre (some pending))) :
    Yields (hasPendingAutosquashCommits svc baseBranch >>= f) (Rest pre last) := by
  refine Yields.bind (yields_hasPendingAutosquashCommits baseBranch) (fun e xs h => Rest.raise h.1 h.2.1) ?_
  rintro pending xs ⟨htold, hcalm, hcheck⟩
  refine (hf pending).mono fun outcome ys hys => hys.append htold hcalm (.inr ?_)
  exact (hcheck pending rfl).symm

theorem rest_true (h : last = some (some false)) : Yields (pure true : Fold ω Bool) (Rest pre last) := by
  refine yields_pure ⟨fun x hx => by (cases hx), fun x hx => by (cases hx), fun _ => h, fun head _ => ?_⟩
  exact .inl ⟨by simp, fun x hx => by cases hx⟩

/-- Nothing is folded, and there is nothing to undo. -/
theorem rest_false : Yields (pure false : Fold ω Bool) (Rest none last) := by
  refine yields_pure ⟨fun x hx => by (cases hx), fun x hx => by (cases hx), fun h => ?_, fun head h => ?_⟩
  · cases h
  · cases h

theorem yields_unwind (w : Worktree) (pre : Option Text) : Yields (unwind svc w pre) (Rest pre last) := by
  cases pre with
  | none => exact rest_bind (steady_survivingMarkerSubjects w.baseBranch) fun _ => rest_false
  | some head =>
    refine Yields.bind (yields_run (.resetSoft head)) ?_ ?_
    · rintro e xs rfl
      refine ⟨told_error, ?_, fun h => by (cases h), fun _ _ => .inl ⟨by simp, ?_⟩⟩
      · intro x hx
        rw [List.mem_singleton.mp hx]
        rfl
      · intro x hx
        rw [List.mem_singleton.mp hx]
        rfl
    · rintro result xs rfl
      refine yields_pure ⟨told_answer, ?_, fun h => by (cases h), fun head' hhead' => ?_⟩
      · intro x hx
        rw [List.mem_singleton.mp hx]
        rfl
      · cases hhead'
        exact .inr ⟨rfl, result, [], rfl, fun x hx => by cases hx⟩

theorem yields_settle (w : Worktree) (pre : Option Text) (squashed : Bool) (pending : Option Bool)
    (hlast : squashed = true → pending = some false → last = some (some false)) :
    Yields (settle svc w pre squashed pending) (Rest pre last) := by
  unfold settle
  split_ifs with htrue hnone
  · exact rest_true (hlast htrue.1 htrue.2.1)
  · rw [hnone.2]
    exact rest_false
  · exact yields_unwind w pre

theorem yields_rest (w : Worktree) (pre : Option Text) :
    Yields (do
      let pending ← hasPendingAutosquashCommits svc w.baseBranch
      if pre = none ∧ pending = some false then return false
      else
        let squashed ← autosquash svc w
        let pendingAfter ← hasPendingAutosquashCommits svc w.baseBranch
        if squashed ∧ pendingAfter = some false then return true
        else if ← dropStrandedEmptyMarkers svc w.baseBranch then
          let pendingAfter ← hasPendingAutosquashCommits svc w.baseBranch
          settle svc w pre squashed pendingAfter
        else settle svc w pre squashed pendingAfter) (Rest pre none) := by
  refine rest_check fun pending => ?_
  split_ifs with hnothing
  · rw [hnothing.1]
    exact rest_false
  · refine rest_bind (steady_autosquash w) fun squashed => ?_
    refine rest_check fun pendingAfter => ?_
    split_ifs with hfolded
    · exact rest_true (by rw [hfolded.2])
    · refine rest_bind (steady_dropMarkers _ _ _) fun dropped => ?_
      split_ifs
      · exact rest_check fun pendingLast => yields_settle w pre squashed pendingLast fun _ h => by rw [h]
      · exact yields_settle w pre squashed pendingAfter fun hs hp => absurd ⟨hs, hp⟩ hfolded

/-! ## The whole fold -/

/-- The record of a fold: there is no fixup commit of its own, or the fold has gone on from it. -/
def Recorded (outcome : Except PyException Bool) (es : List Event) : Prop :=
  Told raised outcome es ∧ (outcome = .ok true → lastCheck es = some (some false)) ∧
    ((∀ x ∈ es, isOwn x = false) ∨ ∃ head later earlier,
      es = later ++ earlier ∧ Committed head earlier ∧ Rest (some head) none outcome later)

theorem Rest.recorded {outcome : Except PyException Bool} (h : Rest pre none outcome ys)
    (hxs : Preparing (.ok pre) xs) : Recorded outcome (ys ++ xs) := by
  refine ⟨hxs.1.append h.told, fun hok => ?_, ?_⟩
  · have hclean := h.clean hok
    rw [Option.or_none] at hclean
    rw [lastCheck_append, hclean]
    rfl
  · cases pre with
    | none =>
      refine .inl fun x hx => ?_
      rcases List.mem_append.mp hx with hx | hx
      · exact h.notOwn x hx
      · exact hxs.2 x hx
    | some head => exact .inr ⟨head, ys, xs, rfl, hxs.2, h⟩

theorem yields_fold (w : Worktree) : Yields (fold svc w) Recorded := by
  refine Yields.bind (yields_foldUncommittedChanges w.baseBranch) ?_ ?_
  · intro e xs h
    refine ⟨h.1, ?_, .inl h.2⟩
    intro hok
    cases hok
  · intro pre xs hxs
    exact (yields_rest w pre).mono fun outcome ys hys => hys.recorded hxs

/-! ## Folded or unwound -/

/-- What is on record since the last fixup commit of its own. -/
def sinceCommit (es : List Event) : List Event := es.takeWhile fun x => !isOwn x

/-- The head that was recorded before the last fixup commit of its own. -/
def headBefore (es : List Event) : Option Text := lastHead ((es.dropWhile fun x => !isOwn x).drop 1)

/-- `true` is returned only when the last check found no marker commit, and `false` after a fixup commit only
when the branch has been reset to the head before that commit. -/
structure FoldsOrUnwinds (outcome : Except PyException Bool) (es : List Event) : Prop where
  folds : outcome = .ok true → lastCheck es = some (some false)
  unwinds : outcome = .ok false → (∃ x ∈ es, isOwn x = true) →
    ∃ head result, headBefore es = some head ∧ result.success = true ∧
      Event.ran (.resetSoft head) (.ok result) ∈ sinceCommit es

/-- No command raises an `OSError`, and no soft reset fails. -/
def Smooth (es : List Event) : Prop :=
  ∀ x ∈ es, (∀ e, raised x = some e → e.isOsError = false) ∧
    ∀ sha result, x = .ran (.resetSoft sha) (.ok result) → result.success = true

/-- After a fixup commit of its own the fold runs smoothly. -/
def Undisturbed (es : List Event) : Prop := (∃ x ∈ es, isOwn x = true) → Smooth (sinceCommit es)

section

variable {later : List Event} {commit : Event} (earlier : List Event)

theorem sinceCommit_append (hlater : ∀ x ∈ later, isOwn x = false) (hcommit : isOwn commit = true) :
    sinceCommit (later ++ commit :: earlier) = later := by
  have hpass : ∀ x ∈ later, (!isOwn x) = true := fun x hx => by rw [hlater x hx]; rfl
  unfold sinceCommit
  rw [List.takeWhile_append_of_pos hpass, List.takeWhile_cons, hcommit]
  exact List.append_nil later

theorem headBefore_append (hlater : ∀ x ∈ later, isOwn x = false) (hcommit : isOwn commit = true) :
    headBefore (later ++ commit :: earlier) = lastHead earlier := by
  have hpass : ∀ x ∈ later, (!isOwn x) = true := fun x hx => by rw [hlater x hx]; rfl
  unfold headBefore
  rw [List.dropWhile_append_of_pos hpass, List.dropWhile_cons, hcommit]
  rfl

end

/-- What is returned for what the fold comes to. -/
def caught (outcome : Except PyException Bool) : Except PyException Bool :=
  match outcome with
  | .ok folded => .ok folded
  | .error e => if e.isOsError then .ok false else .error e

theorem not_mem_of_notReset {head : Text} {result : ShellResult} (h : ∀ x ∈ es, isReset x = false) :
    Event.ran (.resetSoft head) (.ok result) ∉ es := by
  intro hmem
  have hreset := h _ hmem
  cases hreset

/-- What follows a fixup commit undoes it, or returns something else, exactly when it runs smoothly. -/
theorem Rest.resets_iff {outcome : Except PyException Bool} {head : Text} {later : List Event}
    (hrest : Rest (some head) none outcome later) :
    (caught outcome = .ok false → ∃ result : ShellResult, result.success = true ∧
      Event.ran (.resetSoft head) (.ok result) ∈ later) ↔ Smooth later := by
  have htold := hrest.told
  rcases hrest.resets head rfl with ⟨hnotFalse, hnot⟩ | ⟨hfalse, result, rest, rfl, hnot⟩
  · -- no reset was run
    have hno : ∀ x ∈ later, ∀ sha result, x = .ran (.resetSoft sha) (.ok result) → result.success = true := by
      rintro x hx sha result rfl
      exact absurd hx (not_mem_of_notReset hnot)
    cases outcome with
    | ok folded =>
      refine iff_of_true (fun h => absurd h hnotFalse) fun x hx => ⟨fun e he => ?_, hno x hx⟩
      rw [htold x hx] at he
      cases he
    | error e =>
      obtain ⟨x, behind, rfl, hx, hbehind⟩ := htold
      by_cases hos : e.isOsError = true
      · refine iff_of_false (fun h => ?_) fun h => ?_
        · obtain ⟨result, -, hmem⟩ := h (if_pos hos)
          exact not_mem_of_notReset hnot hmem
        · have hnotOs := (h x List.mem_cons_self).1 e hx
          rw [hos] at hnotOs
          cases hnotOs
      · refine iff_of_true (fun h => ?_) fun y hy => ⟨fun e' he' => ?_, hno y hy⟩
        · unfold caught at h
          dsimp only at h
          rw [if_neg hos] at h
          cases h
        · rcases List.mem_cons.mp hy with rfl | hy
          · rw [hx] at he'
            cases he'
            exact Bool.eq_false_iff.mpr hos
          · rw [hbehind y hy] at he'
            cases he'
  · -- the reset is the last command
    subst hfalse
    have hsame : ∀ sha result', Event.ran (.resetSoft sha) (.ok result') ∈
        Event.ran (.resetSoft head) (.ok result) :: rest → result' = result := by
      intro sha result' hmem
      rcases List.mem_cons.mp hmem with heq | hmem
      · cases heq
        rfl
      · exact absurd hmem (not_mem_of_notReset hnot)
    constructor
    · intro h x hx
      obtain ⟨result', hsuccess, hmem⟩ := h rfl
      refine ⟨fun e he => ?_, ?_⟩
      · rw [htold x hx] at he
        cases he
      · rintro sha result'' rfl
        rw [hsame _ _ hx, ← hsame _ _ hmem]
        exact hsuccess
    · intro h _
      exact ⟨result, (h _ List.mem_cons_self).2 head result rfl, List.mem_cons_self⟩

/-- The fold keeps its promise exactly when it is not disturbed after its fixup commit. -/
theorem Recorded.foldsOrUnwinds_iff {outcome : Except PyException Bool} (h : Recorded outcome es) :
    FoldsOrUnwinds (caught outcome) es ↔ Undisturbed es := by
  obtain ⟨htold, hclean, hcommit⟩ := h
  have hfolds : caught outcome = .ok true → lastCheck es = some (some false) := by
    intro hok
    cases outcome with
    | ok folded => exact hclean hok
    | error e =>
      unfold caught at hok
      dsimp only at hok
      split_ifs at hok
      cases hok
  rcases hcommit with hnone | ⟨head, later, earlier, rfl, ⟨commit, before, rfl, hown, hhead⟩, hrest⟩
  · have hno : ¬ ∃ x ∈ es, isOwn x = true := by
      rintro ⟨x, hx, hown⟩
      rw [hnone x hx] at hown
      cases hown
    exact iff_of_true ⟨hfolds, fun _ hex => absurd hex hno⟩ fun hex => absurd hex hno
  · have hsince := sinceCommit_append before hrest.notOwn hown
    have hbefore := headBefore_append before hrest.notOwn hown
    have hex : ∃ x ∈ later ++ commit :: before, isOwn x = true := ⟨commit, by simp, hown⟩
    have hund : Undisturbed (later ++ commit :: before) ↔ Smooth later := by
      unfold Undisturbed
      rw [hsince]
      exact ⟨fun h => h hex, fun h _ => h⟩
    rw [hund, ← hrest.resets_iff]
    constructor
    · intro h hfalse
      obtain ⟨head', result, hhead', hsuccess, hmem⟩ := h.unwinds hfalse hex
      rw [hbefore, hhead] at hhead'
      cases hhead'
      rw [hsince] at hmem
      exact ⟨result, hsuccess, hmem⟩
    · intro h
      refine ⟨hfolds, fun hfalse _ => ?_⟩
      obtain ⟨result, hsuccess, hmem⟩ := h hfalse
      exact ⟨head, result, hbefore.trans hhead, hsuccess, by rwa [hsince]⟩

/-- In every run the fold keeps its promise if and only if no command raises an `OSError` after its fixup commit
and no soft reset fails. -/
theorem foldFixIntoBranch_foldsOrUnwinds_iff (svc : Services ω) (w : Worktree) :
    Yields (foldFixIntoBranch svc w) fun outcome es => FoldsOrUnwinds outcome es ↔ Undisturbed es := by
  refine yields_trying (yields_fold w) (fun folded es h => h.foldsOrUnwinds_iff) fun e es h => ?_
  have hiff := h.foldsOrUnwinds_iff
  unfold caught at hiff
  dsimp only at hiff
  split_ifs with hos
  · rwa [if_pos hos] at hiff
  · rwa [if_neg hos] at hiff

/-- Git answers as usual until the fixup commit is made, and then no command can be started any more. -/
def stricken : Services Bool where
  run command made :=
    if made then (.error .osError, made)
    else
      match command with
      | .status => (.ok { stdout := " M app.py".toList ++ ['\x00'] }, made)
      | .isAncestor _ _ => (.ok { returncode := 1 }, made)
      | .stagedNames => (.ok {}, made)
      | .commitFixup _ => (.ok {}, true)
      | _ => (.ok { stdout := "1f0c9de\n".toList }, made)
  cwd made := (.ok (), made)

/-- The fixup commit stays on the branch when the next command cannot be started. -/
theorem fold_leaves_fixup :
    ¬ FoldsOrUnwinds (foldFixIntoBranch stricken { baseBranch := "main".toList } { world := false }).1
      (foldFixIntoBranch stricken { baseBranch := "main".toList } { world := false }).2.reads := by
  intro h
  have hfalse : (foldFixIntoBranch stricken { baseBranch := "main".toList } { world := false }).1 =
      .ok false := by
    decide +kernel
  have hown : ((foldFixIntoBranch stricken { baseBranch := "main".toList } { world := false }).2.reads.any
      isOwn) = true := by
    decide +kernel
  have hreset : ((foldFixIntoBranch stricken { baseBranch := "main".toList } { world := false }).2.reads.any
      isReset) = false := by
    decide +kernel
  obtain ⟨x, hx, hxown⟩ := List.any_eq_true.mp hown
  obtain ⟨head, result, -, -, hmem⟩ := h.unwinds hfalse ⟨x, hx, hxown⟩
  have hmem' := (List.takeWhile_prefix _).subset hmem
  rw [List.any_eq_false] at hreset
  exact hreset _ hmem' rfl

end Core.CommitFold

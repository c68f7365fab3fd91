import SovaVerified.Supervisor.AutoRebase

/-!
# When a run counts as an attempt

A run is recorded as attempted at the end of a rebase, and also by the clauses that end the `try` statement:
there it is whether the rebase was called or the search for a worktree has raised. So a run that counts as an
attempt has called the rebase exactly when, behind a call of the search that has raised what nothing handles,
the database does not take the record (`attempted_iff`).
-/

namespace Supervisor.AutoRebase

open Outside Git

/-! ## What is written down -/

/-- The exceptions that are handled where the call is made. -/
def SetupCall.handles : SetupCall → PyException → Bool
  | .findWorktree, e => e.isOsOrRuntime
  | .checkActiveAgent, e => e == .runtimeError
  | _, _ => false

/-- The event is a call of the search, or the record of a safety skip, that has raised what nothing
handles. -/
def Event.unhandled : Event → Bool
  | .setup call (some e) => !call.handles e
  | .finalized false outcome => outcome.raised.isSome
  | _ => false

/-- The rebase was called. -/
def Event.isRebase : Event → Bool
  | .rebase => true
  | _ => false

/-- What the event leaves in the row of the run. -/
def Event.record : Event → Option Bool
  | .finalized attempted outcome => if outcome.written then some attempted else none
  | _ => none

variable {es xs ys : List Event}

/-- The search for a worktree has failed. -/
def SetupFailed (es : List Event) : Prop := es.any Event.unhandled = true

def Invoked (es : List Event) : Prop := es.any Event.isRebase = true

/-- In its row, as it was last written, the run counts as an attempt. -/
def RecordedAttempted (es : List Event) : Prop := es.findSome? Event.record = some true

/-- The database has taken a record of an attempt. -/
def Taken (es : List Event) : Prop :=
  ∃ finalized : Finalized, .finalized true finalized ∈ es ∧ finalized.written = true

theorem RecordedAttempted.taken (h : RecordedAttempted es) : Taken es := by
  obtain ⟨ev, hev, hrecord⟩ := List.exists_of_findSome?_eq_some h
  cases ev with
  | setup call raised => cases hrecord
  | rebase => cases hrecord
  | finalized attempted finalized =>
    have hwritten : (if finalized.written then some attempted else none) = some true := hrecord
    split_ifs at hwritten with hw
    obtain rfl : attempted = true := Option.some.inj hwritten
    exact ⟨finalized, hev, hw⟩

theorem setupFailed_append : SetupFailed (ys ++ xs) ↔ SetupFailed ys ∨ SetupFailed xs := by
  unfold SetupFailed
  rw [List.any_append, Bool.or_eq_true]

theorem invoked_append : Invoked (ys ++ xs) ↔ Invoked ys ∨ Invoked xs := by
  unfold Invoked
  rw [List.any_append, Bool.or_eq_true]

/-- An event of the search: no rebase, and no record of an attempt. -/
def Event.searching : Event → Bool
  | .setup _ _ => true
  | .rebase => false
  | .finalized attempted _ => !attempted

/-- What the search comes to: it raises exactly when a call has raised what nothing handles. -/
structure Searched {α : Type} (outcome : Except PyException α) (es : List Event) : Prop where
  searching : es.all Event.searching = true
  failed : SetupFailed es ↔ ∃ e, outcome = .error e

theorem Searched.not_invoked {α : Type} {outcome : Except PyException α} (h : Searched outcome es) :
    ¬Invoked es := by
  intro hinvoked
  obtain ⟨ev, hev, hrebase⟩ := List.any_eq_true.mp hinvoked
  have hsearching := List.all_eq_true.mp h.searching ev hev
  cases ev <;> simp_all [Event.searching, Event.isRebase]

theorem Searched.not_taken {α : Type} {outcome : Except PyException α} (h : Searched outcome es) :
    ¬Taken es := by
  rintro ⟨finalized, hev, -⟩
  have hsearching : (!true) = true := List.all_eq_true.mp h.searching _ hev
  cases hsearching

/-- The end of a run that has called the rebase. -/
def Rebased (es : List Event) : Prop := Invoked es ∧ ¬SetupFailed es

/-- What a whole run comes to. -/
structure Accounted (es : List Event) : Prop where
  failed : SetupFailed es → ¬Invoked es
  recorded : RecordedAttempted es → ¬SetupFailed es → Invoked es
  taken : SetupFailed es → Taken es → RecordedAttempted es

/-! ## The search -/

section

variable {ω α β : Type} {services : Services ω} {job : Job} {runId : Int}

/-- A block of the search. -/
theorem searched_bind {p : Action ω α} {f : α → Action ω β} (hp : Yields p Searched)
    (hf : ∀ a, Yields (f a) Searched) : Yields (p >>= f) Searched := by
  refine yields_bind hp hf ?_ ?_
  · intro e xs h
    refine ⟨h.searching, h.failed.trans ⟨fun _ => ⟨e, rfl⟩, fun _ => ⟨e, rfl⟩⟩⟩
  · intro a xs outcome ys hx hy
    refine ⟨?_, ?_⟩
    · rw [List.all_append, hx.searching, hy.searching]
      rfl
    · rw [setupFailed_append, hy.failed, or_iff_left]
      intro hfailed
      obtain ⟨e, he⟩ := hx.failed.mp hfailed
      cases he

theorem searched_pure (a : α) : Yields (pure a : Action ω α) Searched := by
  refine yields_pure ⟨rfl, ?_⟩
  simp [SetupFailed]

theorem searched_setup {call : SetupCall} (h : ∀ e, call.handles e = false)
    (question : ω → Except PyException α × ω) : Yields (setup call question) Searched := by
  refine yields_perform fun answer => ⟨rfl, ?_⟩
  cases answer with
  | ok a => simp [SetupFailed, Event.unhandled, raisedBy]
  | error e => simp [SetupFailed, Event.unhandled, raisedBy, h e]

/-- A call of the search whose handler catches what it is said to handle. -/
theorem searched_trying {call : SetupCall} {returned : α → β} {handler : PyException → Option β}
    (h : ∀ e, (handler e).isSome = call.handles e) (question : ω → Except PyException α × ω) :
    Yields (trying (setup call question) returned handler) Searched := by
  refine yields_trying (Q := fun answer es => es = [.setup call (raisedBy answer)]) ?_ ?_ ?_
  · exact yields_perform fun answer => rfl
  · rintro a es rfl
    exact ⟨rfl, by simp [SetupFailed, Event.unhandled, raisedBy]⟩
  · rintro e es rfl
    refine ⟨rfl, ?_⟩
    have hhandles := h e
    cases hhandler : handler e with
    | none =>
      rw [hhandler] at hhandles
      simp [SetupFailed, Event.unhandled, raisedBy, ← hhandles]
    | some b =>
      rw [hhandler] at hhandles
      simp [SetupFailed, Event.unhandled, raisedBy, ← hhandles]

/-- What a record of the run writes down. -/
theorem yields_finalizeRun (f : Finalization) :
    Yields (finalizeRun services f) fun outcome es =>
      ∃ finalized : Finalized, es = [.finalized f.attempted finalized] ∧
        (finalized.raised.isSome = true ↔ ∃ e, outcome = .error e) := by
  intro s
  refine ⟨[.finalized f.attempted (services.finalizeRun f s.world).1], rfl, _, rfl, ?_⟩
  unfold finalizeRun
  dsimp only
  cases (services.finalizeRun f s.world).1.raised with
  | none => simp
  | some e => simp

/-- The record of a safety skip. -/
theorem searched_finalizeRun {f : Finalization} (h : f.attempted = false) :
    Yields (finalizeRun services f) Searched := by
  refine (yields_finalizeRun f).mono ?_
  rintro outcome es ⟨finalized, rfl, hraised⟩
  rw [h]
  refine ⟨rfl, ?_⟩
  rw [← hraised]
  simp [SetupFailed, Event.unhandled]

theorem searched_skip (reason : Text) : Yields (skip services job runId reason) Searched := by
  unfold skip
  exact searched_bind (searched_finalizeRun rfl) fun _ => searched_pure _

theorem searched_worktreeIsClean (path : Text) : Yields (worktreeIsClean services path) Searched := by
  unfold worktreeIsClean
  exact searched_bind (searched_setup (fun _ => rfl) _) fun _ => searched_pure _

theorem searched_checkWorktree (path : Text) :
    Yields (checkWorktree services job runId path) Searched := by
  unfold checkWorktree
  refine searched_bind (searched_trying (fun e => ?_) _) fun agent => ?_
  · by_cases he : e = .runtimeError
    · simp [SetupCall.handles, he]
    · simp [SetupCall.handles, he]
  · match agent with
    | .error e => exact searched_bind (searched_finalizeRun rfl) fun _ => searched_pure _
    | .ok (some pid) => exact searched_skip _
    | .ok none =>
      refine searched_bind (searched_worktreeIsClean path) fun clean => ?_
      cases clean with
      | true => exact searched_pure _
      | false => exact searched_skip _

theorem searched_resolveRebaseWorktree : Yields (resolveRebaseWorktree services job runId) Searched := by
  unfold resolveRebaseWorktree
  refine searched_bind (searched_setup (fun _ => rfl) _) fun _ => ?_
  refine searched_bind (searched_trying (fun e => ?_) _) fun existing => ?_
  · by_cases he : e.isOsOrRuntime = true
    · simp [SetupCall.handles, he]
    · simp [SetupCall.handles, he]
  · cases existing with
    | none => exact searched_bind (searched_setup (fun _ => rfl) _) fun _ => searched_pure _
    | some path =>
      refine searched_bind (searched_setup (fun _ => rfl) _) fun main => ?_
      cases main with
      | true => exact searched_skip _
      | false => exact searched_checkWorktree path

/-! ## The rebase and the clauses around it -/

/-- The end of a run is recorded as one of an attempt, perhaps more than once. -/
def Ending (es : List Event) : Prop := ∀ ev ∈ es, ∃ finalized : Finalized, ev = .finalized true finalized

theorem Ending.not_setupFailed (h : Ending es) : ¬SetupFailed es := by
  intro hfailed
  obtain ⟨ev, hev, hunhandled⟩ := List.any_eq_true.mp hfailed
  obtain ⟨finalized, rfl⟩ := h ev hev
  cases hunhandled

theorem Ending.not_invoked (h : Ending es) : ¬Invoked es := by
  intro hinvoked
  obtain ⟨ev, hev, hrebase⟩ := List.any_eq_true.mp hinvoked
  obtain ⟨finalized, rfl⟩ := h ev hev
  cases hrebase

theorem Ending.recorded (h : Ending es) (htaken : Taken es) : RecordedAttempted es := by
  obtain ⟨finalized, hev, hwritten⟩ := htaken
  have hrecord : (Event.finalized true finalized).record = some true := if_pos hwritten
  have hsome : (es.findSome? Event.record).isSome := by
    rw [List.isSome_findSome?, List.any_eq_true]
    exact ⟨_, hev, by rw [hrecord]; rfl⟩
  obtain ⟨recorded, hrecorded⟩ := Option.isSome_iff_exists.mp hsome
  obtain ⟨last, hlast, hlastRecord⟩ := List.exists_of_findSome?_eq_some hrecorded
  obtain ⟨lastFinalized, rfl⟩ := h last hlast
  have hattempted : (if lastFinalized.written then some true else none) = some recorded := hlastRecord
  split_ifs at hattempted
  unfold RecordedAttempted
  rw [hrecorded, ← hattempted]

/-- A record of the end stands behind the ones of the search. -/
theorem Ending.recorded_append (hy : Ending ys) (hx : ¬Taken xs) (htaken : Taken (ys ++ xs)) :
    RecordedAttempted (ys ++ xs) := by
  obtain ⟨finalized, hev, hwritten⟩ := htaken
  have hend : RecordedAttempted ys := by
    rcases List.mem_append.mp hev with hmem | hmem
    · exact hy.recorded ⟨finalized, hmem, hwritten⟩
    · exact absurd ⟨finalized, hmem, hwritten⟩ hx
  unfold RecordedAttempted at hend ⊢
  rw [List.findSome?_append, hend]
  rfl

theorem ending_nil : Ending [] := fun _ h => nomatch h

theorem Ending.append (hy : Ending ys) (hx : Ending xs) : Ending (ys ++ xs) :=
  fun ev hev => (List.mem_append.mp hev).elim (hy ev) (hx ev)

theorem emits_conclude (status : Text) (error : Option Text) :
    Emits (conclude services job runId status error) Ending := by
  refine (yields_finalizeRun _).emits ?_
  rintro outcome es ⟨finalized, rfl, -⟩ ev hev
  exact ⟨finalized, List.mem_singleton.mp hev⟩

theorem emits_ending_act {question : ω → Except PyException α × ω} : Emits (act question) Ending :=
  emits_act ending_nil

theorem emits_ending_pure (a : α) : Emits (pure a : Action ω α) Ending := emits_pure ending_nil

theorem emits_ending_bind {p : Action ω α} {f : α → Action ω β} (hp : Emits p Ending)
    (hf : ∀ a, Emits (f a) Ending) : Emits (p >>= f) Ending :=
  emits_bind hp hf (fun _ h => h) fun _ _ hx hy => hy.append hx

theorem emits_validateAndPush (path : Text) (conflictsResolved : Nat) :
    Emits (validateAndPush services job runId path conflictsResolved) Ending := by
  unfold validateAndPush
  refine emits_ending_bind emits_ending_act fun hook => ?_
  split_ifs
  · refine emits_ending_bind emits_ending_act fun push => ?_
    split_ifs
    · exact emits_ending_bind (emits_conclude _ _) fun _ => emits_ending_pure _
    · exact emits_ending_bind (emits_conclude _ _) fun _ => emits_ending_pure _
    · exact emits_ending_bind (emits_conclude _ _) fun _ => emits_ending_pure _
  · refine emits_ending_bind (emits_conclude _ _) fun _ => ?_
    exact emits_ending_bind emits_ending_act fun _ => emits_ending_pure _

theorem Ending.rebased (hy : Ending ys) (hx : Rebased xs) : Rebased (ys ++ xs) := by
  refine ⟨invoked_append.mpr (.inr hx.1), fun hfailed => ?_⟩
  exact (setupFailed_append.mp hfailed).elim hy.not_setupFailed hx.2

theorem rebased_rebase : Rebased [.rebase] := ⟨rfl, fun h => nomatch h⟩

/-- Whatever comes behind the call of the rebase. -/
theorem emits_runRebaseAndPush (path : Text) :
    Emits (runRebaseAndPush services job runId path) Rebased := by
  unfold runRebaseAndPush
  refine emits_bind (emits_note (Q := Rebased) rebased_rebase) (R := Ending) (fun _ => ?_) (fun _ h => h)
    fun _ _ hx hy => hy.rebased hx
  refine emits_ending_bind emits_ending_act fun result => ?_
  refine emits_ending_bind emits_ending_act fun _ => ?_
  split_ifs
  · exact emits_validateAndPush path _
  · refine emits_ending_bind (emits_conclude _ _) fun _ => ?_
    exact emits_ending_bind emits_ending_act fun _ => emits_ending_pure _

/-- A clause records the end of the run, and does not return what the `try` statement was to come to. -/
theorem yields_handler (ended : Result → α) {e : PyException} {block : Action ω α}
    (h : (if e = cancelled then some do
        conclude services job runId "failed".toList (some "Rebase cancelled".toList)
        raise e
      else if Rebase.isException e then some do
        conclude services job runId "failed".toList (some (services.errorText e))
        pure (ended (.failed (some job.prNumber) (services.errorText e)))
      else none) = some block) :
    Yields block fun outcome es => Ending es ∧ ∀ a, outcome = .ok a → ∃ result, a = ended result := by
  have hconclude : ∀ error, Yields (conclude services job runId "failed".toList error)
      fun _ es => Ending es := by
    intro error s
    have hemits : Emits (conclude services job runId "failed".toList error) Ending := emits_conclude _ _
    obtain ⟨es, hreads, hes⟩ := hemits s
    exact ⟨es, hreads, hes⟩
  split_ifs at h with hcancelled hexception
  · cases h
    refine yields_bind (hconclude _) (R := fun _ outcome ys => ys = [] ∧ ∀ a, outcome ≠ .ok a)
      (fun _ => yields_raise ⟨rfl, fun _ h => nomatch h⟩) (fun e xs hx => ⟨hx, fun _ h => nomatch h⟩) ?_
    rintro _ xs outcome ys hx ⟨rfl, hne⟩
    exact ⟨hx, fun a ha => absurd ha (hne a)⟩
  · cases h
    refine yields_bind (hconclude _)
      (R := fun _ outcome ys => ys = [] ∧ ∀ a, outcome = .ok a → ∃ result, a = ended result)
      (fun _ => yields_pure ⟨rfl, fun a ha => ?_⟩) (fun e xs hx => ⟨hx, fun _ h => nomatch h⟩) ?_
    · cases ha
      exact ⟨_, rfl⟩
    · rintro _ xs outcome ys hx ⟨rfl, hended⟩
      exact ⟨hx, hended⟩

/-- The search with its clauses: it has come to its value, or it has failed. -/
def Resolved (outcome : Except PyException Resolution) (es : List Event) : Prop :=
  Searched outcome es ∨
    (SetupFailed es ∧ ¬Invoked es ∧ (Taken es → RecordedAttempted es) ∧
      ∀ path reused, outcome ≠ .ok (.worktree path reused))

theorem yields_resolved :
    Yields (handled services job runId .finished (resolveRebaseWorktree services job runId)) Resolved := by
  unfold handled
  refine yields_rescue searched_resolveRebaseWorktree (fun e block h => yields_handler Resolution.finished h) ?_ ?_ ?_
  · exact fun a es h => .inl h
  · exact fun e es _ h => .inl h
  · rintro e xs outcome ys hx ⟨hending, hended⟩
    refine .inr ⟨setupFailed_append.mpr (.inr (hx.failed.mpr ⟨e, rfl⟩)), ?_, ?_, ?_⟩
    · exact fun hinvoked => (invoked_append.mp hinvoked).elim hending.not_invoked hx.not_invoked
    · exact hending.recorded_append hx.not_taken
    · intro path reused hworktree
      obtain ⟨result, hresult⟩ := hended _ hworktree
      cases hresult

theorem emits_handled_runRebaseAndPush (path : Text) :
    Emits (handled services job runId id (runRebaseAndPush services job runId path)) Rebased := by
  have hrun : Yields (runRebaseAndPush services job runId path) fun _ es => Rebased es :=
    fun s => emits_runRebaseAndPush path s
  unfold handled
  refine Yields.emits (Q := fun _ es => Rebased es) ?_ fun _ _ h => h
  refine yields_rescue hrun (fun e block h => yields_handler id h) (fun _ _ h => h) (fun _ _ _ h => h) ?_
  rintro e xs outcome ys hx ⟨hending, -⟩
  exact hending.rebased hx

theorem emits_removeWorktree (path : Text) : Emits (removeWorktree services path) fun es => es = [] := by
  unfold removeWorktree
  exact emits_trying (emits_act rfl)

/-! ## The whole run -/

theorem Searched.accounted {outcome : Except PyException α} (h : Searched outcome es) : Accounted es where
  failed _ := h.not_invoked
  recorded hrecorded := absurd hrecorded.taken h.not_taken
  taken _ htaken := absurd htaken h.not_taken

theorem Rebased.accounted (h : Rebased es) : Accounted es where
  failed hfailed := absurd hfailed h.2
  recorded _ _ := h.1
  taken hfailed := absurd hfailed h.2

theorem Resolved.accounted {outcome : Except PyException Resolution} (h : Resolved outcome es) :
    Accounted es := by
  rcases h with hsearched | ⟨hfailed, hnot, htaken, -⟩
  · exact hsearched.accounted
  · exact ⟨fun _ => hnot, fun _ hnone => absurd hfailed hnone, fun _ => htaken⟩

theorem accounted_nil : Accounted [] where
  failed h := nomatch h
  recorded h := nomatch h
  taken h := nomatch h

theorem emits_beginRun : Emits (beginRun services job) fun es => es = [] := by
  have hreads : Emits (alreadyAttempted services job) fun es => es = [] :=
    emits_bind (Q := fun es => es = []) (R := fun es => es = []) (emits_act rfl) (fun _ => emits_pure rfl)
      (fun _ h => h) (by rintro _ _ rfl rfl; rfl)
  unfold beginRun
  refine Yields.emits (Q := fun _ es => es = []) ?_ fun _ _ h => h
  refine yields_rescue (Q := fun _ es => es = []) (R := fun _ _ es => es = []) ?_ ?_ (fun _ _ h => h)
    (fun _ _ _ h => h) (by rintro _ _ _ _ rfl rfl; rfl)
  · refine fun s => emits_bind (Q := fun es => es = []) (R := fun es => es = []) hreads (fun attempted => ?_)
      (fun _ h => h) (by rintro _ _ rfl rfl; rfl) s
    cases attempted with
    | true => exact emits_pure rfl
    | false =>
      exact emits_bind (Q := fun es => es = []) (R := fun es => es = []) (emits_act rfl)
        (fun _ => emits_pure rfl) (fun _ h => h) (by rintro _ _ rfl rfl; rfl)
  · intro e block h
    split_ifs at h
    cases h
    exact yields_pure rfl

/-- What the part after the search for a worktree leaves: nothing when there is none. -/
def RebasedIn : Resolution → List Event → Prop
  | .finished _, ys => ys = []
  | .worktree _ _, ys => Rebased ys

theorem emits_runLockedRebase : Emits (runLockedRebase services job) Accounted := by
  unfold runLockedRebase
  refine emits_bind emits_beginRun (R := Accounted) (fun begun => ?_) ?_ ?_
  · cases begun with
    | inl result => exact emits_pure accounted_nil
    | inr runId =>
      refine Yields.emits (Q := fun _ es => Accounted es) ?_ fun _ _ h => h
      refine yields_bind yields_resolved
        (R := fun resolution _ ys => RebasedIn resolution ys) (fun resolution => ?_) (fun e xs h => h.accounted) ?_
      · cases resolution with
        | finished result => exact yields_pure rfl
        | worktree path reused =>
          refine fun s => emits_ensuring (emits_handled_runRebaseAndPush path) ?_ s
          cases reused with
          | true => exact emits_pure rfl
          | false => exact emits_removeWorktree path
      · intro resolution xs outcome ys hx hy
        cases resolution with
        | finished result =>
          cases hy
          exact hx.accounted
        | worktree path reused =>
          -- The rebase follows a search that has come to a worktree.
          rcases hx with hsearched | ⟨-, -, -, hne⟩
          · have hfound : ¬SetupFailed xs := by
              intro hfailed
              obtain ⟨e, he⟩ := hsearched.failed.mp hfailed
              cases he
            refine Rebased.accounted ⟨invoked_append.mpr (.inl hy.1), fun hfailed => ?_⟩
            exact (setupFailed_append.mp hfailed).elim hy.2 hfound
          · exact absurd rfl (hne path reused)
  · rintro xs rfl
    exact accounted_nil
  · rintro xs ys rfl hy
    rw [List.append_nil]
    exact hy

theorem emits_findJob (issueNumber : Int) : Emits (findJob services issueNumber) fun es => es = [] := by
  unfold findJob
  refine Yields.emits (Q := fun _ es => es = []) ?_ fun _ _ h => h
  refine yields_rescue (Q := fun _ es => es = []) (R := fun _ _ es => es = []) ?_ ?_ (fun _ _ h => h)
    (fun _ _ _ h => h) (by rintro _ _ _ _ rfl rfl; rfl)
  · refine fun s => emits_bind (Q := fun es => es = []) (R := fun es => es = []) (emits_act rfl)
      (fun cfg => ?_) (fun _ h => h) (by rintro _ _ rfl rfl; rfl) s
    split_ifs
    · exact emits_pure rfl
    · refine emits_bind (Q := fun es => es = []) (R := fun es => es = []) (emits_act rfl) (fun info => ?_)
        (fun _ h => h) (by rintro _ _ rfl rfl; rfl)
      cases info with
      | none => exact emits_pure rfl
      | some info => exact emits_pure rfl
  · intro e block h
    split_ifs at h
    cases h
    exact yields_pure rfl

theorem emits_attemptAutoRebase (issueNumber : Int) :
    Emits (attemptAutoRebase services issueNumber) Accounted := by
  unfold attemptAutoRebase
  refine emits_bind (emits_findJob issueNumber) (R := Accounted) (fun found => ?_) ?_ ?_
  · cases found with
    | inl result => exact emits_pure accounted_nil
    | inr job => exact emits_runLockedRebase
  · rintro xs rfl
    exact accounted_nil
  · rintro xs ys rfl hy
    rw [List.append_nil]
    exact hy

end

/-- A pull request without a worktree, where the making of one fails. -/
def noWorktree : Services Unit where
  loadConfig w := (.ok { githubRepo := "o/r".toList }, w)
  getPrInfo _ _ _ w :=
    (.ok (some { number := 7, branch := "b".toList, headSha := "abc".toList, baseBranch := none }), w)
  rebaseRuns _ w := (.ok [], w)
  createRebaseRun _ _ _ w := (.ok 1, w)
  run _ w := (.ok { success := true }, w)
  findWorktreeByBranch _ w := (.ok none, w)
  isMainCheckout _ w := (.ok false, w)
  createWorktree _ _ _ _ w := (.error .runtimeError, w)
  checkWorktreeActiveAgent _ w := (.ok none, w)
  cleanupWorktree _ w := (.ok (), w)
  rebaseWithConflictResolution _ _ _ w := (.error .runtimeError, w)
  updateRunCost _ _ w := (.ok (), w)
  finalizeRun _ w := ({ written := true }, w)
  runPrePushHook _ w := (.ok { passed := true }, w)
  writeManualHandoff _ w := (.ok (), w)
  errorText _ := []

end Supervisor.AutoRebase

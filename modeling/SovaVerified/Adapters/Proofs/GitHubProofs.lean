import Mathlib.Data.List.Induction
import SovaVerified.Adapters.GitHub
import SovaVerified.Runs.Runs

/-!
# Which states can be read back

A transition to a state with a label replaces the state labels by that one; a transition to the backlog
leaves them alone. So the labels after any sequence of transitions are decided by the last one that is not
to the backlog. The reads know all labels but the one of `onQa`.
-/

namespace Adapters

/-- A call of `transition_state` with the answers it gets. -/
structure Transition where
  state : TaskState
  answers : TransitionAnswers := {}

/-- A call that succeeds is a step of the issue. -/
def Transition.step (taskId : Text) (issue : Issue) (t : Transition) : Option Issue :=
  (transitionState taskId t.state t.answers issue).toOption

def otherLabels (labels : List Text) : List Text := labels.filter fun label => !isStateLabel label

/-- The labels that a transition leaves. -/
def labelsWith (labels : List Text) (st : TaskState) : List Text :=
  match stateLabel st with
  | some label => otherLabels labels ++ [label]
  | none => labels

theorem labelsWith_some (labels : List Text) {st : TaskState} {label : Text}
    (h : stateLabel st = some label) : labelsWith labels st = otherLabels labels ++ [label] := by
  simp [labelsWith, h]

theorem labelsWith_none (labels : List Text) {st : TaskState} (h : stateLabel st = none) :
    labelsWith labels st = labels := by
  simp [labelsWith, h]

/-! ## What one transition writes -/

theorem patchLabels_ok {taskId retryLabel : Text} {labels : List Text} {answers : TransitionAnswers}
    {issue issue' : Issue} (h : patchLabels taskId labels retryLabel answers issue = .ok issue') :
    issue' = { issue with labels := labels } := by
  unfold patchLabels at h
  split at h
  · exact (Except.ok.inj h).symm
  · dsimp only at h
    split at h
    · split at h
      · cases h
      · exact (Except.ok.inj h).symm
      · cases h
    · cases h

theorem transitionState_ok {taskId : Text} {st : TaskState} {answers : TransitionAnswers}
    {issue issue' : Issue} (hst : st ≠ .done) (h : transitionState taskId st answers issue = .ok issue') :
    issue' = { issue with labels := labelsWith issue.labels st } := by
  unfold transitionState at h
  rw [if_neg hst] at h
  cases hlabel : stateLabel st with
  | none =>
    rw [hlabel] at h
    rw [labelsWith_none _ hlabel]
    exact (Except.ok.inj h).symm
  | some label =>
    rw [hlabel] at h
    rw [labelsWith_some _ hlabel]
    dsimp only [setStateLabel] at h
    split at h
    · cases h
    · cases h
    · exact patchLabels_ok h

theorem step_spec {taskId : Text} {issue issue' : Issue} {t : Transition} (hst : t.state ≠ .done)
    (h : t.step taskId issue = some issue') :
    issue' = { issue with labels := labelsWith issue.labels t.state } := by
  unfold Transition.step at h
  cases hcall : transitionState taskId t.state t.answers issue with
  | error e =>
    rw [hcall] at h
    cases h
  | ok out =>
    rw [hcall] at h
    have hout : out = issue' := Option.some.inj h
    exact transitionState_ok hst (hout ▸ hcall)

/-! ## What a sequence of transitions leaves -/

/-- The issue after a sequence of transitions is the one with the labels of the transitions in turn. -/
theorem exec_spec {taskId : Text} {issue issue' : Issue} {ts : List Transition}
    (hdone : ∀ t ∈ ts, t.state ≠ .done) (h : Runs.exec (Transition.step taskId) issue ts = some issue') :
    issue' = { issue with labels := (ts.map Transition.state).foldl labelsWith issue.labels } := by
  induction ts generalizing issue with
  | nil => exact (Option.some.inj h).symm
  | cons t ts ih =>
    obtain ⟨next, hnext, hrest⟩ := Runs.exec_cons h
    have hstep := step_spec (hdone t List.mem_cons_self) hnext
    rw [ih (fun t' ht' => hdone t' (List.mem_cons_of_mem _ ht')) hrest, hstep]
    rfl

theorem isStateLabel_of_stateLabel {st : TaskState} {label : Text} (h : stateLabel st = some label) :
    isStateLabel label = true := by
  have hmem : st ∈ labelledStates := by
    cases st <;> first | decide | cases h
  exact List.any_eq_true.mpr ⟨st, hmem, by simp [h]⟩

theorem otherLabels_labelsWith (labels : List Text) (st : TaskState) :
    otherLabels (labelsWith labels st) = otherLabels labels := by
  cases hlabel : stateLabel st with
  | none => rw [labelsWith_none _ hlabel]
  | some label =>
    have hstate := isStateLabel_of_stateLabel hlabel
    rw [labelsWith_some _ hlabel]
    simp [otherLabels, List.filter_append, List.filter_filter, hstate]

theorem otherLabels_foldl (sts : List TaskState) (labels : List Text) :
    otherLabels (sts.foldl labelsWith labels) = otherLabels labels := by
  induction sts generalizing labels with
  | nil => rfl
  | cons st sts ih => rw [List.foldl_cons, ih, otherLabels_labelsWith]

/-- The last transition that wrote a label. -/
def lastLabelled (sts : List TaskState) : Option TaskState :=
  (sts.filter fun st => (stateLabel st).isSome).getLast?

theorem lastLabelled_concat (sts : List TaskState) (st : TaskState) :
    lastLabelled (sts ++ [st]) = if (stateLabel st).isSome then some st else lastLabelled sts := by
  unfold lastLabelled
  rw [List.filter_append]
  by_cases h : (stateLabel st).isSome = true
  · simp [h]
  · simp [h]

/-- The last transition that wrote a label decides the labels. -/
theorem foldl_labelsWith (sts : List TaskState) (labels : List Text) :
    sts.foldl labelsWith labels = ((lastLabelled sts).map (labelsWith labels)).getD labels := by
  induction sts using List.reverseRecOn with
  | nil => rfl
  | append_singleton sts st ih =>
    rw [List.foldl_append, List.foldl_cons, List.foldl_nil, lastLabelled_concat]
    cases hlabel : stateLabel st with
    | none =>
      rw [labelsWith_none _ hlabel, ih]
      rfl
    | some label =>
      show labelsWith (sts.foldl labelsWith labels) st = labelsWith labels st
      rw [labelsWith_some _ hlabel, labelsWith_some _ hlabel, otherLabels_foldl]

/-! ## What is read back -/

/-- No label that the reads know. -/
def NoPriorityLabel (labels : List Text) : Prop :=
  ∀ st ∈ priorityStates, ∀ label, stateLabel st = some label → label ∉ labels

theorem priorityStates_labelled : ∀ st ∈ priorityStates, (stateLabel st).isSome = true := by
  decide

theorem stateOfLabels_eq_backlog_iff (labels : List Text) :
    stateOfLabels labels = .backlog ↔ NoPriorityLabel labels := by
  unfold stateOfLabels NoPriorityLabel
  cases hfind : priorityStates.find? fun st => (stateLabel st).any labels.contains with
  | none =>
    refine iff_of_true rfl fun st hst label hlabel => ?_
    have := List.find?_eq_none.mp hfind st hst
    simpa [hlabel] using this
  | some st =>
    have hmem := List.mem_of_find?_eq_some hfind
    have hany := List.find?_some hfind
    have hne : st ≠ .backlog := by
      rintro rfl
      revert hmem
      decide
    refine iff_of_false hne fun hnone => ?_
    obtain ⟨label, hlabel⟩ := Option.isSome_iff_exists.mp (priorityStates_labelled st hmem)
    rw [hlabel] at hany
    exact hnone st hmem label hlabel (by simpa using hany)

theorem stateLabel_injective {st st' : TaskState} {label : Text} (h : stateLabel st = some label)
    (h' : stateLabel st' = some label) : st = st' := by
  have hsome : (stateLabel st).isSome = true := by simp [h]
  rw [← h'] at h
  revert hsome h
  cases st <;> cases st' <;> decide

theorem mem_labelsWith {labels : List Text} {st st' : TaskState} {label label' : Text}
    (h : stateLabel st = some label) (h' : stateLabel st' = some label') :
    label' ∈ labelsWith labels st ↔ st' = st := by
  rw [labelsWith_some _ h]
  unfold otherLabels
  rw [List.mem_append, List.mem_filter, List.mem_singleton]
  constructor
  · rintro (⟨-, hother⟩ | rfl)
    · rw [isStateLabel_of_stateLabel h'] at hother
      cases hother
    · exact stateLabel_injective h' h
  · rintro rfl
    exact .inr (Option.some.inj (h'.symm.trans h))

/-- A state with a label that the reads know is read back, another one is read as the backlog. -/
theorem stateOfLabels_labelsWith (labels : List Text) {st : TaskState} {label : Text}
    (h : stateLabel st = some label) :
    stateOfLabels (labelsWith labels st) = if st ∈ priorityStates then st else .backlog := by
  have hfound : ∀ st' ∈ priorityStates,
      ((stateLabel st').any (labelsWith labels st).contains = true ↔ st' = st) := by
    intro st' hst'
    obtain ⟨label', h'⟩ := Option.isSome_iff_exists.mp (priorityStates_labelled st' hst')
    simpa [h'] using mem_labelsWith h h'
  by_cases hmem : st ∈ priorityStates
  · rw [if_pos hmem]
    unfold stateOfLabels
    cases hfind : priorityStates.find? fun st' => (stateLabel st').any (labelsWith labels st).contains with
    | none => exact absurd ((hfound st hmem).mpr rfl) (List.find?_eq_none.mp hfind st hmem)
    | some st' =>
      have hany := List.find?_some hfind
      exact (hfound st' (List.mem_of_find?_eq_some hfind)).mp hany
  · rw [if_neg hmem, stateOfLabels_eq_backlog_iff]
    intro st' hst' label' h' hlabel'
    exact hmem ((mem_labelsWith h h').mp hlabel' ▸ hst')

/-- Before a transition to the backlog, the issue carries no label that the reads know: the last transition
with a label was to `onQa`, or there was none and the issue had no such label. -/
def Unmarked (labels : List Text) (before : List TaskState) : Prop :=
  match lastLabelled before with
  | some st => st = .onQa
  | none => NoPriorityLabel labels

theorem stateOfLabels_foldl_backlog_iff (before : List TaskState) (labels : List Text) :
    stateOfLabels (before.foldl labelsWith labels) = .backlog ↔ Unmarked labels before := by
  rw [foldl_labelsWith]
  unfold Unmarked
  cases hlast : lastLabelled before with
  | none => exact stateOfLabels_eq_backlog_iff labels
  | some st =>
    have hsome : (stateLabel st).isSome = true := by
      have hmem := List.mem_of_getLast? hlast
      exact (List.mem_filter.mp hmem).2
    obtain ⟨label, hlabel⟩ := Option.isSome_iff_exists.mp hsome
    show stateOfLabels (labelsWith labels st) = .backlog ↔ st = .onQa
    rw [stateOfLabels_labelsWith labels hlabel]
    revert hsome
    cases st <;> decide

/-- What is read after a transition, by the labels before it. -/
theorem stateOfLabels_last_iff (labels : List Text) (before : List TaskState) {st : TaskState}
    (hst : st ≠ .done) :
    stateOfLabels ((before ++ [st]).foldl labelsWith labels) = st ↔
      st ≠ .onQa ∧ (st = .backlog → Unmarked labels before) := by
  rw [List.foldl_append, List.foldl_cons, List.foldl_nil]
  cases hlabel : stateLabel st with
  | none =>
    have hbacklog : st = .backlog := by
      revert hlabel hst
      cases st <;> decide
    rw [labelsWith_none _ hlabel, hbacklog, stateOfLabels_foldl_backlog_iff]
    exact ⟨fun h => ⟨by decide, fun _ => h⟩, fun h => h.2 rfl⟩
  | some label =>
    have hne : st ≠ .backlog := by
      rintro rfl
      cases hlabel
    rw [stateOfLabels_labelsWith _ hlabel]
    constructor
    · intro h
      refine ⟨?_, fun hb => absurd hb hne⟩
      rintro rfl
      cases h
    · rintro ⟨hqa, -⟩
      revert hlabel hst hne hqa
      cases st <;> simp [priorityStates, stateLabel]

/-- After a sequence of transitions of an open issue, both reads report the last state and the other labels
are as before, exactly when the last state is not `onQa` and a last transition to the backlog met no label
that the reads know. -/
theorem transitions_read_back_iff (taskId repo : Text) (ts : List Transition) (last : Transition)
    {issue issue' : Issue} (hopen : issue.isClosed = false) (hdone : ∀ t ∈ ts ++ [last], t.state ≠ .done)
    (hrun : Runs.exec (Transition.step taskId) issue (ts ++ [last]) = some issue') :
    (getState taskId .answered issue' = .ok last.state ∧
        (getTask taskId repo .answered issue').map Task.state = .ok last.state ∧
        otherLabels issue'.labels = otherLabels issue.labels) ↔
      last.state ≠ .onQa ∧ (last.state = .backlog → Unmarked issue.labels (ts.map Transition.state)) := by
  have hissue := exec_spec hdone hrun
  have hlast : last.state ≠ .done := hdone last (by simp)
  have hstate : issue'.state = stateOfLabels
      ((ts.map Transition.state ++ [last.state]).foldl labelsWith issue.labels) := by
    rw [hissue]
    unfold Issue.state
    rw [hopen, List.map_append]
    rfl
  have hother : otherLabels issue'.labels = otherLabels issue.labels := by
    rw [hissue]
    exact otherLabels_foldl _ _
  rw [← stateOfLabels_last_iff issue.labels (ts.map Transition.state) hlast, ← hstate]
  constructor
  · rintro ⟨hget, -, -⟩
    exact Except.ok.inj hget
  · intro h
    refine ⟨congrArg Except.ok h, congrArg Except.ok h, hother⟩

/-- A triaged issue is put in progress and then in review, for which the label has to be made first. -/
theorem transitions_read_back_in_review :
    let issue : Issue := { number := 7, labels := ["bug".toList, "agent:triaged".toList] }
    let review : Transition := { state := .inReview, answers :=
      { patch := .failed "could not add label: 'agent:in-review' not found".toList } }
    let issue' : Issue := { number := 7, labels := ["bug".toList, "agent:in-review".toList] }
    Runs.exec (Transition.step "7".toList) issue ([{ state := .inProgress }] ++ [review]) = some issue' ∧
      getState "7".toList .answered issue' = .ok .inReview ∧
      (getTask "7".toList "o/r".toList .answered issue').map Task.state = .ok .inReview ∧
      otherLabels issue'.labels = otherLabels issue.labels := by
  intro issue review issue'
  have hopen : issue.isClosed = false := rfl
  have hrun : Runs.exec (Transition.step "7".toList) issue ([{ state := .inProgress }] ++ [review]) =
      some issue' := rfl
  exact ⟨hrun, (transitions_read_back_iff "7".toList "o/r".toList [{ state := .inProgress }] review
    hopen (by decide) hrun).mpr ⟨by decide, fun h => nomatch h⟩⟩

/-- A merged issue is handed to QA, and both reads call it backlog. -/
theorem on_qa_reads_as_backlog :
    let issue : Issue := { number := 7, labels := ["bug".toList, "agent:in-review".toList] }
    let issue' : Issue := { number := 7, labels := ["bug".toList, "agent:on-qa".toList] }
    Runs.exec (Transition.step "7".toList) issue [{ state := .onQa }] = some issue' ∧
      getState "7".toList .answered issue' = .ok .backlog ∧
      (getTask "7".toList "o/r".toList .answered issue').map Task.state = .ok .backlog := by
  intro issue issue'
  exact ⟨rfl, rfl, rfl⟩

end Adapters

/-!
# Entries of a list of reviews

What a review looks like, and on which entries the loop raises.
-/

namespace Adapters

open Json

variable {r : Json} {x : PRReview}

/-- A review that has been submitted. Its body may be missing. -/
structure IsReview (r : Json) (x : PRReview) : Prop where
  reviewer : (r.item "user".toList .null).item "login".toList .null = x.reviewer ∧
    ∃ t, t ≠ [] ∧ x.reviewer = .str t
  state : r.item "state".toList .null = x.state ∧ ∃ t, t ≠ [] ∧ x.state = .str t
  submittedAt : r.item "submitted_at".toList .null = x.submittedAt ∧ ∃ t, t ≠ [] ∧ x.submittedAt = .str t
  body : ∃ t, x.body = .str t ∧
    (r.item "body".toList .null = .str t ∨ r.item "body".toList .null = .null ∧ t = [])
  isBot : x.isBot = Json.eq ((r.item "user".toList .null).item "type".toList (.str [])) (.str "Bot".toList)

/-- An entry on which nothing raises: what is taken for an object or a text is one. -/
def IsReadable (r : Json) : Prop :=
  r.IsObject → (userOf r).IsObject ∧
    (truthy ((userOf r).item "login".toList (.str [])) = true → truthy (stateOf r) = true →
      truthy (submittedAtOf r) = true → (bodyOf r).IsText)

theorem sanitizeExternalInput_str (t : Text) : sanitizeExternalInput (.str t) = .ok (.str t) := by
  cases t <;> rfl

theorem prReview_eq (hobject : r.IsObject) (huser : (userOf r).IsObject) :
    prReview r =
      if truthy ((userOf r).item "login".toList (.str [])) = true ∧ truthy (stateOf r) = true ∧
          truthy (submittedAtOf r) = true then
        (sanitizeExternalInput (bodyOf r)).map fun body => some
          { reviewer := (userOf r).item "login".toList (.str []), state := stateOf r, body,
            submittedAt := submittedAtOf r,
            isBot := Json.eq ((userOf r).item "type".toList (.str [])) (.str "Bot".toList) }
      else .ok none := by
  obtain ⟨members, rfl⟩ := hobject
  unfold prReview
  dsimp only
  rw [getItem_of_isObject huser]
  show (if _ then _ else _) = _
  split_ifs
  · rw [getItem_of_isObject huser]
    cases sanitizeExternalInput (bodyOf (.obj members)) <;> rfl
  · rfl

theorem bodyOf_eq {t : Text}
    (h : r.item "body".toList .null = .str t ∨ r.item "body".toList .null = .null ∧ t = []) :
    bodyOf r = .str t := by
  unfold bodyOf
  dsimp only
  rcases h with hbody | ⟨hbody, rfl⟩
  · rw [(item_eq (.str []) hbody nofun).2]
    cases t <;> rfl
  · -- A missing body and one that is null are both empty.
    rcases item_of_null (.str []) hbody with hempty | hnull
    · rw [hempty]
      rfl
    · rw [hnull]
      rfl

theorem prReview_of_isReview (h : IsReview r x) : prReview r = .ok (some x) := by
  obtain ⟨hreviewer, login, hloginNe, hlogin⟩ := h.reviewer
  obtain ⟨hstate, state, hstateNe, hstateText⟩ := h.state
  obtain ⟨hdate, date, hdateNe, hdateText⟩ := h.submittedAt
  obtain ⟨body, hbodyText, hbody⟩ := h.body
  rw [hlogin] at hreviewer
  rw [hstateText] at hstate
  rw [hdateText] at hdate
  obtain ⟨⟨members, huser⟩, -⟩ := item_eq .null hreviewer nofun
  obtain ⟨hobject, huser'⟩ := item_eq (.obj []) huser nofun
  have hsame : r.item "user".toList .null = userOf r := huser.trans huser'.symm
  have hisBot := h.isBot
  rw [hsame] at hreviewer hisBot
  obtain ⟨-, hreviewer'⟩ := item_eq (.str []) hreviewer nofun
  have hstate' : stateOf r = .str state := (item_eq (.str []) hstate nofun).2
  have hdate' : submittedAtOf r = .str date := (item_eq (.str []) hdate nofun).2
  rw [prReview_eq hobject ⟨members, huser'⟩, hreviewer', hstate', hdate', bodyOf_eq hbody,
    if_pos ⟨truthy_str hloginNe, truthy_str hstateNe, truthy_str hdateNe⟩, sanitizeExternalInput_str, ← hisBot,
    ← hlogin, ← hstateText, ← hdateText, ← hbodyText]
  rfl

theorem returns_sanitizeExternalInput_iff {v : Json} :
    Exceptions.Returns (sanitizeExternalInput v) ↔ (truthy v = true → v.IsText) := by
  unfold sanitizeExternalInput
  split_ifs with htruthy
  · rw [Exceptions.returns_map_iff]
    constructor
    · rintro ⟨t, ht⟩ -
      exact ⟨t, asText_eq_ok_iff.mp ht⟩
    · intro h
      obtain ⟨t, ht⟩ := h htruthy
      exact ⟨t, asText_eq_ok_iff.mpr ht⟩
  · exact iff_of_true ⟨v, rfl⟩ fun h => absurd h htruthy

theorem bodyOf_isText_iff : (truthy (bodyOf r) = true → (bodyOf r).IsText) ↔ (bodyOf r).IsText := by
  constructor
  · intro h
    by_cases htruthy : truthy (r.item "body".toList (.str [])) = true
    · unfold bodyOf at h ⊢
      dsimp only at h ⊢
      rw [if_pos htruthy] at h ⊢
      exact h htruthy
    · exact ⟨[], if_neg htruthy⟩
  · exact fun h _ => h

theorem returns_prReview_iff : Exceptions.Returns (prReview r) ↔ IsReadable r := by
  unfold IsReadable
  by_cases hobject : r.IsObject
  · by_cases huser : (userOf r).IsObject
    · rw [prReview_eq hobject huser]
      split_ifs with hcomplete
      · rw [Exceptions.returns_map_iff, returns_sanitizeExternalInput_iff, bodyOf_isText_iff]
        obtain ⟨hlogin, hstate, hdate⟩ := hcomplete
        exact ⟨fun h _ => ⟨huser, fun _ _ _ => h⟩, fun h => (h hobject).2 hlogin hstate hdate⟩
      · refine iff_of_true ⟨none, rfl⟩ fun _ => ⟨huser, fun hlogin hstate hdate => ?_⟩
        exact absurd ⟨hlogin, hstate, hdate⟩ hcomplete
    · refine iff_of_false ?_ fun h => huser (h hobject).1
      obtain ⟨members, rfl⟩ := hobject
      rintro h
      obtain ⟨login, hlogin, -⟩ := Exceptions.returns_bind_iff.mp h
      exact huser (getItem_eq_ok_iff.mp hlogin).1
  · refine iff_of_true ?_ fun h => absurd h hobject
    cases r with
    | obj members => exact absurd ⟨members, rfl⟩ hobject
    | _ => exact ⟨none, rfl⟩

end Adapters

import Mathlib.Tactic.Linarith
import SovaVerified.Core.Validate

/-!
# What a passed validation rests on

A validation that succeeds has found no hook, or has seen the hook pass on what is on the branch, or has refused
one more fix for want of resources. The hook is run once more than fixes are allowed at most, and the cost that
is reported is that of the fixes.
-/

namespace Core.Validate

open Exceptions Outside
open Utils.Shell (ShellResult)

variable {ω α β : Type} {svc : Services ω} {cfg : Config} {es xs ys behind : List Event}

/-! ## Records of a validation -/

def isHook : Event → Bool
  | .hook _ => true
  | _ => false

/-- What a fix cost that was returned. -/
def costOf : Event → ℚ
  | .called (.ok result) => result.costUsd
  | _ => 0

/-- A check after a failed fold saw a marker commit. -/
def seesMarker : Event → Bool
  | .part .checking (.checked (some true)) => true
  | _ => false

/-- No hook, no cost and no marker. -/
def Idle (es : List Event) : Prop := ∀ x ∈ es, isHook x = false ∧ costOf x = 0 ∧ seesMarker x = false

theorem idle_nil : Idle [] := fun x hx => by cases hx

theorem Idle.append (hx : Idle xs) (hy : Idle ys) : Idle (ys ++ xs) := by
  intro x hmem
  rcases List.mem_append.mp hmem with hmem | hmem
  · exact hy x hmem
  · exact hx x hmem

theorem idle_singleton {x : Event} (hhook : isHook x = false) (hcost : costOf x = 0)
    (hmarker : seesMarker x = false) : Idle [x] := by
  intro y hy
  rw [List.mem_singleton.mp hy]
  exact ⟨hhook, hcost, hmarker⟩

theorem Idle.countP (h : Idle es) : es.countP isHook = 0 :=
  List.countP_eq_zero.mpr fun x hx => by rw [(h x hx).1]; exact Bool.false_ne_true

theorem Idle.cost (h : Idle es) : (es.map costOf).sum = 0 := by
  refine List.sum_eq_zero fun c hc => ?_
  obtain ⟨x, hx, rfl⟩ := List.mem_map.mp hc
  exact (h x hx).2.1

/-- A program that only looks and mends. -/
abbrev Idles (p : Run ω α) : Prop := Emits p Idle

theorem idles_pure (a : α) : Idles (pure a : Run ω α) := emits_pure idle_nil

theorem idles_run (command : Command) : Idles (run svc command) :=
  emits_perform fun _ => idle_singleton rfl rfl rfl

theorem Idles.bind {p : Run ω α} {f : α → Run ω β} (hp : Idles p) (hf : ∀ a, Idles (f a)) : Idles (p >>= f) :=
  emits_bind hp hf (fun _ h => h) fun _ _ hx hy => hx.append hy

/-- What a helper of the fold does is idle, unless it checks for markers. -/
theorem idles_labelled {part : Part} (p : CommitFold.Fold ω α) (hpart : part ≠ .checking) :
    Idles (labelled (.part part) p) := by
  refine emits_labelled.mono ?_
  rintro es ⟨inner, rfl⟩ x hx
  obtain ⟨e, -, rfl⟩ := List.mem_map.mp hx
  cases part with
  | unwinding => exact ⟨rfl, rfl, rfl⟩
  | folding => exact ⟨rfl, rfl, rfl⟩
  | checking => exact absurd rfl hpart

/-! ## The steps that only look, or mend -/

theorem idles_findPrePushHookIn (hooksDir : Text) : Idles (findPrePushHookIn svc hooksDir) :=
  (idles_run _).bind fun _ => idles_pure _

theorem idles_findPrePushHook : Idles (findPrePushHook svc) := by
  refine (idles_run _).bind fun configured => ?_
  split_ifs
  · exact idles_findPrePushHookIn _
  · refine (idles_run _).bind fun toplevel => ?_
    split_ifs
    · refine Idles.bind (emits_perform fun _ => idle_singleton rfl rfl rfl) fun there => ?_
      split_ifs
      · exact (idles_run _).bind fun _ => idles_findPrePushHookIn _
      · refine (idles_run _).bind fun gitDir => ?_
        split_ifs
        · exact idles_findPrePushHookIn _
        · exact idles_pure _
    · exact idles_pure _

theorem idles_buildPrePushStdin (branch : Text) : Idles (buildPrePushStdin svc branch) := by
  have hbranch : Idles (branchOr svc branch) := by
    unfold branchOr
    split_ifs
    · exact idles_pure _
    · refine (idles_run _).bind fun result => ?_
      split_ifs
      · exact idles_pure _
      · exact emits_raise idle_nil
  refine hbranch.bind fun branch => ?_
  refine (idles_run _).bind fun head => ?_
  split_ifs
  · exact (idles_run _).bind fun _ => idles_pure _
  · exact emits_raise idle_nil

theorem idles_unwindOrdinaryCommits (preDispatchHead : ShellResult) :
    Idles (unwindOrdinaryCommits svc cfg preDispatchHead) := by
  unfold unwindOrdinaryCommits
  split_ifs
  · exact idles_pure _
  · refine (idles_run _).bind fun postDispatchHead => ?_
    split_ifs
    · exact idles_pure _
    · refine (idles_run _).bind fun ancestry => ?_
      split_ifs
      · refine (idles_run _).bind fun subjects => ?_
        split_ifs
        · exact idles_pure _
        · exact (idles_run _).bind fun _ => idles_pure _
      · refine (idles_labelled _ (by decide)).bind fun baseRef => ?_
        cases baseRef with
        | none => exact idles_pure _
        | some baseRef => exact (idles_labelled _ (by decide)).bind fun _ => idles_pure _

/-! ## What the checks say -/

/-- No check for markers is on record. -/
def Unchecked (es : List CommitFold.Event) : Prop := ∀ pending, CommitFold.Event.checked pending ∉ es

theorem unchecked_run (services : CommitFold.Services ω) (command : CommitFold.GitCommand) :
    Emits (CommitFold.run services command) Unchecked := by
  refine emits_perform fun answer pending hmem => ?_
  cases List.mem_singleton.mp hmem

theorem unchecked_bind {p : CommitFold.Fold ω α} {f : α → CommitFold.Fold ω β} (hp : Emits p Unchecked)
    (hf : ∀ a, Emits (f a) Unchecked) : Emits (p >>= f) Unchecked := by
  refine emits_bind hp hf (fun _ h => h) fun xs ys hx hy pending hmem => ?_
  rcases List.mem_append.mp hmem with hmem | hmem
  · exact hy pending hmem
  · exact hx pending hmem

theorem unchecked_pure (a : α) : Emits (pure a : CommitFold.Fold ω α) Unchecked :=
  emits_pure fun _ hmem => by cases hmem

theorem unchecked_firstVerified (services : CommitFold.Services ω) (candidates : List Text) :
    Emits (CommitFold.firstVerified services candidates) Unchecked := by
  induction candidates with
  | nil => exact unchecked_pure none
  | cons candidate candidates ih =>
    refine unchecked_bind (unchecked_run services _) fun result => ?_
    split_ifs
    · exact unchecked_pure _
    · exact ih

theorem unchecked_pendingMarkers (services : CommitFold.Services ω) (baseBranch : Text) :
    Emits (CommitFold.pendingMarkers services baseBranch) Unchecked := by
  refine unchecked_bind (unchecked_firstVerified services _) fun baseRef => ?_
  cases baseRef with
  | none => exact unchecked_pure _
  | some baseRef => exact unchecked_bind (unchecked_run services _) fun _ => unchecked_pure _

/-- A check that is not answered with `true` has seen no marker. -/
theorem yields_hasUnresolvedMarkerCommits (services : CommitFold.Services ω) (baseBranch : Text) :
    Yields (CommitFold.hasUnresolvedMarkerCommits services baseBranch) fun outcome es =>
      outcome = .ok false → CommitFold.Event.checked (some true) ∉ es := by
  have hcheck : Yields (CommitFold.hasPendingAutosquashCommits services baseBranch) fun outcome es =>
      match outcome with
      | .ok pending => ∀ pending', CommitFold.Event.checked pending' ∈ es → pending' = pending
      | .error _ => Unchecked es := by
    have hpending : Yields (CommitFold.pendingMarkers services baseBranch) fun _ es => Unchecked es :=
      unchecked_pendingMarkers services baseBranch
    refine Yields.bind hpending (fun e xs h => h) fun pending xs hxs s => ?_
    refine ⟨[.checked pending], rfl, fun pending' hmem => ?_⟩
    rcases List.mem_cons.mp hmem with heq | hmem
    · cases heq
      rfl
    · exact absurd hmem (hxs pending')
  refine yields_trying hcheck ?_ ?_
  · intro pending es hes hfalse hmem
    have hpending := hes _ hmem
    subst hpending
    cases hfalse
  · intro e es hes _ hmem
    exact hes _ hmem

theorem yields_isStranded (folded : Bool) : Yields (isStranded svc cfg folded) fun outcome es =>
    (∀ x ∈ es, isHook x = false ∧ costOf x = 0) ∧
      (outcome = .ok false → ∀ x ∈ es, seesMarker x = false) := by
  unfold isStranded
  split_ifs
  · exact yields_pure ⟨fun x hx => by (cases hx), fun _ x hx => by cases hx⟩
  · refine (yields_labelled (yields_hasUnresolvedMarkerCommits svc.fold cfg.worktree.baseBranch)).mono ?_
    rintro outcome es ⟨inner, rfl, hinner⟩
    refine ⟨fun x hx => ?_, fun hfalse x hx => ?_⟩
    · obtain ⟨e, -, rfl⟩ := List.mem_map.mp hx
      exact ⟨rfl, rfl⟩
    · obtain ⟨e, he, rfl⟩ := List.mem_map.mp hx
      cases e with
      | ran command answer => rfl
      | located answer => rfl
      | checked pending =>
        cases pending with
        | none => rfl
        | some pending =>
          cases pending with
          | false => rfl
          | true => exact absurd he (hinner hfalse)

/-- A note at the end of an idle program. -/
theorem yields_noted {p : Run ω α} {entry : α → Event} (hp : Idles p)
    (hentry : ∀ a, isHook (entry a) = false ∧ costOf (entry a) = 0 ∧ seesMarker (entry a) = false) :
    Yields (do let a ← p; note (entry a); return a) fun outcome es =>
      Idle es ∧ ∀ a, outcome = .ok a → ∃ rest, es = entry a :: rest := by
  have hyields : Yields p fun _ es => Idle es := hp
  refine Yields.bind hyields (fun e xs h => ⟨h, fun _ hok => by cases hok⟩) fun a xs hxs s => ?_
  refine ⟨[entry a], rfl, ?_, ?_⟩
  · intro x hx
    rcases List.mem_cons.mp hx with rfl | hx
    · exact hentry a
    · exact hxs x hx
  · intro a' ha'
    cases ha'
    exact ⟨xs, rfl⟩

/-- What the fold returned is noted last. -/
theorem yields_foldFix : Yields (foldFix svc cfg) fun outcome es =>
    Idle es ∧ ∀ folded, outcome = .ok folded → ∃ rest, es = .folded folded :: rest :=
  yields_noted (idles_labelled _ (by decide)) fun _ => ⟨rfl, rfl, rfl⟩

theorem yields_worktreeIsDirty : Yields (worktreeIsDirty svc) fun outcome es =>
    Idle es ∧ ∀ isDirty, outcome = .ok isDirty → ∃ rest, es = .dirty isDirty :: rest :=
  yields_noted (emits_trying (idles_run _)) fun _ => ⟨rfl, rfl, rfl⟩

theorem yields_findHook : Yields (findHook svc) fun outcome es =>
    Idle es ∧ ∀ hook, outcome = .ok hook → ∃ rest, es = .found hook :: rest :=
  yields_noted idles_findPrePushHook fun _ => ⟨rfl, rfl, rfl⟩

/-! ## A round -/

/-- Why a validation succeeds whose hook has failed at first. -/
inductive Fixed : List Event → Prop
  /-- The hook passed after its fix was folded. -/
  | folded {result : ShellResult} {rest : List Event} (hpass : result.success = true)
      (hfold : Event.folded true ∈ rest.takeWhile fun x => !isHook x) : Fixed (.hook (.ok result) :: rest)
  /-- The hook passed, and the worktree was not seen dirty after it. -/
  | clean {result : ShellResult} {later rest : List Event} (hpass : result.success = true)
      (hlater : ∀ x ∈ later, isHook x = false) : Fixed (.dirty false :: (later ++ .hook (.ok result) :: rest))
  /-- One more fix was refused. -/
  | refused {fraction : ℚ} {rest : List Event} (hfraction : fraction < budgetStopRetryThreshold) :
      Fixed (.refused fraction :: rest)

/-- The cost that a round comes to. -/
def Round.cost : Round → ℚ
  | .done result => result.costUsd
  | .next p => p.totalFixCost

/-- The round does not end in a failure. -/
def Round.stands : Round → Bool
  | .done result => result.success
  | .next _ => true

/-- What a round adds to a record when the fixes have cost `total` until then. -/
structure Sound (behind : List Event) (hooks : Nat) (total : ℚ) (outcome : Except PyException Round)
    (es : List Event) : Prop where
  hooks : es.countP isHook ≤ hooks
  cost : ∀ round, outcome = .ok round → round.cost = total + (es.map costOf).sum
  unseen : ∀ round, outcome = .ok round → round.stands = true → ∀ x ∈ es, seesMarker x = false
  fixed : ∀ result, outcome = .ok (.done result) → result.success = true → Fixed (es ++ behind)

variable {hooks : Nat} {total : ℚ}

/-- What a program adds before the round goes on. -/
theorem Sound.append {outcome : Except PyException Round} {hooks' : Nat} {added : ℚ}
    (h : Sound (xs ++ behind) hooks' (total + added) outcome ys) (hhooks : hooks' + xs.countP isHook ≤ hooks)
    (hcost : (xs.map costOf).sum = added) (hmarker : ∀ x ∈ xs, seesMarker x = false) :
    Sound behind hooks total outcome (ys ++ xs) where
  hooks := by
    have hys := h.hooks
    rw [List.countP_append]
    omega
  cost round hround := by
    rw [h.cost round hround, List.map_append, List.sum_append, hcost]
    ring
  unseen round hround hstands x hx := by
    rcases List.mem_append.mp hx with hx | hx
    · exact h.unseen round hround hstands x hx
    · exact hmarker x hx
  fixed result hresult hsuccess := by
    rw [List.append_assoc]
    exact h.fixed result hresult hsuccess

/-- Before a round goes on, something is done that costs nothing. -/
theorem Sound.append_free {outcome : Except PyException Round} {hooks' : Nat}
    (h : Sound (xs ++ behind) hooks' total outcome ys) (hhooks : hooks' + xs.countP isHook ≤ hooks)
    (hcost : (xs.map costOf).sum = 0) (hmarker : ∀ x ∈ xs, seesMarker x = false) :
    Sound behind hooks total outcome (ys ++ xs) := by
  have hsame : Sound (xs ++ behind) hooks' (total + 0) outcome ys := by
    rw [add_zero]
    exact h
  exact hsame.append hhooks hcost hmarker

theorem Sound.append_idle {outcome : Except PyException Round} (h : Sound (xs ++ behind) hooks total outcome ys)
    (hidle : Idle xs) : Sound behind hooks total outcome (ys ++ xs) := by
  refine h.append_free ?_ hidle.cost fun x hx => (hidle x hx).2.2
  rw [hidle.countP, Nat.add_zero]

theorem sound_raise {e : PyException} (h : es.countP isHook ≤ hooks) :
    Sound behind hooks total (.error e) es where
  hooks := h
  cost _ hround := by cases hround
  unseen _ hround := by cases hround
  fixed _ hresult := by cases hresult

/-- A failure needs no reason, only the right cost. -/
theorem sound_failure {result : StepResult} (hhooks : es.countP isHook ≤ hooks)
    (hcost : result.costUsd = total + (es.map costOf).sum) (hfail : result.success = false) :
    Sound behind hooks total (.ok (.done result)) es where
  hooks := hhooks
  cost round hround := by
    cases hround
    exact hcost
  unseen round hround hstands := by
    cases hround
    exact absurd (hfail.symm.trans hstands) Bool.false_ne_true
  fixed result' hresult hsuccess := by
    cases hresult
    exact absurd (hfail.symm.trans hsuccess) Bool.false_ne_true

/-- A round that fails with the cost so far. -/
theorem sound_failed {result : StepResult} (hcost : result.costUsd = total) (hfail : result.success = false) :
    Yields (pure (.done result) : Run ω Round) (Sound behind hooks total) := by
  refine yields_pure (sound_failure (Nat.zero_le _) ?_ hfail)
  show result.costUsd = total + 0
  rw [hcost, add_zero]

/-- A round that succeeds with the cost so far. -/
theorem sound_done {result : StepResult} (hcost : result.costUsd = total) (hfixed : Fixed behind) :
    Yields (pure (.done result) : Run ω Round) (Sound behind hooks total) := by
  refine yields_pure ⟨Nat.zero_le _, ?_, ?_, ?_⟩
  · rintro round hround
    cases hround
    show result.costUsd = total + 0
    rw [hcost, add_zero]
  · rintro round - - x hx
    cases hx
  · rintro result' - -
    exact hfixed

theorem sound_next {p : Progress} (hcost : p.totalFixCost = total) :
    Yields (pure (.next p) : Run ω Round) (Sound behind hooks total) := by
  refine yields_pure ⟨Nat.zero_le _, ?_, ?_, ?_⟩
  · rintro round hround
    cases hround
    show p.totalFixCost = total + 0
    rw [hcost, add_zero]
  · rintro round - - x hx
    cases hx
  · rintro result' hresult
    cases hresult

theorem sound_bind {p : Run ω α} {f : α → Run ω Round} (hp : Idles p)
    (hf : ∀ a behind', Yields (f a) (Sound behind' hooks total)) :
    Yields (p >>= f) (Sound behind hooks total) := by
  have hyields : Yields p fun _ es => Idle es := hp
  refine Yields.bind hyields (fun e xs h => sound_raise ?_) fun a xs hxs => ?_
  · rw [h.countP]
    exact Nat.zero_le _
  exact (hf a (xs ++ behind)).mono fun outcome ys hys => hys.append_idle hxs

/-- The round goes on behind the note that an idle program has left. -/
theorem sound_noted {p : Run ω α} {f : α → Run ω Round} {entry : α → Event}
    (hp : Yields p fun outcome es => Idle es ∧ ∀ a, outcome = .ok a → ∃ rest, es = entry a :: rest)
    (hf : ∀ a rest, Idle (entry a :: rest) → Yields (f a) (Sound (entry a :: (rest ++ behind)) hooks total)) :
    Yields (p >>= f) (Sound behind hooks total) := by
  refine Yields.bind hp (fun e xs h => sound_raise ?_) fun a xs hxs => ?_
  · rw [h.1.countP]
    exact Nat.zero_le _
  obtain ⟨hidle, hnote⟩ := hxs
  obtain ⟨rest, rfl⟩ := hnote a rfl
  exact (hf a rest hidle).mono fun outcome ys hys => hys.append_idle hidle

/-! ## The loop -/

/-- The hook is the last thing that its run leaves. -/
theorem yields_runHook (hook : Text) : Yields (runHook svc cfg hook) fun outcome es =>
    es.countP isHook ≤ 1 ∧
      ∀ result, outcome = .ok result → ∃ rest, es = .hook (.ok result) :: rest ∧ Idle rest := by
  have hstdin : Yields (buildPrePushStdin svc cfg.branchName) fun _ es => Idle es :=
    idles_buildPrePushStdin cfg.branchName
  refine Yields.bind hstdin (fun e xs h => ⟨?_, fun _ hok => by cases hok⟩) fun stdin xs hxs => ?_
  · rw [h.countP]
    exact Nat.zero_le _
  refine yields_perform fun answer => ⟨?_, fun result hok => ?_⟩
  · show (Event.hook answer :: xs).countP isHook ≤ 1
    rw [List.countP_cons, hxs.countP]
    exact le_refl 1
  · cases hok
    exact ⟨xs, rfl, hxs⟩

theorem yields_askForFix (call : FixCall) : Yields (askForFix svc call) fun outcome es =>
    ∃ answer, es = [.called answer] ∧ ∀ called, outcome = .ok called → called = answer := by
  have hcall : Yields (perform (svc.dispatchPrompt call) Event.called) fun outcome es =>
      es = [.called outcome] :=
    yields_perform fun answer => rfl
  refine yields_trying hcall ?_ ?_
  · rintro result es rfl
    refine ⟨_, rfl, fun called hcalled => ?_⟩
    cases hcalled
    rfl
  · rintro e es rfl
    refine ⟨_, rfl, fun called hcalled => ?_⟩
    split_ifs at hcalled with hruntime
    · cases hcalled
      rfl
    · cases hcalled

theorem quiet_resourceRemainingFraction (spending : Spending) :
    Quiet (resourceRemainingFraction svc cfg spending) fun _ => True :=
  fun _ => ⟨[], rfl, rfl, _, rfl, trivial⟩

theorem sound_retryHook {hook : Text} {attempt : Nat} {folded : Bool} {p : Progress}
    (hfolded : folded = true → Event.folded true ∈ behind.takeWhile fun x => !isHook x) :
    Yields (retryHook svc cfg hook attempt folded p) (Sound behind 1 p.totalFixCost) := by
  refine Yields.bind (yields_runHook hook) (fun e xs h => sound_raise h.1) fun retry xs hxs => ?_
  obtain ⟨rest, rfl, hidle⟩ := hxs.2 retry rfl
  have hround : ∀ {p' : Run ω Round},
      Yields p' (Sound (.hook (.ok retry) :: (rest ++ behind)) 0 p.totalFixCost) →
      Yields p' fun outcome ys => Sound behind 1 p.totalFixCost outcome (ys ++ .hook (.ok retry) :: rest) := by
    intro p' hp'
    refine hp'.mono fun outcome ys hys => hys.append_free ?_ ?_ ?_
    · rw [List.countP_cons, hidle.countP]
      exact le_refl 1
    · show 0 + (rest.map costOf).sum = 0
      rw [hidle.cost, add_zero]
    · intro x hx
      rcases List.mem_cons.mp hx with rfl | hx
      · rfl
      · exact (hidle x hx).2.2
  refine hround ?_
  split_ifs with hpass htimeout
  · cases folded with
    | true =>
      refine sound_done rfl (.folded hpass ?_)
      rw [List.takeWhile_append_of_pos fun x hx => by rw [(hidle x hx).1]; rfl]
      exact List.mem_append_right _ (hfolded rfl)
    | false =>
      refine sound_noted yields_worktreeIsDirty fun isDirty later hlater => ?_
      cases isDirty with
      | true => exact sound_failed rfl rfl
      | false => exact sound_done rfl (.clean hpass fun x hx => (hlater x (List.mem_cons_of_mem _ hx)).1)
  · exact sound_failed rfl rfl
  · exact sound_next rfl

theorem sound_tryFix {hook : Text} {attempt : Nat} {preDispatchHead : ShellResult} {p : Progress} :
    Yields (tryFix svc cfg hook attempt preDispatchHead p) (Sound behind 1 p.totalFixCost) := by
  refine sound_bind (idles_unwindOrdinaryCommits preDispatchHead) fun _ behind' => ?_
  refine sound_noted yields_foldFix fun folded rest hidle => ?_
  have hcount : ∀ {xs : List Event}, (∀ x ∈ xs, isHook x = false ∧ costOf x = 0) → xs.countP isHook = 0 :=
    fun h => List.countP_eq_zero.mpr fun x hx => by rw [(h x hx).1]; exact Bool.false_ne_true
  refine Yields.bind (yields_isStranded folded)
    (fun e xs h => sound_raise (by rw [hcount h.1]; exact Nat.zero_le _)) fun stranded xs hxs => ?_
  obtain ⟨hfree, hunseen⟩ := hxs
  have hcost : (xs.map costOf).sum = 0 := by
    refine List.sum_eq_zero fun c hc => ?_
    obtain ⟨x, hx, rfl⟩ := List.mem_map.mp hc
    exact (hfree x hx).2
  cases stranded with
  | true =>
    refine yields_pure (sound_failure ?_ ?_ rfl)
    · show xs.countP isHook ≤ 1
      rw [hcount hfree]
      exact Nat.zero_le 1
    · show p.totalFixCost = p.totalFixCost + (xs.map costOf).sum
      rw [hcost, add_zero]
  | false =>
    have hfolded : folded = true →
        Event.folded true ∈ (xs ++ .folded folded :: (rest ++ behind')).takeWhile fun x => !isHook x := by
      rintro rfl
      rw [List.takeWhile_append_of_pos fun x hx => by rw [(hfree x hx).1]; rfl]
      exact List.mem_append_right _ List.mem_cons_self
    refine (sound_retryHook hfolded).mono fun outcome ys hys => hys.append_free ?_ hcost (hunseen rfl)
    rw [hcount hfree]

theorem sound_fixRound {hook : Text} {attempt : Nat} {p : Progress} (behind : List Event) :
    Yields (fixRound svc cfg hook attempt p) (Sound behind 1 p.totalFixCost) := by
  unfold fixRound
  split_ifs
  · exact sound_failed rfl rfl
  · refine Quiet.bind (quiet_resourceRemainingFraction p.spending) fun fraction _ => ?_
    split_ifs with hlow
    · have hnote : Yields (note (.refused fraction) : Run ω Unit) fun _ es => es = [.refused fraction] :=
        fun _ => ⟨[.refused fraction], rfl, rfl⟩
      refine Yields.bind hnote (fun e xs h => sound_raise (by subst h; exact Nat.zero_le _)) fun _ xs hxs => ?_
      subst hxs
      refine Quiet.bind (quiet_resourceRemainingFraction p.spending) fun shown _ => ?_
      have hdone : Yields (pure (.done (retriesStopped svc shown attempt p.totalFixCost)) : Run ω Round)
          (Sound ([.refused fraction] ++ behind) 1 p.totalFixCost) :=
        sound_done rfl (.refused hlow)
      exact hdone.mono fun outcome ys hys => hys.append_idle (idle_singleton rfl rfl rfl)
    · refine sound_bind (idles_run _) fun preDispatchHead behind' => ?_
      refine Yields.bind (yields_askForFix _) ?_ fun called xs hxs => ?_
      · rintro e xs ⟨answer, rfl, -⟩
        exact sound_raise (Nat.zero_le 1)
      obtain ⟨answer, rfl, hanswer⟩ := hxs
      obtain rfl := hanswer called rfl
      cases called with
      | error exc =>
        have hfailed : Yields (pure (.done (llmFailed svc exc attempt p.totalFixCost)) : Run ω Round)
            (Sound ([.called (.error exc)] ++ behind') 1 p.totalFixCost) :=
          sound_failed rfl rfl
        exact hfailed.mono fun outcome ys hys => hys.append_idle (idle_singleton rfl rfl rfl)
      | ok result =>
        refine sound_tryFix.mono fun outcome ys hys => hys.append (le_refl 1) ?_ ?_
        · show result.costUsd + 0 = result.costUsd
          rw [add_zero]
        · intro x hx
          rw [List.mem_singleton.mp hx]
          rfl

/-- A run of the loop, by induction on the attempts that are left: a round that goes on leaves the next one
what the fixes have cost. -/
theorem sound_fixLoop {hook : Text} {n : Nat} : ∀ {attempt : Nat} {p : Progress} (behind : List Event),
    Yields (fixLoop svc cfg hook n attempt p) fun outcome es =>
      Sound behind n p.totalFixCost (outcome.map .done) es := by
  induction n with
  | zero =>
    intro attempt p behind
    refine yields_pure (sound_failure (Nat.le_refl 0) ?_ rfl)
    show p.totalFixCost = p.totalFixCost + 0
    rw [add_zero]
  | succ n ih =>
    intro attempt p behind
    refine Yields.bind (sound_fixRound behind) ?_ fun round xs hxs => ?_
    · intro e xs hxs
      have hhooks := hxs.hooks
      exact sound_raise (by omega)
    · have hhooks := hxs.hooks
      cases round with
      | done result =>
        refine yields_pure ⟨?_, hxs.cost, hxs.unseen, hxs.fixed⟩
        show xs.countP isHook ≤ n + 1
        omega
      | next p' =>
        have hcost : p'.totalFixCost = p.totalFixCost + (xs.map costOf).sum := hxs.cost _ rfl
        refine (ih (xs ++ behind)).mono fun outcome ys hys => ?_
        rw [hcost] at hys
        exact hys.append (by omega) rfl (hxs.unseen _ rfl rfl)

/-! ## The step -/

/-- Why a validation succeeds. -/
inductive Justified : List Event → Prop
  | noHook {rest : List Event} : Justified (.found none :: rest)
  /-- The hook passed in its first run. -/
  | first {result : ShellResult} {rest : List Event} (hpass : result.success = true)
      (hfirst : ∀ x ∈ rest, isHook x = false) : Justified (.hook (.ok result) :: rest)
  | fixed {es : List Event} (hfixed : Fixed es) : Justified es

/-- What a validation comes to, with what it has done. -/
structure Validated (cfg : Config) (outcome : Except PyException StepResult) (es : List Event) : Prop where
  justified : ∀ result, outcome = .ok result → result.success = true → Justified es
  unstranded : ∀ result, outcome = .ok result → result.success = true → ∀ x ∈ es, seesMarker x = false
  hooks : es.countP isHook ≤ cfg.maxFixAttempts + 1
  cost : ∀ result, outcome = .ok result → result.costUsd = (es.map costOf).sum

/-- A validation that raises. -/
theorem validated_raise {e : PyException} (h : es.countP isHook ≤ cfg.maxFixAttempts + 1) :
    Validated cfg (.error e) es where
  justified _ hresult := by cases hresult
  unstranded _ hresult := by cases hresult
  hooks := h
  cost _ hresult := by cases hresult

/-- The loop is entered after one run of the hook. -/
theorem Sound.validated {outcome : Except PyException StepResult}
    (h : Sound behind cfg.maxFixAttempts 0 (outcome.map .done) es) (hhook : behind.countP isHook ≤ 1)
    (hcost : (behind.map costOf).sum = 0) (hmarker : ∀ x ∈ behind, seesMarker x = false) :
    Validated cfg outcome (es ++ behind) where
  justified result hresult hsuccess := by
    subst hresult
    exact .fixed (h.fixed result rfl hsuccess)
  unstranded result hresult hsuccess x hx := by
    subst hresult
    rcases List.mem_append.mp hx with hx | hx
    · exact h.unseen (.done result) rfl hsuccess x hx
    · exact hmarker x hx
  hooks := by
    have hes := h.hooks
    rw [List.countP_append]
    omega
  cost result hresult := by
    subst hresult
    have hes : result.costUsd = 0 + (es.map costOf).sum := h.cost (.done result) rfl
    rw [hes, List.map_append, List.sum_append, hcost]
    ring

/-- Whatever the hook, git, the model and the clocks do: a validation that succeeds is justified and has seen
no marker after a failed fold, the hook is run once more than fixes are allowed at most, and the cost is that of
the fixes. -/
theorem execute_validated (svc : Services ω) (cfg : Config) (spending : Spending) :
    Yields (execute svc cfg spending) (Validated cfg) := by
  refine Yields.bind yields_findHook ?_ fun found xs hxs => ?_
  · intro e xs hxs
    exact validated_raise (by rw [hxs.1.countP]; exact Nat.zero_le _)
  obtain ⟨hidle, hnote⟩ := hxs
  cases found with
  | none =>
    obtain ⟨rest, rfl⟩ := hnote none rfl
    refine yields_pure ⟨fun _ _ _ => .noHook, fun _ _ _ x hx => (hidle x hx).2.2, ?_, ?_⟩
    · show (Event.found none :: rest).countP isHook ≤ cfg.maxFixAttempts + 1
      rw [hidle.countP]
      exact Nat.zero_le _
    · intro result hresult
      cases hresult
      exact hidle.cost.symm
  | some hook =>
    refine Yields.bind (yields_runHook hook) ?_ fun result ys hys => ?_
    · intro e ys hys
      have hcount := hys.1
      refine validated_raise ?_
      rw [List.countP_append, hidle.countP]
      omega
    · obtain ⟨rest, rfl, hrest⟩ := hys.2 result rfl
      have hbefore : Idle (rest ++ xs) := hidle.append hrest
      have hcount : (Event.hook (.ok result) :: (rest ++ xs)).countP isHook = 1 := by
        rw [List.countP_cons, hbefore.countP]
        rfl
      have hcost : ((Event.hook (.ok result) :: (rest ++ xs)).map costOf).sum = 0 := by
        show 0 + ((rest ++ xs).map costOf).sum = 0
        rw [hbefore.cost, add_zero]
      have hmarker : ∀ x ∈ Event.hook (.ok result) :: (rest ++ xs), seesMarker x = false := by
        intro x hx
        rcases List.mem_cons.mp hx with rfl | hx
        · rfl
        · exact (hbefore x hx).2.2
      split_ifs with hpass htimeout
      · have hfirst : Justified (.hook (.ok result) :: (rest ++ xs)) :=
          .first hpass fun x hx => (hbefore x hx).1
        refine yields_pure ⟨fun _ _ _ => hfirst, fun _ _ _ => hmarker, ?_, ?_⟩
        · show (Event.hook (.ok result) :: (rest ++ xs)).countP isHook ≤ cfg.maxFixAttempts + 1
          omega
        · intro result' hresult
          cases hresult
          exact hcost.symm
      · have hfailed : Sound (.hook (.ok result) :: (rest ++ xs)) cfg.maxFixAttempts 0
            (.ok (.done (timedOut cfg 0))) [] :=
          sound_failure (Nat.zero_le _) (zero_add 0).symm rfl
        have hvalidated :
            Validated cfg (.ok (timedOut cfg 0)) ([] ++ Event.hook (.ok result) :: (rest ++ xs)) :=
          Sound.validated hfailed hcount.le hcost hmarker
        exact yields_pure hvalidated
      · refine (sound_fixLoop (.hook (.ok result) :: (rest ++ xs))).mono fun outcome zs hzs => ?_
        rw [List.append_assoc]
        exact Sound.validated hzs hcount.le hcost hmarker

end Core.Validate

import Mathlib.Tactic.Linarith
import SovaVerified.Llm.ModelChain
import SovaVerified.Loops.Loops

/-!
# What a walk of the chain attempts

The chain names no model twice, and what is left of it after the negative cache is a part of it that is not
empty. A walk attempts a prefix of that: it ends with its last attempt, and the ones before have failed with
errors that are eligible.
-/

namespace Llm.ModelChain

open Outside

/-! ## The candidates -/

variable {normalize : Text → Text}

/-- The named models of a chain, normalized. -/
def namesOf (normalize : Text → Text) (chain : List (Option Text)) : List Text :=
  (chain.filterMap named).map normalize

/-- No name is in the chain twice, and the names of the chain have been seen. -/
structure Chain.Distinct (normalize : Text → Text) (c : Chain) : Prop where
  nodup : (namesOf normalize c.chain).Nodup
  seen : ∀ name ∈ namesOf normalize c.chain, name ∈ c.seen

theorem namesOf_snoc (chain : List (Option Text)) (model : Option Text) :
    namesOf normalize (chain ++ [model]) =
      namesOf normalize chain ++ ((named model).map normalize).toList := by
  unfold namesOf
  rw [List.filterMap_append, List.map_append]
  cases hmodel : named model with
  | none => simp [hmodel]
  | some name => simp [hmodel]

theorem Chain.Distinct.unnamed {c : Chain} (h : c.Distinct normalize) {model : Option Text} {seen : List Text}
    (hmodel : named model = none) (hseen : ∀ name ∈ c.seen, name ∈ seen) :
    Chain.Distinct normalize { chain := c.chain ++ [model], seen } where
  nodup := by
    rw [namesOf_snoc, hmodel]
    simpa using h.nodup
  seen := by
    intro name hname
    rw [namesOf_snoc, hmodel] at hname
    exact hseen name (h.seen name (by simpa using hname))

theorem Chain.Distinct.snoc {c : Chain} (h : c.Distinct normalize) {model : Option Text} {name : Text}
    (hmodel : named model = some name) (hnew : normalize name ∉ c.seen) :
    Chain.Distinct normalize { chain := c.chain ++ [model], seen := normalize name :: c.seen } where
  nodup := by
    rw [namesOf_snoc, hmodel, List.nodup_append]
    refine ⟨h.nodup, by simp, ?_⟩
    intro a ha b hb heq
    have hb' : b = normalize name := by simpa using hb
    rw [heq, hb'] at ha
    exact hnew (h.seen _ ha)
  seen := by
    intro a ha
    rw [namesOf_snoc, hmodel] at ha
    rcases List.mem_append.mp ha with ha | ha
    · exact List.mem_cons_of_mem _ (h.seen a ha)
    · have ha' : a = normalize name := by simpa using ha
      rw [ha']
      exact List.mem_cons_self

theorem distinct_addHead {c : Chain} (h : c.Distinct normalize) (head : Option Text) :
    (addHead normalize c head).Distinct normalize := by
  unfold addHead
  cases hhead : named head with
  | none => exact h.unnamed hhead fun _ hname => hname
  | some name =>
    dsimp only
    split_ifs with hseen
    · exact h
    · exact h.snoc hhead hseen

theorem distinct_addCandidate {c : Chain} (h : c.Distinct normalize) (candidate : Text) :
    (addCandidate normalize c candidate).Distinct normalize := by
  unfold addCandidate
  split_ifs with hseen
  · exact h
  · by_cases hempty : candidate = []
    · exact h.unnamed (by simp [named, hempty]) fun _ hname => List.mem_cons_of_mem _ hname
    · exact h.snoc (by simp [named, hempty]) hseen

theorem distinct_foldl_addHead (models : List (Option Text)) {c : Chain} (h : c.Distinct normalize) :
    (models.foldl (addHead normalize) c).Distinct normalize := by
  induction models generalizing c with
  | nil => exact h
  | cons head models ih => exact ih (distinct_addHead h head)

theorem chain_addHead_ne_nil {c : Chain} (h : c.chain ≠ []) (head : Option Text) :
    (addHead normalize c head).chain ≠ [] := by
  unfold addHead
  cases named head with
  | none => simp
  | some name =>
    dsimp only
    split_ifs
    · exact h
    · simp

theorem chain_addCandidate_ne_nil {c : Chain} (h : c.chain ≠ []) (candidate : Text) :
    (addCandidate normalize c candidate).chain ≠ [] := by
  unfold addCandidate
  split_ifs
  · exact h
  · simp

theorem chain_addHead_empty (head : Option Text) : (addHead normalize {} head).chain = [head] := by
  unfold addHead
  cases named head <;> simp

theorem chain_heads_ne_nil (normalize : Text → Text) (prepend primary : Option Text) :
    ((heads prepend primary).foldl (addHead normalize) {}).chain ≠ [] := by
  unfold heads
  cases named prepend with
  | none =>
    show (addHead normalize {} primary).chain ≠ []
    rw [chain_addHead_empty]
    simp
  | some name =>
    show (addHead normalize (addHead normalize {} (some name)) primary).chain ≠ []
    refine chain_addHead_ne_nil ?_ primary
    rw [chain_addHead_empty]
    simp

variable {print : Printing} {env : Environment} {call : Call}

/-- The chain starts with a head, and no named model is in it twice. -/
theorem buildCandidateChain_spec {candidates : List (Option Text)}
    (h : buildCandidateChain print env call = .ok candidates) :
    candidates ≠ [] ∧ (namesOf call.normalize candidates).Nodup := by
  have hfront : ((heads call.prepend call.primary).foldl (addHead call.normalize) {}).Distinct
      call.normalize :=
    distinct_foldl_addHead _ ⟨List.nodup_nil, fun _ hname => absurd hname List.not_mem_nil⟩
  have hne := chain_heads_ne_nil call.normalize call.prepend call.primary
  unfold buildCandidateChain at h
  dsimp only at h
  cases hcfg : call.cfg with
  | none =>
    rw [hcfg] at h
    rw [← Except.ok.inj h]
    exact ⟨hne, hfront.nodup⟩
  | some cfg =>
    rw [hcfg] at h
    obtain ⟨c, hc, rfl⟩ := Exceptions.map_eq_ok_iff.mp h
    have hstep : ∀ (done : List Text) entry rest (t u : Chain),
        cfg.fallbackModels.filter (· ≠ []) = done ++ entry :: rest →
        t.chain ≠ [] ∧ t.Distinct call.normalize → addEntry print env call.normalize cfg.llm t entry = .ok u →
          u.chain ≠ [] ∧ u.Distinct call.normalize := by
      intro done entry rest t u _ ht hbody
      obtain ⟨candidate, -, rfl⟩ := Exceptions.map_eq_ok_iff.mp hbody
      exact ⟨chain_addCandidate_ne_nil ht.1 candidate, distinct_addCandidate ht.2 candidate⟩
    have hrule := Loops.foldlM_rule (P := fun _ (c : Chain) => c.chain ≠ [] ∧ c.Distinct call.normalize)
      (E := fun _ => True) ⟨hne, hfront⟩ hstep fun _ _ _ _ _ _ _ _ => trivial
    obtain ⟨hchain, hdistinct⟩ := hrule.1 c hc
    exact ⟨hchain, hdistinct.nodup⟩

/-! ## What the negative cache leaves -/

variable {ω ε α β : Type} {errors : Errors ε} {svc : Services ω ε α}

theorem quiet_asking (question : ω → β × ω) :
    Quiet (asking question : Walk ω ε α β) fun _ => True :=
  fun s => ⟨[], rfl, rfl, (question s.world).1, rfl, trivial⟩

theorem quiet_isUnavailable (identity : Text) (model : Option Text) :
    Quiet (isUnavailable svc identity model) fun _ => True := by
  cases model with
  | none => exact quiet_pure trivial
  | some model =>
    refine (quiet_asking _).bind fun entries _ => ?_
    cases Assoc.get entries (identity, model) with
    | none => exact quiet_pure trivial
    | some expiry =>
      refine (quiet_asking _).bind fun now _ => ?_
      dsimp only
      split_ifs
      · exact (quiet_asking _).bind fun _ _ => quiet_pure trivial
      · exact quiet_pure trivial

theorem quiet_markUnavailable (identity : Text) (model : Option Text) :
    Quiet (markUnavailable svc identity model) fun _ => True := by
  cases model with
  | none => exact quiet_pure trivial
  | some model => exact (quiet_asking _).bind fun _ _ => quiet_asking _

theorem quiet_rememberUnavailable (model : Option Text) (e : ε) :
    Quiet (rememberUnavailable errors svc call model e) fun _ => True := by
  unfold rememberUnavailable
  cases call.cacheIdentity with
  | none => exact quiet_pure trivial
  | some identity =>
    dsimp only
    split_ifs
    · exact quiet_markUnavailable identity _
    · exact quiet_pure trivial

theorem quiet_available (identity : Text) (chain : List (Option Text)) :
    Quiet (available svc call identity chain) fun kept => kept.Sublist chain := by
  induction chain with
  | nil => exact quiet_pure (List.Sublist.refl [])
  | cons model chain ih =>
    refine (quiet_isUnavailable identity _).bind fun unavailable _ => ?_
    refine ih.bind fun kept hkept => quiet_pure ?_
    cases unavailable with
    | true => exact hkept.cons model
    | false => exact hkept.cons_cons model

/-- The last candidate stays when no other one is left. -/
theorem quiet_dropUnavailable (identity : Text) {chain : List (Option Text)} (h : chain ≠ []) :
    Quiet (dropUnavailable svc call identity chain) fun kept => kept ≠ [] ∧ kept.Sublist chain := by
  refine (quiet_available identity chain).bind fun kept hkept => quiet_pure ?_
  split_ifs with hne
  · exact ⟨hne, hkept⟩
  · refine ⟨?_, List.drop_sublist _ _⟩
    have := List.length_pos_of_ne_nil h
    rw [Ne, List.drop_eq_nil_iff]
    omega

/-! ## What the walk attempts -/

/-- The attempts at a chain, and how they end. -/
structure Walked (errors : Errors ε) (call : Call) (chain : List (Option Text)) (tried : List (Tried ε α))
    (outcome : Except ε α) : Prop where
  inOrder : tried.map (·.attempt.model) <+: chain
  /-- The walk ends as its last attempt does, and goes on after an eligible error only. -/
  ended : ∃ front last, tried = front ++ [last] ∧ outcome = last.outcome ∧ ∀ t ∈ front, t.eligible = true
  judged : ∀ t ∈ tried, t.eligible = true →
    ∃ e, t.outcome = .error e ∧ errors.isException e = true ∧ errors.isFallbackEligible e = true
  inTime : 0 ≤ call.timeout → ∀ t ∈ tried, t.attempt.timeout ≤ call.timeout - t.elapsed

/-- The loop over the rest of a chain: it attempts nothing and raises the last error, or walks on. -/
def Goes (errors : Errors ε) (call : Call) (lastError : Option ε) (rest : List (Option Text))
    (tried : List (Tried ε α)) (outcome : Except ε α) : Prop :=
  (tried = [] ∧ outcome = .error (lastError.getD errors.noAttempt) ∧ (lastError = none → rest = [])) ∨
    Walked errors call rest tried outcome

/-- What is written down of attempts, the newest first. -/
def written (tried : List (Tried ε α)) : List (Event ε α) := (tried.map Event.tried).reverse

theorem written_cons (t : Tried ε α) (tried : List (Tried ε α)) :
    written (t :: tried) = written tried ++ [.tried t] := by
  unfold written
  rw [List.map_cons, List.reverse_cons]

/-- What one attempt leaves behind. -/
structure IsTry (errors : Errors ε) (elapsed : ℚ) (attempt : Attempt) (t : Tried ε α) : Prop where
  attempt_eq : t.attempt = attempt
  elapsed_eq : t.elapsed = elapsed
  judged : t.eligible = true →
    ∃ e, t.outcome = .error e ∧ errors.isException e = true ∧ errors.isFallbackEligible e = true

theorem yields_tryOnce (elapsed : ℚ) (attempt : Attempt) :
    Yields (tryOnce errors svc elapsed attempt) fun outcome es =>
      ∃ t : Tried ε α, IsTry errors elapsed attempt t ∧ es = [.tried t] ∧
        outcome = .ok (t.outcome, t.eligible) := by
  refine (quiet_asking _).bind fun outcome _ => ?_
  have hnote : ∀ eligible : Bool, (eligible = true →
      ∃ e, outcome = .error e ∧ errors.isException e = true ∧ errors.isFallbackEligible e = true) →
      Yields (do
        note (.tried { attempt, elapsed, outcome, eligible })
        pure (outcome, eligible) : Walk ω ε α (Except ε α × Bool)) fun o es =>
          ∃ t : Tried ε α, IsTry errors elapsed attempt t ∧ es = [.tried t] ∧
            o = .ok (t.outcome, t.eligible) := by
    intro eligible h s
    exact ⟨[_], rfl, { attempt, elapsed, outcome, eligible }, ⟨rfl, rfl, h⟩, rfl, rfl⟩
  cases outcome with
  | ok result =>
    refine (quiet_pure (P := fun eligible => eligible = false) rfl).bind fun eligible h => ?_
    refine hnote eligible fun htrue => ?_
    rw [h] at htrue
    cases htrue
  | error e =>
    dsimp only
    split_ifs with hjudged
    · rw [Bool.and_eq_true] at hjudged
      exact (quiet_asking _).bind fun eligible _ => hnote eligible fun _ => ⟨e, rfl, hjudged⟩
    · refine (quiet_pure (P := fun eligible => eligible = false) rfl).bind fun eligible h => ?_
      refine hnote eligible fun htrue => ?_
      rw [h] at htrue
      cases htrue

/-- The time that is left of the deadline is not more than what is left of the caller's. -/
theorem remaining_le {start now : ℚ} (h : 0 ≤ call.timeout) :
    start + call.timeout * deadlineSafetyMargin - now ≤ call.timeout - (now - start) := by
  unfold deadlineSafetyMargin
  linarith

/-- A walk that ends with its first attempt. -/
theorem walked_singleton {model : Option Text} {rest : List (Option Text)} {elapsed : ℚ} {attempt : Attempt}
    {t : Tried ε α} (ht : IsTry errors elapsed attempt t) (hmodel : attempt.model = model)
    (htime : 0 ≤ call.timeout → attempt.timeout ≤ call.timeout - elapsed) :
    Walked errors call (model :: rest) [t] t.outcome where
  inOrder := by
    rw [List.map_singleton, ht.attempt_eq, hmodel]
    exact ⟨rest, rfl⟩
  ended := ⟨[], t, rfl, rfl, fun _ h => absurd h List.not_mem_nil⟩
  judged := by
    intro t' ht'
    rw [List.mem_singleton.mp ht']
    exact ht.judged
  inTime := by
    intro h t' ht'
    rw [List.mem_singleton.mp ht', ht.attempt_eq, ht.elapsed_eq]
    exact htime h

/-- A walk that goes on after its first attempt. -/
theorem Walked.cons {model : Option Text} {rest : List (Option Text)} {elapsed : ℚ} {attempt : Attempt}
    {t : Tried ε α} {tried : List (Tried ε α)} {outcome : Except ε α}
    (hrest : Walked errors call rest tried outcome) (ht : IsTry errors elapsed attempt t)
    (hmodel : attempt.model = model) (heligible : t.eligible = true)
    (htime : 0 ≤ call.timeout → attempt.timeout ≤ call.timeout - elapsed) :
    Walked errors call (model :: rest) (t :: tried) outcome where
  inOrder := by
    rw [List.map_cons, ht.attempt_eq, hmodel]
    exact (List.prefix_cons_inj model).mpr hrest.inOrder
  ended := by
    obtain ⟨front, last, rfl, houtcome, hfront⟩ := hrest.ended
    exact ⟨t :: front, last, rfl, houtcome, List.forall_mem_cons.mpr ⟨heligible, hfront⟩⟩
  judged := List.forall_mem_cons.mpr ⟨ht.judged, hrest.judged⟩
  inTime := by
    intro h
    refine List.forall_mem_cons.mpr ⟨?_, hrest.inTime h⟩
    rw [ht.attempt_eq, ht.elapsed_eq]
    exact htime h

/-- What follows an attempt at `model`. -/
def afterTry (errors : Errors ε) (svc : Services ω ε α) (call : Call) (start : ℚ) (model : Option Text)
    (rest : List (Option Text)) (eligible : Bool) : Except ε α → Walk ω ε α α
  | .ok result => pure result
  | .error e =>
    if eligible then do
      rememberUnavailable errors svc call model e
      walkFrom errors svc call start (some e) rest
    else raise e

theorem yields_walkFrom (start : ℚ) (lastError : Option ε) (chain : List (Option Text)) :
    Yields (walkFrom errors svc call start lastError chain) fun outcome es =>
      ∃ tried, es = written tried ∧ Goes errors call lastError chain tried outcome := by
  induction chain generalizing lastError with
  | nil => exact yields_raise ⟨[], rfl, .inl ⟨rfl, rfl, fun _ => rfl⟩⟩
  | cons model rest ih =>
    refine (quiet_asking _).bind fun now _ => ?_
    dsimp only
    split_ifs with hspent
    · refine yields_raise ⟨[], rfl, .inl ⟨rfl, rfl, fun hnone => ?_⟩⟩
      rw [hnone] at hspent
      cases hspent.1
    · have hstep : ∀ t : Tried ε α, IsTry errors (now - start)
          { model, nextHop := rest.head?.join,
            timeout := start + call.timeout * deadlineSafetyMargin - now,
            budget := call.maxBudgetUsd } t →
          Yields (afterTry errors svc call start model rest t.eligible t.outcome) fun outcome es =>
            ∃ tried, es ++ [.tried t] = written tried ∧ Walked errors call (model :: rest) tried outcome := by
        intro t ht
        have hfirst : Walked errors call (model :: rest) [t] t.outcome :=
          walked_singleton ht rfl fun h => remaining_le h
        cases houtcome : t.outcome with
        | ok result =>
          rw [houtcome] at hfirst
          exact yields_pure ⟨[t], rfl, hfirst⟩
        | error e =>
          rw [houtcome] at hfirst
          unfold afterTry
          split_ifs with heligible
          · refine (quiet_rememberUnavailable model e).bind fun _ _ => ?_
            refine (ih (some e)).mono ?_
            rintro outcome es ⟨tried, rfl, hgoes⟩
            rcases hgoes with ⟨rfl, rfl, -⟩ | hwalked
            · exact ⟨[t], rfl, hfirst⟩
            · exact ⟨t :: tried, (written_cons t tried).symm,
                hwalked.cons ht rfl heligible fun h => remaining_le h⟩
          · exact yields_raise ⟨[t], rfl, hfirst⟩
      refine (yields_tryOnce _ _).bind ?_ ?_
      · rintro e xs ⟨t, -, -, h⟩
        cases h
      · rintro ⟨outcome, eligible⟩ xs ⟨t, ht, rfl, hok⟩
        cases hok
        refine (hstep t ht).mono ?_
        rintro outcome es ⟨tried, htried, hwalked⟩
        exact ⟨tried, htried, .inr hwalked⟩

theorem yields_walkChain {chain : List (Option Text)} (h : chain ≠ []) :
    Yields (walkChain errors svc call chain) fun outcome es =>
      ∃ tried, es = written tried ∧ Walked errors call chain tried outcome := by
  have hloop : Yields (do
      let start ← asking svc.monotonic
      walkFrom errors svc call start none chain) fun outcome es =>
        ∃ tried, es = written tried ∧ Walked errors call chain tried outcome := by
    refine (quiet_asking _).bind fun start _ => (yields_walkFrom start none chain).mono ?_
    rintro outcome es ⟨tried, hes, ⟨-, -, hnil⟩ | hwalked⟩
    · exact absurd (hnil rfl) h
    · exact ⟨tried, hes, hwalked⟩
  match chain with
  | [] => exact absurd rfl h
  | _ :: _ :: _ => exact hloop
  | [model] =>
    refine (quiet_asking _).bind fun outcome _ => ?_
    have htry : IsTry errors 0 (soleAttempt call model)
        { attempt := soleAttempt call model, elapsed := 0, outcome, eligible := false } :=
      ⟨rfl, rfl, fun h => nomatch h⟩
    have htime : 0 ≤ call.timeout → (soleAttempt call model).timeout ≤ call.timeout - 0 := by
      intro _
      show call.timeout ≤ call.timeout - 0
      rw [sub_zero]
    have hsole : Walked errors call [model] _ outcome := walked_singleton htry rfl htime
    cases outcome with
    | ok result => exact fun s => ⟨[_], rfl, _, rfl, hsole⟩
    | error e => exact fun s => ⟨[_], rfl, _, rfl, hsole⟩

theorem namesOf_sublist {chain chain' : List (Option Text)} (h : chain.Sublist chain') :
    (namesOf normalize chain).Sublist (namesOf normalize chain') :=
  (h.filterMap named).map normalize

/-- What a run comes to: the names of the chain cannot be resolved and nothing is attempted, or what the
negative cache leaves of the candidates is walked, and no named model is tried twice. -/
def Reported (print : Printing) (env : Environment) (errors : Errors ε) (call : Call) (outcome : Except ε α)
    (es : List (Event ε α)) : Prop :=
  (∃ e, buildCandidateChain print env call = .error e ∧ outcome = .error (errors.ofPython e) ∧ es = []) ∨
    ∃ candidates chain tried, buildCandidateChain print env call = .ok candidates ∧
      chain.Sublist candidates ∧ es = written tried ++ [.walking chain] ∧ tried ≠ [] ∧
      (namesOf call.normalize (tried.map (·.attempt.model))).Nodup ∧ Walked errors call chain tried outcome

theorem yields_walking {candidates chain : List (Option Text)}
    (hbuild : buildCandidateChain print env call = .ok candidates)
    (hchain : chain ≠ [] ∧ chain.Sublist candidates) :
    Yields (do
      note (.walking chain)
      walkChain errors svc call chain) (Reported print env errors call) := by
  intro s
  have hyields : Yields (walkChain errors svc call chain) _ := yields_walkChain hchain.1
  obtain ⟨es, hes, tried, rfl, hwalked⟩ := hyields { s with reads := .walking chain :: s.reads }
  have hne : tried ≠ [] := by
    obtain ⟨front, last, rfl, -⟩ := hwalked.ended
    simp
  have hnodup := (buildCandidateChain_spec hbuild).2.sublist
    (namesOf_sublist (hwalked.inOrder.sublist.trans hchain.2))
  refine ⟨written tried ++ [.walking chain], ?_, .inr ⟨candidates, chain, tried, hbuild, hchain.2, rfl, hne,
    hnodup, hwalked⟩⟩
  rw [List.append_assoc]
  exact hes

/-- The attempts of every run are a prefix of the chain that the negative cache leaves, in order and without
repetitions, and the run ends as the last of them. -/
theorem walkModelChain_spec (print : Printing) (env : Environment) (errors : Errors ε)
    (svc : Services ω ε α) (call : Call) :
    Yields (walkModelChain print env errors svc call) (Reported print env errors call) := by
  unfold walkModelChain
  cases hbuild : buildCandidateChain print env call with
  | error e => exact yields_raise (.inl ⟨e, hbuild, rfl, rfl⟩)
  | ok candidates =>
    have hne := (buildCandidateChain_spec hbuild).1
    cases call.cacheIdentity with
    | none => exact (quiet_pure ⟨hne, List.Sublist.refl _⟩).bind fun _ => yields_walking hbuild
    | some identity => exact (quiet_dropUnavailable identity hne).bind fun _ => yields_walking hbuild

/-! ## What the walk does not promise -/

/-- The models of the attempts, in order. -/
def attempted : List (Event ε α) → List (Option Text)
  | [] => []
  | .walking _ :: es => attempted es
  | .tried t :: es => attempted es ++ [t.attempt.model]

def timeouts : List (Event ε α) → List ℚ
  | [] => []
  | .walking _ :: es => timeouts es
  | .tried t :: es => timeouts es ++ [t.attempt.timeout]

/-- All errors are eligible. -/
def lenient : Errors Unit where
  isException _ := true
  isFallbackEligible _ := true
  isModelUnavailable _ := false
  ofPython _ := ()
  noAttempt := ()

/-- An executor that always fails, while the clock stands still. -/
def failing : Services Unit Unit Unit where
  attempt _ w := (.error (), w)
  monotonic w := (0, w)
  isEligible _ w := (true, w)
  expiry _ := []
  setExpiry _ w := w

/-- What a walk with that executor writes down. -/
def failedRun (call : Call) : List (Event Unit Unit) :=
  (walkModelChain (fun _ => []) {} lenient failing call { world := () }).2.reads

/-- An empty primary, and an entry that an alias makes empty. -/
def twoDefaults : Call where
  primary := some []
  cfg := some { llm := { modelAliases := [("x".toList, [])] }, fallbackModels := ["x".toList] }
  timeout := 900

/-- A list of candidates with a numeral that Python's `int` refuses. -/
def unreadableTier : Call where
  primary := some "opus".toList
  cfg := some { llm := { provider := .vertex
                         tierCandidates :=
                           [("vertex:opus".toList, '[' :: List.replicate 4301 '9' ++ [']'])] }
                fallbackModels := ["opus".toList] }
  timeout := 900

def overdue : Call where
  primary := some "a".toList
  cfg := some { fallbackModels := ["b".toList] }
  timeout := -100

/-- The provider's default is attempted twice; a walk whose names cannot be resolved makes no attempt; a
negative time to go is exceeded. -/
theorem walk_excepts :
    ¬ (attempted (failedRun twoDefaults)).Nodup ∧ attempted (failedRun unreadableTier) = [] ∧
      ∃ t ∈ timeouts (failedRun overdue), overdue.timeout < t := by
  refine ⟨?_, ?_, ?_⟩
  · decide +kernel
  · decide +kernel
  · decide +kernel

end Llm.ModelChain

import SovaVerified.Supervisor.PrThrottle

/-!
# Proofs: the steps of the throttle

Everything that a step can do, once and for all: what is shown of runs of the throttle goes through the cases
of `ThrottleChange`.
-/

namespace Supervisor

variable {config : Text → QuotaConfig}

/-- What an action does to the state, with the conditions under which it does so. -/
inductive ThrottleChange (config : Text → QuotaConfig) (s : ThrottleState) :
    ThrottleAction → ThrottleState → Prop
  | tick (elapsed : Nat) : ThrottleChange config s (.tick elapsed) { s with now := s.now + elapsed }
  | enqueue (run : Nat) (project : Text) (request : PRRequest) :
      ThrottleChange config s (.enqueue run project request) (enqueue s run project request)
  | dequeue (run : Nat) (reason : Option Text) :
      ThrottleChange config s (.dequeue run reason) (dequeue s run reason)
  | runStatus (run : Nat) (ended : Bool) (endedRuns : List Nat) :
      ThrottleChange config s (.runStatus run ended) { s with endedRuns := endedRuns }
  | sync (a : ThrottleAction) (events : List CodeRabbitEvent) : ThrottleChange config s a { s with events := events }
  | beginPass (pass : Nat) (project : Text) : ThrottleChange config s (.beginPass pass project)
      ((sweepEnded project (sweepStale project s)).setPass pass ⟨project, .swept⟩)
  /-- The pass ends without having flipped an entry, or by a crash. -/
  | endPass (a : ThrottleAction) (pass : Nat) : ThrottleChange config s a (s.endPass pass)
  | passQuota (pass : Nat) (project : Text) (hget : s.passes.get pass = some ⟨project, .swept⟩)
      (hquota : (getQuotaStatus (config project) project s).canCreatePr = true) :
      ThrottleChange config s (.checkQuota pass) (s.setPass pass ⟨project, .admitted⟩)
  | select (pass : Nat) (project : Text) (entry : Nat) (hget : s.passes.get pass = some ⟨project, .admitted⟩) :
      ThrottleChange config s (.select pass) (s.setPass pass ⟨project, .selected entry⟩)
  | flip (pass : Nat) (project : Text) (entry : Nat) (e : QueueEntry)
      (hget : s.passes.get pass = some ⟨project, .selected entry⟩) (hentry : s.entries.get entry = some e)
      (hflip : canFlip s e = true) : ThrottleChange config s (.flip pass)
        ({ s with entries := s.entries.mapVal fun i e =>
          if i = entry then { e with status := .creating } else e }.setPass pass
            ⟨project, .flipped entry e.request⟩)
  | createPr (pass : Nat) (project : Text) (entry : Nat) (request : PRRequest) (outcome : CreateOutcome)
      (hget : s.passes.get pass = some ⟨project, .flipped entry request⟩) :
      ThrottleChange config s (.createPr pass outcome)
        ({ s with calls := ⟨entry, request, project, s.now, outcome⟩ :: s.calls }.setPass pass
          ⟨project, .called entry outcome⟩)
  | record (pass : Nat) (project : Text) (entry : Nat) (outcome : CreateOutcome)
      (hget : s.passes.get pass = some ⟨project, .called entry outcome⟩) :
      ThrottleChange config s (.record pass) ((recordOutcome s project entry outcome).endPass pass)

theorem throttleStep_change {s s' : ThrottleState} {a : ThrottleAction} (h : throttleStep config s a = some s') :
    ThrottleChange config s a s' := by
  cases a with
  | tick elapsed =>
    rw [← Option.some.inj h]
    exact .tick elapsed
  | enqueue run project request =>
    rw [← Option.some.inj h]
    exact .enqueue run project request
  | dequeue run reason =>
    rw [← Option.some.inj h]
    exact .dequeue run reason
  | runStatus run ended =>
    rw [← Option.some.inj h]
    exact .runStatus run ended _
  | sync project reviews =>
    dsimp only [throttleStep] at h
    split_ifs at h
    · rw [← Option.some.inj h]
      exact .sync _ _
    · rw [← Option.some.inj h]
      exact .sync _ s.events
  | beginPass pass project =>
    dsimp only [throttleStep] at h
    split at h
    · rw [← Option.some.inj h]
      exact .beginPass pass project
    · cases h
  | checkQuota pass =>
    dsimp only [throttleStep] at h
    split at h
    · rename_i project hget
      split_ifs at h with hquota
      · rw [← Option.some.inj h]
        exact .passQuota pass project hget hquota
      · rw [← Option.some.inj h]
        exact .endPass _ pass
    · cases h
  | select pass =>
    dsimp only [throttleStep] at h
    split at h
    · rename_i project hget
      split at h
      · rw [← Option.some.inj h]
        exact .endPass _ pass
      · rw [← Option.some.inj h]
        exact .select pass project _ hget
    · cases h
  | flip pass =>
    dsimp only [throttleStep] at h
    split at h
    · rename_i project entry hget
      split at h
      · rw [← Option.some.inj h]
        exact .endPass _ pass
      · rename_i e hentry
        split_ifs at h with hflip
        · rw [← Option.some.inj h]
          exact .flip pass project entry e hget hentry hflip
        · rw [← Option.some.inj h]
          exact .endPass _ pass
    · cases h
  | createPr pass outcome =>
    dsimp only [throttleStep] at h
    split at h
    · rename_i project entry request hget
      rw [← Option.some.inj h]
      exact .createPr pass project entry request outcome hget
    · cases h
  | record pass =>
    dsimp only [throttleStep] at h
    split at h
    · rename_i project entry outcome hget
      rw [← Option.some.inj h]
      exact .record pass project entry outcome hget
    · cases h
  | crash pass =>
    dsimp only [throttleStep] at h
    split at h
    · rw [← Option.some.inj h]
      exact .endPass _ pass
    · cases h

end Supervisor

/-!
# Proofs: the queue of the throttle

`create_pr` is called at most once for an entry, and only for one that was pending, never cancelled,
and whose run was live when the pass flipped it. Nothing is assumed about the order of the steps; the
recovery of entries after a crash is not one of them.
-/

namespace Supervisor

variable {config : Text → QuotaConfig}

/-- The moves of an entry's status, and no move. -/
def Moves (a b : PRQueueStatus) : Prop :=
  a = b ∨ (a = .pending ∧ (b = .creating ∨ b = .cancelled)) ∨
    (a = .creating ∧ (b = .created ∨ b = .failed))

/-- The entry that a pass has flipped and not yet recorded. -/
def PassPhase.working : PassPhase → Option Nat
  | .flipped entry _ => some entry
  | .called entry _ => some entry
  | _ => none

/-! ## What a step does -/

/-- At most a cancellation of a pending entry. -/
def Cancels (e e' : QueueEntry) : Prop :=
  e'.status = e.status ∨ (e.status = .pending ∧ e'.status = .cancelled)

/-- A step that flips, calls and records nothing. -/
structure Quiet (s s' : ThrottleState) : Prop where
  entries : ∃ f : Nat → QueueEntry → QueueEntry, (∀ i e, Cancels e (f i e)) ∧
    ∀ i, s'.entries.get i = (s.entries.get i).map (f i)
  passes : ∀ p pass, s'.passes.get p = some pass →
    pass.phase.working = none ∨ s.passes.get p = some pass
  calls : s'.calls = s.calls
  nextId : s'.nextId = s.nextId

section

variable {s : ThrottleState}

theorem same_entries : ∃ f : Nat → QueueEntry → QueueEntry, (∀ i e, Cancels e (f i e)) ∧
    ∀ i, s.entries.get i = (s.entries.get i).map (f i) :=
  ⟨fun _ e => e, fun _ _ => .inl rfl, fun i => by simp⟩

theorem get_setPass (pass : Nat) (p : Pass) (q : Nat) :
    (s.setPass pass p).passes.get q = if q = pass then some p else s.passes.get q := by
  unfold ThrottleState.setPass
  by_cases h : q = pass
  · rw [if_pos h, h]
    exact Assoc.get_put_self ..
  · rw [if_neg h]
    exact Assoc.get_put_ne _ _ h

theorem get_endPass {pass q : Nat} {p : Pass} (h : (s.endPass pass).passes.get q = some p) :
    s.passes.get q = some p := by
  unfold ThrottleState.endPass at h
  by_cases hq : q = pass
  · rw [hq] at h
    rw [Assoc.get_del_self] at h
    cases h
  · rw [← h]
    exact (Assoc.get_del_ne _ hq).symm

theorem quiet_endPass (pass : Nat) : Quiet s (s.endPass pass) :=
  ⟨same_entries, fun _ _ h => .inr (get_endPass h), rfl, rfl⟩

theorem quiet_setPass (pass : Nat) {p : Pass} (hp : p.phase.working = none) :
    Quiet s (s.setPass pass p) where
  entries := same_entries
  passes := by
    intro q pass' h
    rw [get_setPass] at h
    split_ifs at h with hq
    · rw [← Option.some.inj h]
      exact .inl hp
    · exact .inr h
  calls := rfl
  nextId := rfl

theorem Quiet.trans {s' s'' : ThrottleState} (h : Quiet s s') (h' : Quiet s' s'') : Quiet s s'' where
  entries := by
    obtain ⟨f, hf, hget⟩ := h.entries
    obtain ⟨g, hg, hget'⟩ := h'.entries
    refine ⟨fun i e => g i (f i e), ?_, ?_⟩
    · intro i e
      rcases hf i e with h1 | ⟨h1, h1'⟩
      · rcases hg i (f i e) with h2 | ⟨h2, h2'⟩
        · exact .inl (h2.trans h1)
        · exact .inr ⟨h1 ▸ h2, h2'⟩
      · rcases hg i (f i e) with h2 | ⟨h2, h2'⟩
        · exact .inr ⟨h1, h2.trans h1'⟩
        · rw [h1'] at h2
          cases h2
    · intro i
      rw [hget', hget, Option.map_map]
      rfl
  passes := by
    intro p pass hp
    rcases h'.passes p pass hp with hn | hp'
    · exact .inl hn
    · exact h.passes p pass hp'
  calls := h'.calls.trans h.calls
  nextId := h'.nextId.trans h.nextId

/-- A conditional update that only cancels pending entries. -/
theorem quiet_cancel {test : QueueEntry → Prop} [DecidablePred test] (now : Nat) (reason : Option Text)
    (htest : ∀ e, test e → e.status = .pending) :
    Quiet s { s with
      entries := s.entries.mapVal fun _ e => if test e then e.cancel now reason else e } where
  entries := by
    refine ⟨fun _ e => if test e then e.cancel now reason else e, ?_, fun i => by rw [Assoc.get_mapVal]⟩
    intro i e
    dsimp only
    by_cases h : test e
    · rw [if_pos h]
      exact .inr ⟨htest e h, rfl⟩
    · rw [if_neg h]
      exact .inl rfl
  passes := fun _ _ h => .inr h
  calls := rfl
  nextId := rfl

/-- Everything that a step can do. -/
theorem throttleStep_cases {a : ThrottleAction} {s' : ThrottleState}
    (h : throttleStep config s a = some s') :
    Quiet s s' ∨
    (∃ run project request, s' = enqueue s run project request) ∨
    (∃ pass project entry e, a = .flip pass ∧
      s.passes.get pass = some ⟨project, .selected entry⟩ ∧
      s.entries.get entry = some e ∧ canFlip s e = true ∧
      s' = { s with entries := s.entries.mapVal fun i e =>
        if i = entry then { e with status := .creating } else e }.setPass pass
          ⟨project, .flipped entry e.request⟩) ∨
    (∃ pass project entry request outcome,
      s.passes.get pass = some ⟨project, .flipped entry request⟩ ∧
      s' = { s with calls := ⟨entry, request, project, s.now, outcome⟩ :: s.calls }.setPass pass
        ⟨project, .called entry outcome⟩) ∨
    (∃ pass project entry outcome, s.passes.get pass = some ⟨project, .called entry outcome⟩ ∧
      s' = (recordOutcome s project entry outcome).endPass pass) := by
  cases throttleStep_change h with
  | tick | runStatus | sync =>
    left
    exact ⟨same_entries, fun _ _ hp => .inr hp, rfl, rfl⟩
  | enqueue run project request => exact .inr (.inl ⟨run, project, request, rfl⟩)
  | dequeue run reason =>
    left
    exact quiet_cancel s.now reason (fun e he => he.2)
  | beginPass pass project =>
    left
    have hstale : Quiet s (sweepStale project s) := quiet_cancel _ _ (fun e he => he.1)
    have hended : Quiet (sweepStale project s) (sweepEnded project (sweepStale project s)) :=
      quiet_cancel _ _ (fun e he => he.1)
    exact (hstale.trans hended).trans (quiet_setPass pass rfl)
  | endPass a pass => exact .inl (quiet_endPass pass)
  | passQuota pass => exact .inl (quiet_setPass pass rfl)
  | select pass => exact .inl (quiet_setPass pass rfl)
  | flip pass project entry e hget hentry hflip =>
    exact .inr (.inr (.inl ⟨pass, project, entry, e, rfl, hget, hentry, hflip, rfl⟩))
  | createPr pass project entry request outcome hget =>
    exact .inr (.inr (.inr (.inl ⟨pass, project, entry, request, outcome, hget, rfl⟩)))
  | record pass project entry outcome hget =>
    exact .inr (.inr (.inr (.inr ⟨pass, project, entry, outcome, hget, rfl⟩)))

end

/-! ## The invariant -/

structure ThrottleInv (s : ThrottleState) : Prop where
  fresh : ∀ i e, s.entries.get i = some e → i < s.nextId
  /-- A pass that has flipped its entry finds it as it left it. -/
  working : ∀ p pass i, s.passes.get p = some pass → pass.phase.working = some i →
    ∃ e, s.entries.get i = some e ∧ e.status = .creating
  exclusive : ∀ p q pass pass' i, s.passes.get p = some pass → s.passes.get q = some pass' →
    pass.phase.working = some i → pass'.phase.working = some i → p = q
  uncalled : ∀ p project i request, s.passes.get p = some ⟨project, .flipped i request⟩ →
    ∀ c ∈ s.calls, c.entry ≠ i
  called : ∀ c ∈ s.calls, ∃ e, s.entries.get c.entry = some e ∧
    (e.status = .creating ∨ e.status = .created ∨ e.status = .failed)
  once : (s.calls.map (·.entry)).Nodup

theorem throttleInv_init : ThrottleInv {} where
  fresh := by simp
  working := by simp
  exclusive := by simp
  uncalled := by simp
  called := by simp
  once := by simp

section

variable {s s' : ThrottleState}

theorem Cancels.status {e e' : QueueEntry} (h : Cancels e e') (hp : e.status ≠ .pending) :
    e'.status = e.status :=
  h.resolve_right fun hc => hp hc.1

theorem ThrottleInv.quiet (h : ThrottleInv s) (hq : Quiet s s') : ThrottleInv s' := by
  obtain ⟨f, hf, hget⟩ := hq.entries
  have hpass : ∀ p pass i, s'.passes.get p = some pass → pass.phase.working = some i →
      s.passes.get p = some pass := by
    intro p pass i hp hw
    refine (hq.passes p pass hp).resolve_left (fun hn => ?_)
    rw [hw] at hn
    cases hn
  -- an entry that is past `pending` keeps its status
  have hkeep : ∀ i e, s.entries.get i = some e → e.status ≠ .pending →
      ∃ e', s'.entries.get i = some e' ∧ e'.status = e.status := by
    intro i e he hne
    exact ⟨f i e, by rw [hget, he]; rfl, (hf i e).status hne⟩
  refine ⟨?_, ?_, ?_, ?_, ?_, ?_⟩
  · intro i e he
    rw [hget, Option.map_eq_some_iff] at he
    obtain ⟨e₀, he₀, -⟩ := he
    rw [hq.nextId]
    exact h.fresh i e₀ he₀
  · intro p pass i hp hw
    obtain ⟨e, he, hst⟩ := h.working p pass i (hpass p pass i hp hw) hw
    obtain ⟨e', he', hst'⟩ := hkeep i e he (by rw [hst]; decide)
    exact ⟨e', he', hst'.trans hst⟩
  · intro p q pass pass' i hp hq' hw hw'
    exact h.exclusive p q pass pass' i (hpass p pass i hp hw) (hpass q pass' i hq' hw') hw hw'
  · intro p project i request hp c hc
    rw [hq.calls] at hc
    exact h.uncalled p project i request (hpass p _ i hp rfl) c hc
  · intro c hc
    rw [hq.calls] at hc
    obtain ⟨e, he, hst⟩ := h.called c hc
    obtain ⟨e', he', hst'⟩ := hkeep c.entry e he (by rcases hst with hs | hs | hs <;> rw [hs] <;> decide)
    exact ⟨e', he', by rw [hst']; exact hst⟩
  · rw [hq.calls]
    exact h.once

/-- Enqueueing does not touch the entries that are there. -/
theorem get_enqueue (h : ThrottleInv s) {run : Nat} {project : Text} {request : PRRequest} {i : Nat}
    {e : QueueEntry} (he : s.entries.get i = some e) :
    (enqueue s run project request).entries.get i = some e := by
  have hne : i ≠ s.nextId := Nat.ne_of_lt (h.fresh i e he)
  unfold enqueue
  rw [Assoc.get_cons, if_neg hne, he]

theorem ThrottleInv.enqueue (h : ThrottleInv s) (run : Nat) (project : Text) (request : PRRequest) :
    ThrottleInv (enqueue s run project request) where
  fresh := by
    intro i e he
    unfold Supervisor.enqueue at he ⊢
    rw [Assoc.get_cons] at he
    dsimp only
    split_ifs at he with hi
    · omega
    · have hlt := h.fresh i e he
      omega
  working := by
    intro p pass i hp hw
    obtain ⟨e, he, hst⟩ := h.working p pass i hp hw
    exact ⟨e, get_enqueue h he, hst⟩
  exclusive := h.exclusive
  uncalled := h.uncalled
  called := by
    intro c hc
    obtain ⟨e, he, hst⟩ := h.called c hc
    exact ⟨e, get_enqueue h he, hst⟩
  once := h.once

/-- The state after a flip. -/
def flipTo (s : ThrottleState) (pass : Nat) (project : Text) (entry : Nat) (request : PRRequest) :
    ThrottleState :=
  { s with entries := s.entries.mapVal fun i e =>
    if i = entry then { e with status := .creating } else e }.setPass pass
      ⟨project, .flipped entry request⟩

theorem get_flipTo (s : ThrottleState) (pass : Nat) (project : Text) (entry : Nat)
    (request : PRRequest) (i : Nat) :
    (flipTo s pass project entry request).entries.get i =
      (s.entries.get i).map fun e => if i = entry then { e with status := .creating } else e :=
  Assoc.get_mapVal (fun i (e : QueueEntry) =>
    if i = entry then { e with status := .creating } else e) s.entries i

theorem ThrottleInv.flip (h : ThrottleInv s) {pass : Nat} {project : Text} {entry : Nat}
    {e : QueueEntry} (hentry : s.entries.get entry = some e) (hpending : e.status = .pending)
    (request : PRRequest) : ThrottleInv (flipTo s pass project entry request) := by
  -- nothing else is at work on a pending entry, and `create_pr` was not called for it
  have hidle : ∀ p pass', s.passes.get p = some pass' → pass'.phase.working ≠ some entry := by
    intro p pass' hp hw
    obtain ⟨e', he', hst⟩ := h.working p pass' entry hp hw
    rw [hentry] at he'
    rw [← Option.some.inj he', hpending] at hst
    cases hst
  have hnocall : ∀ c ∈ s.calls, c.entry ≠ entry := by
    rintro c hc rfl
    obtain ⟨e', he', hst⟩ := h.called c hc
    rw [hentry] at he'
    rw [← Option.some.inj he', hpending] at hst
    rcases hst with hst | hst | hst <;> cases hst
  have hother : ∀ i, i ≠ entry →
      (flipTo s pass project entry request).entries.get i = s.entries.get i := by
    intro i hi
    rw [get_flipTo]
    simp [hi]
  have hpass : ∀ q, (flipTo s pass project entry request).passes.get q =
      if q = pass then some ⟨project, .flipped entry request⟩ else s.passes.get q :=
    fun q => get_setPass pass _ q
  refine ⟨?_, ?_, ?_, ?_, ?_, h.once⟩
  · intro i e' he'
    rw [get_flipTo, Option.map_eq_some_iff] at he'
    obtain ⟨e₀, he₀, -⟩ := he'
    exact h.fresh i e₀ he₀
  · intro q pass' i hq hw
    rw [hpass] at hq
    split_ifs at hq with hqp
    · rw [← Option.some.inj hq] at hw
      have hi : entry = i := Option.some.inj hw
      refine ⟨{ e with status := .creating }, ?_, rfl⟩
      rw [get_flipTo, ← hi, hentry]
      simp
    · obtain ⟨e', he', hst⟩ := h.working q pass' i hq hw
      have hi : i ≠ entry := fun heq => hidle q pass' hq (heq ▸ hw)
      exact ⟨e', by rw [hother i hi]; exact he', hst⟩
  · intro p q pass₁ pass₂ i hp hq hw₁ hw₂
    rw [hpass] at hp hq
    split_ifs at hp hq with h1 h2 h2
    · exact h1.trans h2.symm
    · rw [← Option.some.inj hp] at hw₁
      have hi : entry = i := Option.some.inj hw₁
      exact absurd hw₂ (hi ▸ hidle q pass₂ hq)
    · rw [← Option.some.inj hq] at hw₂
      have hi : entry = i := Option.some.inj hw₂
      exact absurd hw₁ (hi ▸ hidle p pass₁ hp)
    · exact h.exclusive p q pass₁ pass₂ i hp hq hw₁ hw₂
  · intro p project' i request' hp c hc
    rw [hpass] at hp
    split_ifs at hp with hpp
    · have hphase := congrArg Pass.phase (Option.some.inj hp)
      have hi : entry = i := (PassPhase.flipped.inj hphase).1
      exact hi ▸ hnocall c hc
    · exact h.uncalled p project' i request' hp c hc
  · intro c hc
    rw [hother c.entry (hnocall c hc)]
    exact h.called c hc

theorem ThrottleInv.createPr (h : ThrottleInv s) {pass : Nat} {project : Text} {entry : Nat}
    {request : PRRequest} (outcome : CreateOutcome)
    (hget : s.passes.get pass = some ⟨project, .flipped entry request⟩) :
    ThrottleInv ({ s with calls := ⟨entry, request, project, s.now, outcome⟩ :: s.calls }.setPass pass
      ⟨project, .called entry outcome⟩) := by
  -- every pass works on the entry that it worked on before
  have hwork : ∀ q pass' i, (({ s with
      calls := ⟨entry, request, project, s.now, outcome⟩ :: s.calls }.setPass pass
        ⟨project, .called entry outcome⟩).passes.get q = some pass') →
      pass'.phase.working = some i →
      ∃ pass₀, s.passes.get q = some pass₀ ∧ pass₀.phase.working = some i := by
    intro q pass' i hq hw
    rw [get_setPass] at hq
    split_ifs at hq with hqp
    · rw [← Option.some.inj hq] at hw
      refine ⟨⟨project, .flipped entry request⟩, ?_, hw⟩
      rw [hqp]
      exact hget
    · exact ⟨pass', hq, hw⟩
  refine ⟨h.fresh, ?_, ?_, ?_, ?_, ?_⟩
  · intro q pass' i hq hw
    obtain ⟨pass₀, hq₀, hw₀⟩ := hwork q pass' i hq hw
    exact h.working q pass₀ i hq₀ hw₀
  · intro p q pass₁ pass₂ i hp hq hw₁ hw₂
    obtain ⟨pass₁', hp', hw₁'⟩ := hwork p pass₁ i hp hw₁
    obtain ⟨pass₂', hq', hw₂'⟩ := hwork q pass₂ i hq hw₂
    exact h.exclusive p q pass₁' pass₂' i hp' hq' hw₁' hw₂'
  · intro q project' i request' hq c hc
    rw [get_setPass] at hq
    split_ifs at hq with hqp
    · have hphase := congrArg Pass.phase (Option.some.inj hq)
      cases hphase
    · rcases List.mem_cons.mp hc with rfl | hc
      · rintro rfl
        exact hqp (h.exclusive q pass _ _ entry hq hget rfl rfl)
      · exact h.uncalled q project' i request' hq c hc
  · intro c hc
    rcases List.mem_cons.mp hc with rfl | hc
    · obtain ⟨e, he, hst⟩ := h.working pass _ entry hget rfl
      exact ⟨e, he, .inl hst⟩
    · exact h.called c hc
  · show ((entry :: s.calls.map (·.entry))).Nodup
    rw [List.nodup_cons]
    refine ⟨?_, h.once⟩
    intro hmem
    obtain ⟨c, hc, heq⟩ := List.mem_map.mp hmem
    exact h.uncalled pass project entry request hget c hc heq

theorem recordOutcome_passes (s : ThrottleState) (project : Text) (entry : Nat)
    (outcome : CreateOutcome) : (recordOutcome s project entry outcome).passes = s.passes ∧
      (recordOutcome s project entry outcome).calls = s.calls ∧
      (recordOutcome s project entry outcome).nextId = s.nextId := by
  cases outcome <;> exact ⟨rfl, rfl, rfl⟩

theorem get_recordOutcome_ne {entry i : Nat} (hi : i ≠ entry) (project : Text)
    (outcome : CreateOutcome) :
    (recordOutcome s project entry outcome).entries.get i = s.entries.get i := by
  cases outcome <;> simp only [recordOutcome, Assoc.get_mapVal, hi, if_false, Option.map_id']

theorem get_recordOutcome_self {entry : Nat} {e : QueueEntry} (he : s.entries.get entry = some e)
    (project : Text) (outcome : CreateOutcome) :
    ∃ e', (recordOutcome s project entry outcome).entries.get entry = some e' ∧
      (e'.status = .created ∨ e'.status = .failed) := by
  cases outcome with
  | created number url =>
    simp only [recordOutcome, Assoc.get_mapVal, he, Option.map_some, if_true]
    exact ⟨_, rfl, .inl rfl⟩
  | raised message =>
    simp only [recordOutcome, Assoc.get_mapVal, he, Option.map_some, if_true]
    exact ⟨_, rfl, .inr rfl⟩

theorem ThrottleInv.record (h : ThrottleInv s) {pass : Nat} {project : Text} {entry : Nat}
    {outcome : CreateOutcome} (hget : s.passes.get pass = some ⟨project, .called entry outcome⟩) :
    ThrottleInv ((recordOutcome s project entry outcome).endPass pass) := by
  obtain ⟨hpasses, hcalls, hnext⟩ := recordOutcome_passes s project entry outcome
  obtain ⟨e, he, -⟩ := h.working pass _ entry hget rfl
  obtain ⟨e', he', hst'⟩ := get_recordOutcome_self he project outcome
  have hold : ∀ q pass', ((recordOutcome s project entry outcome).endPass pass).passes.get q =
      some pass' → s.passes.get q = some pass' ∧ q ≠ pass := by
    intro q pass' hq
    refine ⟨by rw [← hpasses]; exact get_endPass hq, ?_⟩
    rintro rfl
    unfold ThrottleState.endPass at hq
    rw [Assoc.get_del_self] at hq
    cases hq
  refine ⟨?_, ?_, ?_, ?_, ?_, ?_⟩
  · intro i e₁ he₁
    show i < (recordOutcome s project entry outcome).nextId
    rw [hnext]
    by_cases hi : i = entry
    · exact hi ▸ h.fresh entry e he
    · exact h.fresh i e₁ (by rw [← get_recordOutcome_ne hi project outcome]; exact he₁)
  · intro q pass' i hq hw
    obtain ⟨hq, hne⟩ := hold q pass' hq
    obtain ⟨e₁, he₁, hst⟩ := h.working q pass' i hq hw
    have hi : i ≠ entry := fun heq => hne (h.exclusive q pass _ _ i hq hget hw (heq ▸ rfl))
    exact ⟨e₁, (get_recordOutcome_ne hi project outcome).trans he₁, hst⟩
  · intro p q pass₁ pass₂ i hp hq hw₁ hw₂
    exact h.exclusive p q pass₁ pass₂ i (hold p pass₁ hp).1 (hold q pass₂ hq).1 hw₁ hw₂
  · intro q project' i request hq c hc
    exact h.uncalled q project' i request (hold q _ hq).1 c (hcalls ▸ hc)
  · intro c hc
    by_cases hi : c.entry = entry
    · exact ⟨e', by rw [hi]; exact he', .inr hst'⟩
    · obtain ⟨e₁, he₁, hst⟩ := h.called c (hcalls ▸ hc)
      exact ⟨e₁, (get_recordOutcome_ne hi project outcome).trans he₁, hst⟩
  · show ((recordOutcome s project entry outcome).calls.map (·.entry)).Nodup
    rw [hcalls]
    exact h.once

theorem canFlip_pending {e : QueueEntry} (h : canFlip s e = true) :
    e.status = .pending ∧ e.taskRun ∉ s.endedRuns := by
  unfold canFlip at h
  simpa using h

theorem ThrottleInv.step (h : ThrottleInv s) {a : ThrottleAction}
    (hstep : throttleStep config s a = some s') : ThrottleInv s' := by
  rcases throttleStep_cases hstep with hq | ⟨run, project, request, rfl⟩ |
    ⟨pass, project, entry, e, -, -, hentry, hflip, rfl⟩ |
    ⟨pass, project, entry, request, outcome, hget, rfl⟩ | ⟨pass, project, entry, outcome, hget, rfl⟩
  · exact h.quiet hq
  · exact h.enqueue run project request
  · exact h.flip hentry (canFlip_pending hflip).1 e.request
  · exact h.createPr outcome hget
  · exact h.record hget

/-! ## Moves of an entry -/

/-- Every step moves every entry along the allowed edges. -/
theorem ThrottleInv.moves (h : ThrottleInv s) {a : ThrottleAction}
    (hstep : throttleStep config s a = some s') {i : Nat} {e : QueueEntry}
    (he : s.entries.get i = some e) :
    ∃ e', s'.entries.get i = some e' ∧ Moves e.status e'.status := by
  rcases throttleStep_cases hstep with hq | ⟨run, project, request, rfl⟩ |
    ⟨pass, project, entry, e₁, -, -, hentry, hflip, rfl⟩ |
    ⟨pass, project, entry, request, outcome, hget, rfl⟩ | ⟨pass, project, entry, outcome, hget, rfl⟩
  · obtain ⟨f, hf, hget⟩ := hq.entries
    refine ⟨f i e, by rw [hget, he]; rfl, ?_⟩
    rcases hf i e with hs | ⟨hp, hc⟩
    · exact .inl hs.symm
    · exact .inr (.inl ⟨hp, .inr hc⟩)
  · exact ⟨e, get_enqueue h he, .inl rfl⟩
  · have hget := get_flipTo s pass project entry e₁.request i
    by_cases hi : i = entry
    · refine ⟨{ e with status := .creating }, ?_, ?_⟩
      · refine hget.trans ?_
        rw [he]
        simp [hi]
      · rw [hi, hentry] at he
        rw [← Option.some.inj he]
        exact .inr (.inl ⟨(canFlip_pending hflip).1, .inl rfl⟩)
    · refine ⟨e, ?_, .inl rfl⟩
      refine hget.trans ?_
      rw [he]
      simp [hi]
  · exact ⟨e, he, .inl rfl⟩
  · by_cases hi : i = entry
    · obtain ⟨e₀, he₀, hst⟩ := h.working pass _ entry hget rfl
      obtain ⟨e', he', hst'⟩ := get_recordOutcome_self he₀ project outcome
      refine ⟨e', by rw [hi]; exact he', ?_⟩
      rw [hi, he₀] at he
      rw [← Option.some.inj he, hst]
      exact .inr (.inr ⟨rfl, hst'⟩)
    · exact ⟨e, (get_recordOutcome_ne hi project outcome).trans he, .inl rfl⟩

/-- An entry begins as a pending one. -/
theorem begins_pending {a : ThrottleAction} (hstep : throttleStep config s a = some s') {i : Nat}
    {e' : QueueEntry} (hnone : s.entries.get i = none) (he' : s'.entries.get i = some e') :
    e'.status = .pending := by
  rcases throttleStep_cases hstep with hq | ⟨run, project, request, rfl⟩ |
    ⟨pass, project, entry, e, -, -, -, -, rfl⟩ |
    ⟨pass, project, entry, request, outcome, -, rfl⟩ | ⟨pass, project, entry, outcome, -, rfl⟩
  · obtain ⟨f, -, hget⟩ := hq.entries
    rw [hget, hnone] at he'
    cases he'
  · unfold enqueue at he'
    rw [Assoc.get_cons, hnone] at he'
    split_ifs at he'
    rw [← Option.some.inj he']
  · have hget := get_flipTo s pass project entry e.request i
    rw [hnone] at hget
    rw [show (flipTo s pass project entry e.request).entries.get i = some e' from he'] at hget
    cases hget
  · rw [show s.entries.get i = some e' from he'] at hnone
    cases hnone
  · have hget : (recordOutcome s project entry outcome).entries.get i = none := by
      cases outcome <;> simp only [recordOutcome, Assoc.get_mapVal, hnone, Option.map_none]
    rw [show (recordOutcome s project entry outcome).entries.get i = some e' from he'] at hget
    cases hget

end

/-! ## Whole runs -/

/-- The entry was flipped in the run, by a pass that had chosen it: at that point it was pending, its
run had not ended, and it had never been cancelled before. -/
def FlippedLive (config : Text → QuotaConfig) (as : List ThrottleAction) (i : Nat) : Prop :=
  ∃ before pass after project s e, as = before ++ .flip pass :: after ∧
    Runs.exec (throttleStep config) {} before = some s ∧
    s.passes.get pass = some ⟨project, .selected i⟩ ∧ s.entries.get i = some e ∧
    e.status = .pending ∧ e.taskRun ∉ s.endedRuns ∧
    ∀ pre s₀ e₀, pre <+: before → Runs.exec (throttleStep config) {} pre = some s₀ →
      s₀.entries.get i = some e₀ → e₀.status ≠ .cancelled

theorem FlippedLive.concat {as : List ThrottleAction} {i : Nat} (h : FlippedLive config as i)
    (a : ThrottleAction) : FlippedLive config (as ++ [a]) i := by
  obtain ⟨before, pass, after, project, s, e, rfl, hrest⟩ := h
  exact ⟨before, pass, after ++ [a], project, s, e, by simp, hrest⟩

theorem throttleInv_run {as : List ThrottleAction} {t : ThrottleState}
    (h : Runs.exec (throttleStep config) {} as = some t) : ThrottleInv t :=
  Runs.invariant (P := ThrottleInv) (fun _ _ _ hs hstep => hs.step hstep) throttleInv_init h

/-- A cancelled entry stays cancelled. -/
theorem cancelled_run {as : List ThrottleAction} {s t : ThrottleState} {i : Nat} {e : QueueEntry}
    (hinv : ThrottleInv s) (he : s.entries.get i = some e) (hc : e.status = .cancelled)
    (h : Runs.exec (throttleStep config) s as = some t) :
    ∃ e', t.entries.get i = some e' ∧ e'.status = .cancelled := by
  have hrun : ThrottleInv t ∧ ∃ e', t.entries.get i = some e' ∧ e'.status = .cancelled := by
    refine Runs.invariant (P := fun s => ThrottleInv s ∧
      ∃ e', s.entries.get i = some e' ∧ e'.status = .cancelled) ?_ ⟨hinv, e, he, hc⟩ h
    rintro s₁ a s₂ ⟨hinv₁, e₁, he₁, hc₁⟩ hstep
    obtain ⟨e₂, he₂, hm⟩ := hinv₁.moves hstep he₁
    refine ⟨hinv₁.step hstep, e₂, he₂, ?_⟩
    rw [hc₁] at hm
    rcases hm with hm | ⟨hm, -⟩ | ⟨hm, -⟩
    · exact hm.symm
    · cases hm
    · cases hm
  exact hrun.2

/-- `create_pr` was called for the entry, or a pass has it flipped. -/
def Engaged (s : ThrottleState) (i : Nat) : Prop :=
  (∃ c ∈ s.calls, c.entry = i) ∨ ∃ p pass, s.passes.get p = some pass ∧ pass.phase.working = some i

/-- An entry becomes engaged by a flip only. -/
theorem engaged_step {s s' : ThrottleState} {a : ThrottleAction}
    (hstep : throttleStep config s a = some s') {i : Nat} (hi : Engaged s' i) :
    Engaged s i ∨ ∃ pass project e, a = .flip pass ∧
      s.passes.get pass = some ⟨project, .selected i⟩ ∧ s.entries.get i = some e ∧
      canFlip s e = true := by
  rcases throttleStep_cases hstep with hq | ⟨run, project, request, rfl⟩ |
    ⟨pass, project, entry, e, rfl, hsel, hentry, hflip, rfl⟩ |
    ⟨pass, project, entry, request, outcome, hget, rfl⟩ | ⟨pass, project, entry, outcome, hget, rfl⟩
  · left
    rcases hi with ⟨c, hc, hci⟩ | ⟨p, pass, hp, hw⟩
    · exact .inl ⟨c, hq.calls ▸ hc, hci⟩
    · refine .inr ⟨p, pass, (hq.passes p pass hp).resolve_left (fun hn => ?_), hw⟩
      rw [hw] at hn
      cases hn
  · exact .inl hi
  · rcases hi with hc | ⟨p, pass', hp, hw⟩
    · exact .inl (.inl hc)
    · rw [get_setPass] at hp
      split_ifs at hp with hpp
      · rw [← Option.some.inj hp] at hw
        have heq : entry = i := Option.some.inj hw
        subst heq
        exact .inr ⟨pass, project, e, rfl, hsel, hentry, hflip⟩
      · exact .inl (.inr ⟨p, pass', hp, hw⟩)
  · left
    rcases hi with ⟨c, hc, hci⟩ | ⟨p, pass', hp, hw⟩
    · rcases List.mem_cons.mp hc with rfl | hc
      · exact .inr ⟨pass, _, hget, congrArg some hci⟩
      · exact .inl ⟨c, hc, hci⟩
    · rw [get_setPass] at hp
      split_ifs at hp with hpp
      · rw [← Option.some.inj hp] at hw
        exact .inr ⟨pass, _, hget, hw⟩
      · exact .inr ⟨p, pass', hp, hw⟩
  · left
    obtain ⟨hpasses, hcalls, -⟩ := recordOutcome_passes s project entry outcome
    rcases hi with ⟨c, hc, hci⟩ | ⟨p, pass', hp, hw⟩
    · exact .inl ⟨c, hcalls ▸ hc, hci⟩
    · exact .inr ⟨p, pass', by rw [← hpasses]; exact get_endPass hp, hw⟩

theorem engaged_flippedLive {as : List ThrottleAction} {t : ThrottleState}
    (h : Runs.exec (throttleStep config) {} as = some t) : ∀ i, Engaged t i → FlippedLive config as i := by
  refine Runs.history_invariant (P := fun as t => ∀ i, Engaged t i → FlippedLive config as i) ?_ ?_ h
  · rintro i (⟨c, hc, -⟩ | ⟨p, pass, hp, -⟩)
    · cases hc
    · cases hp
  · intro bs s a s' hrun hP hstep i hi
    rcases engaged_step hstep hi with hi | ⟨pass, project, e, rfl, hsel, hentry, hflip⟩
    · exact (hP i hi).concat a
    · obtain ⟨hpending, hlive⟩ := canFlip_pending hflip
      refine ⟨bs, pass, [], project, s, e, rfl, hrun, hsel, hentry, hpending, hlive, ?_⟩
      -- an entry that was cancelled before would still be, and this one is pending
      rintro pre s₀ e₀ ⟨rest, rfl⟩ hpre he₀ hc
      obtain ⟨u, hu, hrest⟩ := Runs.exec_append hrun
      rw [hpre] at hu
      rw [← Option.some.inj hu] at hrest
      obtain ⟨e', he', hc'⟩ := cancelled_run (throttleInv_run hpre) he₀ hc hrest
      rw [hentry] at he'
      rw [← Option.some.inj he', hpending] at hc'
      cases hc'

/-- In every run, in any order of its steps: `create_pr` is called at most once for an entry, and only
for one that a pass flipped while it was pending, its run live, and that had never been cancelled; and
every entry begins pending and moves along the allowed edges only. -/
theorem create_at_most_once {as : List ThrottleAction} {t : ThrottleState}
    (h : Runs.exec (throttleStep config) {} as = some t) :
    (t.calls.map (·.entry)).Nodup ∧ (∀ c ∈ t.calls, FlippedLive config as c.entry) ∧
      ∀ before a after s s', as = before ++ a :: after →
        Runs.exec (throttleStep config) {} before = some s → throttleStep config s a = some s' →
        (∀ i e, s.entries.get i = some e →
          ∃ e', s'.entries.get i = some e' ∧ Moves e.status e'.status) ∧
        ∀ i e', s.entries.get i = none → s'.entries.get i = some e' → e'.status = .pending := by
  refine ⟨(throttleInv_run h).once, ?_, ?_⟩
  · intro c hc
    exact engaged_flippedLive h c.entry (.inl ⟨c, hc, rfl⟩)
  · intro before a after s s' _ hbefore hstep
    have hinv := throttleInv_run hbefore
    exact ⟨fun i e he => hinv.moves hstep he, fun i e' hnone he' => begins_pending hstep hnone he'⟩

/-- A configuration that lets every pass through. -/
def openQuota : Text → QuotaConfig := fun _ => ⟨false, 0, 60, by decide⟩

/-- Two passes race for the one entry; only the first flips it. -/
def racingRun : List ThrottleAction :=
  [.enqueue 1 [] {}, .beginPass 0 [], .beginPass 1 [], .checkQuota 0, .checkQuota 1, .select 0,
    .select 1, .flip 0, .flip 1, .createPr 0 (.created 7 []), .record 0]

theorem create_at_most_once_racing :
    ∃ t, Runs.exec (throttleStep openQuota) {} racingRun = some t ∧ t.calls.length = 1 ∧
      (t.calls.map (·.entry)).Nodup ∧ ∀ c ∈ t.calls, FlippedLive openQuota racingRun c.entry :=
  have h := @create_at_most_once openQuota racingRun _ rfl
  ⟨_, rfl, rfl, h.1, h.2.1⟩

end Supervisor

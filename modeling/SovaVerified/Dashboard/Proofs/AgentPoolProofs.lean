import SovaVerified.Runs.Runs
import SovaVerified.Dashboard.AgentPool

/-!
# What the pool holds

The room in the pool and the agents of an issue are checked by the task that holds the lock, and nobody else
changes the pool before it registers its agent. So the pool is never too full. The agents of an issue are found
by the text of its number, which a command does not normalise: an issue under two spellings is taken for two.
-/

namespace Dashboard

/-! ## Issues and their spellings -/

/-- The number that a text names an issue by, without what may stand around it. -/
def issueOf (t : Text) : Text :=
  ((t.dropWhile fun ch => ch == '#' || Text.isSpace ch).reverse.dropWhile Text.isSpace).reverse

/-- Two texts name the same issue. -/
def sameIssue (t t' : Text) : Bool := !(issueOf t).isEmpty && issueOf t == issueOf t'

/-- An agent of an issue that is in the pool already was started with force. -/
def PoolSystem.OnePerIssue (s : PoolSystem) : Prop :=
  s.entries.Pairwise fun e e' => sameIssue e.agent.issue e'.agent.issue = true → e'.forced = true

instance (s : PoolSystem) : Decidable s.OnePerIssue := by
  unfold PoolSystem.OnePerIssue
  infer_instance

/-- When a start that is not forced launches its agent, the agents of its issue in the pool are spelled as
it is. -/
def spelledAlike (s : PoolSystem) : PoolAction → Bool
  | .launch =>
    match s.lock with
    | some (.admitted start) => start.force || s.entries.all fun e =>
        !sameIssue e.agent.issue start.issue || e.agent.issue == start.issue
    | _ => true
  | _ => true

/-! ## What the operations do to the pool -/

theorem checkIssueConflict_pool (kill : Int → Signalled) (dbFails force : Bool) (now : Nat) (issue : Text)
    (c : Control) : (checkIssueConflict kill dbFails now issue force c).2.pool = c.pool := by
  unfold checkIssueConflict
  split
  · rfl
  · split
    · rfl
    · rfl

/-- Without a conflict, no agent of the pool has the issue, unless the start is forced. -/
theorem checkIssueConflict_clear {kill : Int → Signalled} {dbFails force : Bool} {now : Nat} {issue : Text}
    {c : Control} (h : (checkIssueConflict kill dbFails now issue force c).1 = none) :
    force = true ∨ ∀ a ∈ c.pool.agents, a.issue ≠ issue := by
  cases force with
  | true => exact .inl rfl
  | false =>
    refine .inr fun a ha heq => ?_
    unfold checkIssueConflict at h
    cases hpool : poolConflict c issue with
    | some e =>
      simp only [hpool, Bool.false_eq_true, if_false] at h
      cases h
    | none =>
      have hfind := Option.map_eq_none_iff.mp hpool
      have := List.find?_eq_none.mp hfind a ha
      simp [heq] at this

/-- An admitted start has room in the pool and, unless it is forced, no other agent under its issue. -/
structure Clear (start : PreparedStart) (c : Control) : Prop where
  room : c.pool.agents.length < c.pool.maxConcurrent
  alone : start.issue = [] ∨ start.force = true ∨ ∀ a ∈ c.pool.agents, a.issue ≠ start.issue

theorem admitStart_pool (start : PreparedStart) (c : Control) : (start.admitStart c).2.pool = c.pool := by
  cases start with
  | agent o req =>
    show (Dashboard.admitStart o req c).2.pool = c.pool
    unfold Dashboard.admitStart checkIssue
    split
    · rfl
    · split
      · rfl
      · have hpool := checkIssueConflict_pool o.kill o.conflictFails req.force o.now req.issue c
        split
        · rename_i heq
          rw [heq] at hpool
          exact hpool
        · rename_i heq
          rw [heq] at hpool
          exact hpool
  | command o start =>
    show (admitCommand o start c).2.pool = c.pool
    unfold admitCommand
    split
    · rfl
    · split
      · rfl
      · exact checkIssueConflict_pool o.kill o.conflictFails false o.now start.issue c

theorem admitStart_clear {start : PreparedStart} {c : Control} (h : (start.admitStart c).1 = none) :
    Clear start c := by
  cases start with
  | agent o req =>
    have hadmitted : (Dashboard.admitStart o req c).1 = none := h
    unfold Dashboard.admitStart at hadmitted
    split at hadmitted
    · cases hadmitted
    · rename_i hroom
      refine ⟨by omega, ?_⟩
      unfold checkIssue at hadmitted
      split at hadmitted
      · rename_i hempty
        exact .inl (List.isEmpty_iff.mp hempty)
      · split at hadmitted
        · cases hadmitted
        · rename_i heq
          exact .inr (checkIssueConflict_clear (congrArg Prod.fst heq))
  | command o start =>
    have hadmitted : (admitCommand o start c).1 = none := h
    unfold admitCommand at hadmitted
    split at hadmitted
    · cases hadmitted
    · rename_i hroom
      refine ⟨by omega, ?_⟩
      split at hadmitted
      · rename_i hempty
        exact .inl (List.isEmpty_iff.mp hempty)
      · exact .inr (checkIssueConflict_clear hadmitted)

/-- A launch registers the agent of the start, or nobody. -/
def Registers (start : PreparedStart) (c c' : Control) : Prop :=
  c'.pool.agents = c.pool.agents ∨
    ∃ runId, c'.pool.agents = c.pool.agents ++ [{ runId := runId, issue := start.issue }]

theorem launch_registers (start : PreparedStart) (c : Control) :
    Registers start c (start.launch c).2 := by
  cases start with
  | agent o req =>
    show Registers (.agent o req) c (launchStart o req c).2
    unfold launchStart
    split
    · exact .inl rfl
    · split
      · exact .inl rfl
      · dsimp only
        split
        · exact .inl rfl
        · unfold spawnStart
          split
          · dsimp only
            split <;> exact .inl rfl
          · dsimp only
            split <;> exact .inr ⟨_, rfl⟩
  | command o start =>
    show Registers (.command o start) c (launchCommand o start c).2
    unfold launchCommand
    split
    · exact .inl rfl
    · split
      · exact .inl rfl
      · split
        · exact .inl rfl
        · dsimp only
          split
          · exact .inl rfl
          · unfold spawnCommand
            split
            · dsimp only
              split <;> exact .inl rfl
            · dsimp only
              split <;> exact .inr ⟨_, rfl⟩

/-! ## What a step of the holder does to the entries -/

theorem withControl_entries_same {s : PoolSystem} {c : Control} (h : c.pool = s.control.pool) (forced : Bool) :
    (s.withControl c forced).entries = s.entries := by
  have hagents : c.pool.agents = s.entries.map PoolEntry.agent := congrArg ProjectAgents.agents h
  have hnone : c.pool.agents.drop s.entries.length = [] := by
    rw [hagents]
    exact List.drop_eq_nil_of_le (by simp)
  simp [PoolSystem.withControl, hnone]

/-- The entries after a launch. -/
theorem launch_entries (s : PoolSystem) (start : PreparedStart) :
    (s.withControl (start.launch s.control).2 start.force).entries = s.entries ∨
      ∃ runId, (s.withControl (start.launch s.control).2 start.force).entries =
        s.entries ++ [{ agent := { runId := runId, issue := start.issue }, forced := start.force }] := by
  have hlength : s.control.pool.agents.length = s.entries.length := by simp [PoolSystem.control]
  rcases launch_registers start s.control with hsame | ⟨runId, hnew⟩
  · left
    have hnone : (start.launch s.control).2.pool.agents.drop s.entries.length = [] := by
      rw [hsame, ← hlength]
      exact List.drop_length
    simp [PoolSystem.withControl, hnone]
  · right
    refine ⟨runId, ?_⟩
    have hone : (start.launch s.control).2.pool.agents.drop s.entries.length =
        [{ runId := runId, issue := start.issue }] := by
      rw [hnew, ← hlength]
      exact List.drop_left
    simp [PoolSystem.withControl, hone]

/-! ## Capacity -/

/-- The invariant of the lock: the pool has its size, and what the holder has checked still holds. -/
structure PoolInv (limit : Nat) (s : PoolSystem) : Prop where
  fixed : s.maxConcurrent = limit
  size : s.entries.length ≤ limit
  holder : ∀ start, s.lock = some (.admitted start) → Clear start s.control

theorem PoolInv.free {limit : Nat} {s s' : PoolSystem} (h : PoolInv limit s)
    (hmax : s'.maxConcurrent = s.maxConcurrent) (hentries : s'.entries.Sublist s.entries)
    (hlock : ∀ start, s'.lock ≠ some (.admitted start)) : PoolInv limit s' :=
  ⟨hmax.trans h.fixed, hentries.length_le.trans h.size, fun start hs => absurd hs (hlock start)⟩

/-- A step that leaves the pool and the lock alone. -/
theorem PoolInv.frame {limit : Nat} {s s' : PoolSystem} (h : PoolInv limit s)
    (hmax : s'.maxConcurrent = s.maxConcurrent) (hentries : s'.entries = s.entries) (hlock : s'.lock = s.lock) :
    PoolInv limit s' := by
  refine ⟨hmax.trans h.fixed, hentries ▸ h.size, fun start hs => ?_⟩
  have hclear := h.holder start (hlock ▸ hs)
  have hpool : s'.control.pool = s.control.pool := by simp [PoolSystem.control, hentries, hmax]
  exact ⟨hpool ▸ hclear.room, hpool ▸ hclear.alone⟩

/-- What a step does to the entries: it takes some away, or the holder of the lock launches its agent. -/
inductive EntryChange (s s' : PoolSystem) (act : PoolAction) : Prop where
  | shrinks (h : s'.entries.Sublist s.entries)
  | grows (start : PreparedStart) (runId : Nat) (hact : act = .launch)
      (hlock : s.lock = some (.admitted start))
      (h : s'.entries = s.entries ++ [{ agent := { runId := runId, issue := start.issue },
                                        forced := start.force }])

/-- One step keeps the invariant and changes the entries as `EntryChange` says. -/
theorem pool_step {limit : Nat} {s s' : PoolSystem} {act : PoolAction} (h : PoolInv limit s)
    (hstep : s.step act = some s') : PoolInv limit s' ∧ EntryChange s s' act := by
  have hkeep : ∀ {t : PoolSystem}, t.maxConcurrent = s.maxConcurrent → t.entries = s.entries →
      t.lock = s.lock → PoolInv limit t ∧ EntryChange s t act := by
    intro t hmax hentries hlock
    exact ⟨h.frame hmax hentries hlock, .shrinks (hentries ▸ List.Sublist.refl _)⟩
  have hfree : ∀ {t : PoolSystem}, t.maxConcurrent = s.maxConcurrent → t.entries.Sublist s.entries →
      (∀ start, t.lock ≠ some (.admitted start)) → PoolInv limit t ∧ EntryChange s t act := by
    intro t hmax hsub hlock
    exact ⟨h.free hmax hsub hlock, .shrinks hsub⟩
  cases act with
  | prepareAgent o req =>
    dsimp only [PoolSystem.step] at hstep
    split at hstep
    · cases hstep
      exact hkeep rfl rfl rfl
    · split at hstep <;> cases hstep <;> exact hkeep rfl rfl rfl
  | prepareCommand o req =>
    dsimp only [PoolSystem.step] at hstep
    split at hstep
    · cases hstep
      exact hkeep rfl rfl rfl
    · split at hstep <;> cases hstep <;> exact hkeep rfl rfl rfl
  | acquire i =>
    dsimp only [PoolSystem.step] at hstep
    split at hstep
    · cases hstep
      exact hfree rfl (List.Sublist.refl _) (fun _ hlock => nomatch hlock)
    · cases hstep
  | admitStart =>
    dsimp only [PoolSystem.step] at hstep
    split at hstep
    · rename_i start hlock
      have hpool := admitStart_pool start s.control
      split at hstep
      · rename_i hadmitted
        cases hstep
        rw [hadmitted] at hpool
        have hentries := withControl_entries_same hpool start.force
        refine hfree rfl ?_ (fun _ hl => nomatch hl)
        exact hentries ▸ List.Sublist.refl _
      · rename_i c hadmitted
        cases hstep
        rw [hadmitted] at hpool
        have hentries := withControl_entries_same hpool start.force
        have hclear : Clear start s.control := admitStart_clear (congrArg Prod.fst hadmitted)
        have hsub : (s.withControl c start.force).entries.Sublist s.entries :=
          hentries ▸ List.Sublist.refl _
        refine ⟨⟨h.fixed, hsub.length_le.trans h.size, ?_⟩, .shrinks hsub⟩
        intro start' hl
        cases hl
        have hcontrol : ({ s.withControl c start.force with lock := some (.admitted start) } :
            PoolSystem).control.pool = s.control.pool := by
          show ({ agents := (s.withControl c start.force).entries.map PoolEntry.agent,
                  maxConcurrent := s.maxConcurrent } : ProjectAgents) = s.control.pool
          rw [hentries]
          rfl
        exact ⟨hcontrol ▸ hclear.room, hcontrol ▸ hclear.alone⟩
    · cases hstep
  | launch =>
    dsimp only [PoolSystem.step] at hstep
    split at hstep
    · rename_i start hlock
      cases hstep
      rcases launch_entries s start with hsame | ⟨runId, hnew⟩
      · refine hfree rfl ?_ (fun _ hl => nomatch hl)
        exact hsame ▸ List.Sublist.refl _
      · have hroom := (h.holder start hlock).room
        have hlength : s.entries.length < limit := by
          rw [← h.fixed]
          simpa [PoolSystem.control] using hroom
        refine ⟨⟨h.fixed, ?_, fun _ hl => nomatch hl⟩, .grows start runId rfl hlock hnew⟩
        show (s.withControl (start.launch s.control).2 start.force).entries.length ≤ limit
        rw [hnew, List.length_append, List.length_singleton]
        omega
    · cases hstep
  | beginStop =>
    dsimp only [PoolSystem.step] at hstep
    split at hstep
    · cases hstep
      exact hfree rfl (List.Sublist.refl _) (fun _ hlock => nomatch hlock)
    · cases hstep
  | endStop =>
    dsimp only [PoolSystem.step] at hstep
    split at hstep
    · cases hstep
      exact hfree rfl (List.Sublist.refl _) (fun _ hlock => nomatch hlock)
    · cases hstep
  | cancel =>
    cases hstep
    exact hfree rfl (List.Sublist.refl _) (fun _ hlock => nomatch hlock)
  | finalize runId =>
    dsimp only [PoolSystem.step] at hstep
    split at hstep
    · rename_i hfreeLock
      cases hstep
      refine hfree rfl List.filter_sublist (fun start hlock => ?_)
      rw [show s.lock = some (.admitted start) from hlock] at hfreeLock
      cases hfreeLock
    · cases hstep
  | write runs =>
    cases hstep
    exact hkeep rfl rfl rfl

/-! ## One agent for an issue -/

theorem not_sameIssue_nil (t : Text) : sameIssue t [] = false := by
  unfold sameIssue
  cases h : (issueOf t).isEmpty with
  | true => rfl
  | false =>
    have hne : issueOf t ≠ issueOf [] := by
      intro heq
      rw [heq] at h
      cases h
    simpa using hne

/-- A launched agent finds another one of its issue in the pool only when it is forced. -/
theorem sameIssue_forced {limit : Nat} {s : PoolSystem} {start : PreparedStart} (h : PoolInv limit s)
    (hlock : s.lock = some (.admitted start)) (hspelled : spelledAlike s .launch = true) :
    ∀ e ∈ s.entries, sameIssue e.agent.issue start.issue = true → start.force = true := by
  intro e he hsame
  have hguard : (start.force || s.entries.all fun e =>
      !sameIssue e.agent.issue start.issue || e.agent.issue == start.issue) = true := by
    unfold spelledAlike at hspelled
    rw [hlock] at hspelled
    exact hspelled
  rcases Bool.or_eq_true_iff.mp hguard with hforce | hall
  · exact hforce
  · have hspelling : e.agent.issue = start.issue := by
      have := List.all_eq_true.mp hall e he
      simpa [hsame] using this
    rcases (h.holder start hlock).alone with hempty | hforce | hnone
    · rw [hempty, not_sameIssue_nil] at hsame
      cases hsame
    · exact hforce
    · exact absurd hspelling (hnone e.agent (List.mem_map_of_mem (f := PoolEntry.agent) he))

theorem onePerIssue_step {limit : Nat} {s s' : PoolSystem} {act : PoolAction} (h : PoolInv limit s)
    (hone : s.OnePerIssue) (hspelled : spelledAlike s act = true) (hstep : s.step act = some s') :
    s'.OnePerIssue := by
  rcases (pool_step h hstep).2 with hsub | ⟨start, runId, rfl, hlock, hnew⟩
  · exact hone.sublist hsub
  · unfold PoolSystem.OnePerIssue
    rw [hnew, List.pairwise_append]
    refine ⟨hone, List.pairwise_singleton _ _, fun e he e' he' => ?_⟩
    rw [List.mem_singleton.mp he']
    exact sameIssue_forced h hlock hspelled e he

/-- From an empty pool, every interleaving keeps the pool within its size; and as long as no start launches
next to an agent of its issue under another spelling, an issue has a second agent in the pool only by force. -/
theorem pool_capacity_and_one_per_issue {s₀ t : PoolSystem} {acts : List PoolAction} (hempty : s₀.entries = [])
    (hfree : s₀.lock = none) (hrun : Runs.exec PoolSystem.step s₀ acts = some t) :
    t.entries.length ≤ s₀.maxConcurrent ∧
      (Runs.Meets PoolSystem.step (fun s act => spelledAlike s act = true) s₀ acts → t.OnePerIssue) := by
  have hstart : PoolInv s₀.maxConcurrent s₀ := by
    refine ⟨rfl, by simp [hempty], fun start hlock => ?_⟩
    rw [hfree] at hlock
    cases hlock
  constructor
  · have hinv := Runs.invariant (P := PoolInv s₀.maxConcurrent)
      (fun _ _ _ hP hs => (pool_step hP hs).1) hstart hrun
    exact hinv.size
  · intro hmeets
    have hone : s₀.OnePerIssue := by simp [PoolSystem.OnePerIssue, hempty]
    have hinv := Runs.invariant_of_guard (P := fun s => PoolInv s₀.maxConcurrent s ∧ s.OnePerIssue)
      (fun _ _ _ hP hg hs => ⟨(pool_step hP.1 hs).1, onePerIssue_step hP.1 hP.2 hg hs⟩)
      ⟨hstart, hone⟩ hmeets hrun
    exact hinv.2

/-- The answers to a start that nothing holds back. -/
def plainStart (pid : Int) : StartOutside :=
  { now := 1, kill := fun _ => .sent, spawn := .ok pid }

/-- The steps of a start that gets the lock at once. -/
def startSteps (prepare : PoolAction) : List PoolAction := [prepare, .acquire 0, .admitStart, .launch]

/-- Two agents for one issue, the second one by force. -/
theorem pool_forced_second :
    let s₀ : PoolSystem := {}
    let acts := startSteps (.prepareAgent (plainStart 7) { issue := "42".toList }) ++
      startSteps (.prepareAgent (plainStart 8) { issue := "#42".toList, force := true })
    ∃ t, Runs.exec PoolSystem.step s₀ acts = some t ∧ t.entries.length = 2 ∧
      t.entries.length ≤ s₀.maxConcurrent ∧ t.OnePerIssue := by
  intro s₀ acts
  obtain ⟨t, ht⟩ : ∃ t, Runs.exec PoolSystem.step s₀ acts = some t := ⟨_, rfl⟩
  have hlength : t.entries.length = 2 := by
    have hlast : (Runs.exec PoolSystem.step s₀ acts).map (fun t => t.entries.length) = some 2 := by
      decide +kernel
    rw [ht] at hlast
    exact Option.some.inj hlast
  obtain ⟨hsize, hone⟩ := pool_capacity_and_one_per_issue rfl rfl ht
  exact ⟨t, ht, hlength, hsize, hone (by decide)⟩

/-- A command for issue `#42` is started next to an agent for issue 42, without force. -/
theorem pool_two_spellings :
    let command : CommandOutside := { now := 2, kill := fun _ => .sent, spawn := .ok 8 }
    let acts := startSteps (.prepareAgent (plainStart 7) { issue := "42".toList }) ++
      startSteps (.prepareCommand command { command := "address-pr".toList, issue := "#42".toList })
    ∃ t, Runs.exec PoolSystem.step {} acts = some t ∧ ¬ t.OnePerIssue := by
  intro command acts
  exact ⟨_, rfl, by decide⟩

end Dashboard

import Mathlib.Algebra.BigOperators.Group.Finset.Basic
import Mathlib.Algebra.BigOperators.Group.List.Basic
import Mathlib.Tactic.Linarith
import SovaVerified.Llm.PhaseUsage

/-!
# What a tally conserves

Whatever phases a run goes through, each message is counted once, with the tokens of its first event, and the
time of the run is shared out among the phases.
-/

namespace Llm.PhaseUsage

open Json

variable {M : Type} [AddCommMonoid M] {tally : PhaseTally} {events : List Json} {event : Json} {id phase : Text}
  {usage : Json} {startedAt now : ℚ} {phases : List Text}

/-! ## What was seen -/

/-- The calls of the events, with their ids and their usage. -/
def calls (events : List Json) : List (Text × Json) := events.filterMap callOf

/-- The ids that were seen. -/
def messageIds (events : List Json) : Finset Text := ((calls events).map Prod.fst).toFinset

/-- The usage in the first event of a message. -/
def firstUsage (events : List Json) (id : Text) : Json := (Assoc.get (calls events) id).getD .null

/-- The phases that an event switches to. -/
def phasesOf (event : Json) : List Text :=
  match (messageOf event).map blocksOf with
  | some (.ok blocks) => blocks.filterMap blockPhase
  | _ => []

/-- The columns of tokens, with their keys. -/
def columns : List ((PhaseBucket → Nat) × Text) :=
  [(PhaseBucket.inputTokens, "input_tokens".toList), (PhaseBucket.cacheReadTokens, "cache_read_input_tokens".toList),
    (PhaseBucket.cacheWriteTokens, "cache_creation_input_tokens".toList)]

/-! ## Totals -/

def total (f : PhaseBucket → M) (tally : PhaseTally) : M := (tally.buckets.map fun entry => f entry.2).sum

theorem sum_set {β : Type} {f : β → M} {m : Assoc Text β} {k : Text} {v v' : β} {d : M}
    (hget : Assoc.get m k = some v) (hd : f v' = f v + d) :
    ((Assoc.set m k v').map fun entry => f entry.2).sum = (m.map fun entry => f entry.2).sum + d := by
  induction m with
  | nil => cases hget
  | cons entry m ih =>
    obtain ⟨x, w⟩ := entry
    rw [Assoc.get_cons] at hget
    unfold Assoc.set
    by_cases hx : x = k
    · rw [if_pos hx.symm] at hget
      obtain rfl : w = v := Option.some.inj hget
      rw [if_pos hx, List.map_cons, List.sum_cons, List.map_cons, List.sum_cons, hd, add_right_comm]
    · rw [if_neg (fun heq => hx heq.symm)] at hget
      rw [if_neg hx, List.map_cons, List.sum_cons, List.map_cons, List.sum_cons, ih hget, add_assoc]

/-- There is a bucket for the phase in effect. -/
def HasCurrent (tally : PhaseTally) : Prop := tally.current ∈ tally.buckets.map Prod.fst

theorem HasCurrent.get (h : HasCurrent tally) : ∃ bucket, Assoc.get tally.buckets tally.current = some bucket :=
  Option.isSome_iff_exists.mp (Assoc.get_isSome_iff.mpr h)

theorem total_update (h : HasCurrent tally) {f : PhaseBucket → M} {g : PhaseBucket → PhaseBucket} {d : M}
    (hd : ∀ bucket, f (g bucket) = f bucket + d) : total f (tally.update g) = total f tally + d := by
  obtain ⟨bucket, hget⟩ := h.get
  unfold PhaseTally.update
  rw [hget]
  exact sum_set hget (hd bucket)

/-- What an update leaves. -/
theorem update_frame (tally : PhaseTally) (g : PhaseBucket → PhaseBucket) :
    (tally.update g).current = tally.current ∧ (tally.update g).phaseStartedAt = tally.phaseStartedAt ∧
      (tally.update g).seenMessageIds = tally.seenMessageIds ∧
      (tally.update g).reportedUsage = tally.reportedUsage ∧
      (tally.update g).buckets.map Prod.fst = tally.buckets.map Prod.fst := by
  unfold PhaseTally.update
  cases hget : Assoc.get tally.buckets tally.current with
  | none => exact ⟨rfl, rfl, rfl, rfl, rfl⟩
  | some bucket => exact ⟨rfl, rfl, rfl, rfl, Assoc.map_fst_set hget _⟩

theorem HasCurrent.update (h : HasCurrent tally) (g : PhaseBucket → PhaseBucket) : HasCurrent (tally.update g) := by
  obtain ⟨hcurrent, -, -, -, hkeys⟩ := update_frame tally g
  unfold HasCurrent
  rw [hcurrent, hkeys]
  exact h

/-! ## Switching -/

/-- A new bucket adds nothing. -/
theorem sum_setdefault {f : PhaseBucket → M} (hzero : f {} = 0) (m : Assoc Text PhaseBucket) (phase : Text) :
    ((if (Assoc.get m phase).isSome then m else Assoc.set m phase {}).map fun entry => f entry.2).sum =
      (m.map fun entry => f entry.2).sum := by
  split_ifs with hsome
  · rfl
  · have hnew : phase ∉ m.map Prod.fst := fun hmem => hsome (Assoc.get_isSome_iff.mpr hmem)
    rw [Assoc.set_of_notMem hnew, List.map_append, List.sum_append, List.map_singleton, List.sum_singleton, hzero,
      add_zero]

theorem keys_setdefault (m : Assoc Text PhaseBucket) (phase : Text) :
    (if (Assoc.get m phase).isSome then m else Assoc.set m phase {}).map Prod.fst =
      if phase ∈ m.map Prod.fst then m.map Prod.fst else m.map Prod.fst ++ [phase] := by
  by_cases hmem : phase ∈ m.map Prod.fst
  · rw [if_pos (Assoc.get_isSome_iff.mpr hmem), if_pos hmem]
  · rw [if_neg (fun h => hmem (Assoc.get_isSome_iff.mp h)), if_neg hmem, Assoc.set_of_notMem hmem,
      List.map_append, List.map_singleton]

/-- A switch moves no figure but the time of the phase that it ends. -/
theorem total_switchTo (h : HasCurrent tally) {f : PhaseBucket → M} {d : M} (hzero : f {} = 0)
    (hd : ∀ bucket, f { bucket with
      closedSeconds := bucket.closedSeconds + max (now - tally.phaseStartedAt) 0 } = f bucket + d) :
    total f (tally.switchTo phase now) = total f tally + d := by
  unfold PhaseTally.switchTo total
  dsimp only
  rw [sum_setdefault hzero]
  exact total_update h hd

theorem keys_switchTo (tally : PhaseTally) (phase : Text) (now : ℚ) :
    (tally.switchTo phase now).buckets.map Prod.fst =
      if phase ∈ tally.buckets.map Prod.fst then tally.buckets.map Prod.fst
      else tally.buckets.map Prod.fst ++ [phase] := by
  unfold PhaseTally.switchTo
  dsimp only
  rw [keys_setdefault, (update_frame tally _).2.2.2.2]

theorem mem_keys_switchTo (tally : PhaseTally) (phase : Text) (now : ℚ) (x : Text) :
    x ∈ (tally.switchTo phase now).buckets.map Prod.fst ↔ x = phase ∨ x ∈ tally.buckets.map Prod.fst := by
  rw [keys_switchTo]
  split_ifs with hold
  · refine ⟨.inr, ?_⟩
    rintro (rfl | hx)
    · exact hold
    · exact hx
  · rw [List.mem_append, List.mem_singleton, or_comm]

theorem hasCurrent_switchTo (tally : PhaseTally) (phase : Text) (now : ℚ) :
    HasCurrent (tally.switchTo phase now) := (mem_keys_switchTo tally phase now phase).mpr (.inl rfl)

/-- The phases so far, and the time that they have had. -/
structure Shares (startedAt : ℚ) (phases : List Text) (tally : PhaseTally) : Prop where
  nodup : (tally.buckets.map Prod.fst).Nodup
  current : HasCurrent tally
  keys : ∀ phase, phase ∈ tally.buckets.map Prod.fst ↔ phase = unmarkedPhase ∨ phase ∈ phases
  closed : total PhaseBucket.closedSeconds tally = tally.phaseStartedAt - startedAt

theorem Shares.switchTo (h : Shares startedAt phases tally) (hle : tally.phaseStartedAt ≤ now) (phase : Text) :
    Shares startedAt (phases ++ [phase]) (tally.switchTo phase now) := by
  refine ⟨?_, hasCurrent_switchTo tally phase now, fun x => ?_, ?_⟩
  · rw [keys_switchTo]
    split_ifs with hold
    · exact h.nodup
    · exact List.nodup_append.mpr ⟨h.nodup, List.nodup_singleton phase, fun x hx y hy heq =>
        hold (List.mem_singleton.mp hy ▸ heq ▸ hx)⟩
  · rw [mem_keys_switchTo, h.keys, List.mem_append, List.mem_singleton]
    tauto
  · have hspent : max (now - tally.phaseStartedAt) 0 = now - tally.phaseStartedAt :=
      max_eq_left (sub_nonneg.mpr hle)
    rw [total_switchTo h.current rfl fun bucket => rfl, h.closed, hspent]
    show _ = now - startedAt
    linarith

theorem Shares.readBlocks (h : Shares startedAt phases tally) {clock : Nat → ℚ} (hclock : Monotone clock)
    (hle : tally.phaseStartedAt ≤ clock 0) (blocks : List Json) :
    Shares startedAt (phases ++ blocks.filterMap blockPhase) (tally.readBlocks clock blocks) ∧
      (tally.readBlocks clock blocks).phaseStartedAt ≤ clock blocks.length := by
  induction blocks generalizing tally phases clock with
  | nil =>
    rw [List.filterMap_nil, List.append_nil]
    exact ⟨h, hle⟩
  | cons block blocks ih =>
    have hnext : Monotone fun i => clock (i + 1) := fun i j hij => hclock (Nat.succ_le_succ hij)
    have hstep : clock 0 ≤ clock 1 := hclock (Nat.zero_le 1)
    rw [PhaseTally.readBlocks]
    cases hblock : blockPhase block with
    | none =>
      rw [List.filterMap_cons_none hblock]
      exact ih h hnext (hle.trans hstep)
    | some phase =>
      rw [List.filterMap_cons_some hblock, ← List.singleton_append, ← List.append_assoc]
      exact ih (h.switchTo hle phase) hnext hstep

/-! ## Counting -/

theorem columns_cases {P : (PhaseBucket → Nat) × Text → Prop}
    (hinput : P (PhaseBucket.inputTokens, "input_tokens".toList))
    (hread : P (PhaseBucket.cacheReadTokens, "cache_read_input_tokens".toList))
    (hwrite : P (PhaseBucket.cacheWriteTokens, "cache_creation_input_tokens".toList)) :
    ∀ column ∈ columns, P column := by
  intro column hcolumn
  simp only [columns, List.mem_cons, List.not_mem_nil, or_false] at hcolumn
  rcases hcolumn with rfl | rfl | rfl
  · exact hinput
  · exact hread
  · exact hwrite

/-- Each message is counted once, with the tokens of its first event. -/
structure Counts (events : List Json) (tally : PhaseTally) : Prop where
  seen : ∀ id, id ∈ tally.seenMessageIds ↔ id ∈ messageIds events
  modelCalls : total PhaseBucket.modelCalls tally = (messageIds events).card
  tokens : ∀ column ∈ columns, total column.1 tally =
    ∑ id ∈ messageIds events, tokenCount (firstUsage events id) column.2
  reported : tally.reportedUsage = true ↔ ∃ id ∈ messageIds events, isObject (firstUsage events id) = true

theorem Counts.switchTo (h : Counts events tally) (hcurrent : HasCurrent tally) (phase : Text) (now : ℚ) :
    Counts events (tally.switchTo phase now) := by
  obtain ⟨-, -, hseen, hreported, -⟩ := update_frame tally fun bucket =>
    { bucket with closedSeconds := bucket.closedSeconds + max (now - tally.phaseStartedAt) 0 }
  refine ⟨?_, ?_, columns_cases ?_ ?_ ?_, ?_⟩
  · show ∀ id, id ∈ (tally.update _).seenMessageIds ↔ _
    rw [hseen]
    exact h.seen
  · rw [total_switchTo (d := 0) hcurrent rfl fun _ => rfl]
    exact h.modelCalls
  · rw [total_switchTo (d := 0) hcurrent rfl fun _ => rfl]
    exact h.tokens _ (by simp [columns])
  · rw [total_switchTo (d := 0) hcurrent rfl fun _ => rfl]
    exact h.tokens _ (by simp [columns])
  · rw [total_switchTo (d := 0) hcurrent rfl fun _ => rfl]
    exact h.tokens _ (by simp [columns])
  · show (tally.update _).reportedUsage = true ↔ _
    rw [hreported]
    exact h.reported

theorem Counts.readBlocks (h : Counts events tally) (hcurrent : HasCurrent tally) (clock : Nat → ℚ)
    (blocks : List Json) : Counts events (tally.readBlocks clock blocks) := by
  induction blocks generalizing tally clock with
  | nil => exact h
  | cons block blocks ih =>
    rw [PhaseTally.readBlocks]
    cases blockPhase block with
    | none => exact ih h hcurrent _
    | some phase => exact ih (h.switchTo hcurrent phase (clock 0)) (hasCurrent_switchTo tally phase (clock 0)) _

theorem calls_snoc (events : List Json) (event : Json) :
    calls (events ++ [event]) = calls events ++ (callOf event).toList := by
  unfold calls
  rw [List.filterMap_append]
  cases hcall : callOf event <;> simp [hcall]

theorem messageIds_snoc (events : List Json) (hcall : callOf event = some (id, usage)) :
    messageIds (events ++ [event]) = insert id (messageIds events) := by
  unfold messageIds
  rw [calls_snoc, hcall]
  ext x
  simp

theorem mem_messageIds : id ∈ messageIds events ↔ (Assoc.get (calls events) id).isSome = true := by
  unfold messageIds
  rw [List.mem_toFinset, Assoc.get_isSome_iff]

/-- A later event of a message does not change its first usage. -/
theorem firstUsage_snoc_of_mem (h : id ∈ messageIds events) (event : Json) :
    firstUsage (events ++ [event]) id = firstUsage events id := by
  obtain ⟨usage, hget⟩ := Option.isSome_iff_exists.mp (mem_messageIds.mp h)
  unfold firstUsage
  rw [calls_snoc, Assoc.get_append, hget, Option.some_or]

theorem firstUsage_snoc_new (hnew : id ∉ messageIds events) (hcall : callOf event = some (id, usage)) :
    firstUsage (events ++ [event]) id = usage := by
  have hnone : Assoc.get (calls events) id = none := by
    rw [← Option.not_isSome_iff_eq_none]
    exact fun h => hnew (mem_messageIds.mpr h)
  unfold firstUsage
  rw [calls_snoc, Assoc.get_append, hnone, hcall, Option.none_or, Option.toList_some, Assoc.get_cons, if_pos rfl]
  rfl

/-- An event that has no new message. -/
theorem Counts.old (h : Counts events tally) (hids : messageIds (events ++ [event]) = messageIds events) :
    Counts (events ++ [event]) tally := by
  refine ⟨?_, ?_, fun column hcolumn => ?_, ?_⟩
  · rw [hids]
    exact h.seen
  · rw [hids]
    exact h.modelCalls
  · rw [h.tokens column hcolumn, hids]
    exact Finset.sum_congr rfl fun id hid => by rw [firstUsage_snoc_of_mem hid]
  · rw [h.reported, hids]
    refine exists_congr fun id => and_congr_right fun hid => ?_
    rw [firstUsage_snoc_of_mem hid]

theorem total_countCall (h : HasCurrent tally) (usage : Json) {f : PhaseBucket → M} {d d' : M}
    (hcall : ∀ bucket, f { bucket with modelCalls := bucket.modelCalls + 1 } = f bucket + d)
    (htokens : ∀ bucket, f { bucket with
      inputTokens := bucket.inputTokens + tokenCount usage "input_tokens".toList
      cacheReadTokens := bucket.cacheReadTokens + tokenCount usage "cache_read_input_tokens".toList
      cacheWriteTokens := bucket.cacheWriteTokens + tokenCount usage "cache_creation_input_tokens".toList } =
        f bucket + d')
    (hnone : isObject usage = false → d' = 0) : total f (tally.countCall usage) = total f tally + (d + d') := by
  unfold PhaseTally.countCall
  dsimp only
  cases hobject : isObject usage with
  | false =>
    rw [Bool.not_false, if_pos rfl, total_update h hcall, hnone hobject, add_zero]
  | true =>
    rw [Bool.not_true, if_neg Bool.false_ne_true]
    have hreported : HasCurrent { tally.update fun bucket =>
        { bucket with modelCalls := bucket.modelCalls + 1 } with reportedUsage := true } := h.update _
    rw [total_update hreported htokens, ← add_assoc]
    congr 1
    exact total_update h hcall

/-- Without a usage there are no tokens. -/
theorem tokenCount_of_not_isObject (h : isObject usage = false) (key : Text) : tokenCount usage key = 0 := by
  cases usage with
  | obj members => cases h
  | _ => rfl

/-- What the count of a call leaves. -/
theorem countCall_frame (tally : PhaseTally) (usage : Json) :
    (tally.countCall usage).current = tally.current ∧
      (tally.countCall usage).phaseStartedAt = tally.phaseStartedAt ∧
      (tally.countCall usage).seenMessageIds = tally.seenMessageIds ∧
      (tally.countCall usage).reportedUsage = (tally.reportedUsage || isObject usage) ∧
      (tally.countCall usage).buckets.map Prod.fst = tally.buckets.map Prod.fst := by
  unfold PhaseTally.countCall
  dsimp only
  obtain ⟨hcurrent, hstarted, hseen, hreported, hkeys⟩ := update_frame tally fun bucket =>
    { bucket with modelCalls := bucket.modelCalls + 1 }
  cases hobject : isObject usage with
  | false =>
    rw [Bool.not_false, if_pos rfl, Bool.or_false]
    exact ⟨hcurrent, hstarted, hseen, hreported, hkeys⟩
  | true =>
    rw [Bool.not_true, if_neg Bool.false_ne_true, Bool.or_true]
    obtain ⟨hcurrent', hstarted', hseen', hreported', hkeys'⟩ := update_frame
      { tally.update fun bucket => { bucket with modelCalls := bucket.modelCalls + 1 } with reportedUsage := true }
      fun bucket => { bucket with
        inputTokens := bucket.inputTokens + tokenCount usage "input_tokens".toList
        cacheReadTokens := bucket.cacheReadTokens + tokenCount usage "cache_read_input_tokens".toList
        cacheWriteTokens := bucket.cacheWriteTokens + tokenCount usage "cache_creation_input_tokens".toList }
    exact ⟨hcurrent'.trans hcurrent, hstarted'.trans hstarted, hseen'.trans hseen, hreported', hkeys'.trans hkeys⟩

theorem Counts.countEvent (h : Counts events tally) (hcurrent : HasCurrent tally) (event : Json) :
    Counts (events ++ [event]) (tally.countEvent event) := by
  unfold PhaseTally.countEvent
  cases hcall : callOf event with
  | none =>
    refine h.old ?_
    unfold messageIds
    rw [calls_snoc, hcall, Option.toList_none, List.append_nil]
  | some call =>
    obtain ⟨id, usage⟩ := call
    dsimp only
    have hids := messageIds_snoc events hcall
    by_cases hseen : id ∈ tally.seenMessageIds
    · rw [if_pos hseen]
      refine h.old ?_
      rw [hids, Finset.insert_eq_of_mem ((h.seen id).mp hseen)]
    · rw [if_neg hseen]
      have hnew : id ∉ messageIds events := fun hmem => hseen ((h.seen id).mpr hmem)
      have hfirst := firstUsage_snoc_new hnew hcall
      obtain ⟨-, -, hframeSeen, hframeReported, -⟩ :=
        countCall_frame { tally with seenMessageIds := tally.seenMessageIds ++ [id] } usage
      have hcurrent' : HasCurrent { tally with seenMessageIds := tally.seenMessageIds ++ [id] } := hcurrent
      have hsum : ∀ key, ∑ x ∈ messageIds (events ++ [event]), tokenCount (firstUsage (events ++ [event]) x) key =
          ∑ x ∈ messageIds events, tokenCount (firstUsage events x) key + tokenCount usage key := by
        intro key
        rw [hids, Finset.sum_insert hnew, hfirst, add_comm]
        congr 1
        exact Finset.sum_congr rfl fun x hx => by rw [firstUsage_snoc_of_mem hx]
      refine ⟨fun x => ?_, ?_, columns_cases ?_ ?_ ?_, ?_⟩
      · rw [hframeSeen, hids, List.mem_append, List.mem_singleton, Finset.mem_insert, h.seen, or_comm]
      · rw [total_countCall (d := 1) hcurrent' usage (fun _ => rfl) (fun _ => rfl) fun _ => rfl, hids,
          Finset.card_insert_of_notMem hnew]
        exact congrArg (· + 1) h.modelCalls
      · rw [total_countCall (d := 0) hcurrent' usage (fun _ => rfl) (fun _ => rfl)
          fun hobject => tokenCount_of_not_isObject hobject _, hsum, zero_add]
        exact congrArg (· + _) (h.tokens _ (by simp [columns]))
      · rw [total_countCall (d := 0) hcurrent' usage (fun _ => rfl) (fun _ => rfl)
          fun hobject => tokenCount_of_not_isObject hobject _, hsum, zero_add]
        exact congrArg (· + _) (h.tokens _ (by simp [columns]))
      · rw [total_countCall (d := 0) hcurrent' usage (fun _ => rfl) (fun _ => rfl)
          fun hobject => tokenCount_of_not_isObject hobject _, hsum, zero_add]
        exact congrArg (· + _) (h.tokens _ (by simp [columns]))
      · rw [hframeReported, Bool.or_eq_true, h.reported, hids]
        constructor
        · rintro (⟨x, hx, hobject⟩ | hobject)
          · exact ⟨x, Finset.mem_insert_of_mem hx, by rwa [firstUsage_snoc_of_mem hx]⟩
          · exact ⟨id, Finset.mem_insert_self _ _, by rwa [hfirst]⟩
        · rintro ⟨x, hx, hobject⟩
          rcases Finset.mem_insert.mp hx with rfl | hx
          · exact .inr (by rwa [hfirst] at hobject)
          · exact .inl ⟨x, hx, by rwa [firstUsage_snoc_of_mem hx] at hobject⟩

/-! ## Runs -/

/-- What the count of an event leaves. -/
theorem countEvent_frame (tally : PhaseTally) (event : Json) :
    (tally.countEvent event).current = tally.current ∧
      (tally.countEvent event).phaseStartedAt = tally.phaseStartedAt ∧
      (tally.countEvent event).buckets.map Prod.fst = tally.buckets.map Prod.fst := by
  unfold PhaseTally.countEvent
  cases callOf event with
  | none => exact ⟨rfl, rfl, rfl⟩
  | some call =>
    dsimp only
    split_ifs
    · exact ⟨rfl, rfl, rfl⟩
    · obtain ⟨hcurrent, hstarted, -, -, hkeys⟩ :=
        countCall_frame { tally with seenMessageIds := tally.seenMessageIds ++ [call.1] } call.2
      exact ⟨hcurrent, hstarted, hkeys⟩

theorem closed_countEvent (h : HasCurrent tally) (event : Json) :
    total PhaseBucket.closedSeconds (tally.countEvent event) = total PhaseBucket.closedSeconds tally := by
  unfold PhaseTally.countEvent
  cases callOf event with
  | none => rfl
  | some call =>
    dsimp only
    split_ifs
    · rfl
    · have hcurrent : HasCurrent { tally with seenMessageIds := tally.seenMessageIds ++ [call.1] } := h
      rw [total_countCall (d := 0) (M := ℚ) hcurrent call.2 (fun bucket => (add_zero bucket.closedSeconds).symm)
        (fun bucket => (add_zero bucket.closedSeconds).symm) fun _ => rfl, add_zero, add_zero]
      rfl

theorem Shares.countEvent (h : Shares startedAt phases tally) (event : Json) :
    Shares startedAt phases (tally.countEvent event) := by
  obtain ⟨hcurrent, hstarted, hkeys⟩ := countEvent_frame tally event
  refine ⟨?_, ?_, ?_, ?_⟩
  · rw [hkeys]
    exact h.nodup
  · unfold HasCurrent
    rw [hcurrent, hkeys]
    exact h.current
  · rw [hkeys]
    exact h.keys
  · rw [closed_countEvent h.current, hstarted]
    exact h.closed

/-- An event, with the time at which each block of it is read, or a snapshot. -/
inductive Op where
  | observe (event : Json) (clock : Nat → ℚ)
  | snapshot (now : ℚ)

def Op.isObserve : Op → Bool
  | .observe _ _ => true
  | .snapshot _ => false

def Op.observed : Op → Option Json
  | .observe event _ => some event
  | .snapshot _ => none

/-- The tally after an event, or after a snapshot of it. -/
def step (tally : PhaseTally) : Op → PhaseTally
  | .observe event clock => (tally.observe event clock).1
  | .snapshot _ => tally

def run (tally : PhaseTally) (ops : List Op) : PhaseTally := ops.foldl step tally

/-- The events of a run. -/
def eventsOf (ops : List Op) : List Json := ops.filterMap Op.observed

/-- How many blocks of an event are read. -/
def blockCount (event : Json) : Nat :=
  match (messageOf event).map blocksOf with
  | some (.ok blocks) => blocks.length
  | _ => 0

/-- The clock never goes back, from the time at which the run is started to the one at which it is looked at. -/
def InOrder : ℚ → List Op → ℚ → Prop
  | time, [], now => time ≤ now
  | time, .observe event clock :: ops, now =>
    time ≤ clock 0 ∧ Monotone clock ∧ InOrder (clock (blockCount event)) ops now
  | time, .snapshot t :: ops, now => time ≤ t ∧ InOrder t ops now

/-- The tally after the events, looked at or not. -/
structure Tallies (startedAt : ℚ) (events : List Json) (tally : PhaseTally) : Prop where
  counts : Counts events tally
  shares : Shares startedAt (events.flatMap phasesOf) tally

theorem Tallies.observe (h : Tallies startedAt events tally) {clock : Nat → ℚ} (hclock : Monotone clock)
    (hle : tally.phaseStartedAt ≤ clock 0) (event : Json) :
    Tallies startedAt (events ++ [event]) (tally.observe event clock).1 ∧
      (tally.observe event clock).1.phaseStartedAt ≤ clock (blockCount event) := by
  have hcounts := h.counts.countEvent h.shares.current event
  have hshares := h.shares.countEvent event
  obtain ⟨-, hstarted, -⟩ := countEvent_frame tally event
  have hphases : (events ++ [event]).flatMap phasesOf = events.flatMap phasesOf ++ phasesOf event := by
    rw [List.flatMap_append, List.flatMap_singleton]
  unfold PhaseTally.observe
  cases hmessage : messageOf event with
  | none =>
    have hcall : callOf event = none := by
      unfold callOf
      rw [hmessage]
      rfl
    have hphasesOf : phasesOf event = [] := by
      unfold phasesOf
      rw [hmessage]
      rfl
    have hcount : blockCount event = 0 := by
      unfold blockCount
      rw [hmessage]
      rfl
    have hsame : tally.countEvent event = tally := by
      unfold PhaseTally.countEvent
      rw [hcall]
    rw [hsame] at hcounts
    dsimp only
    rw [hcount]
    refine ⟨⟨hcounts, ?_⟩, hle⟩
    rw [hphases, hphasesOf, List.append_nil]
    exact h.shares
  | some message =>
    dsimp only
    cases hblocks : blocksOf message with
    | error e =>
      have hphasesOf : phasesOf event = [] := by
        unfold phasesOf
        rw [hmessage, Option.map_some, hblocks]
      have hcount : blockCount event = 0 := by
        unfold blockCount
        rw [hmessage, Option.map_some, hblocks]
      dsimp only
      rw [hcount]
      refine ⟨⟨hcounts, ?_⟩, hstarted.trans_le hle⟩
      rw [hphases, hphasesOf, List.append_nil]
      exact hshares
    | ok blocks =>
      have hphasesOf : phasesOf event = blocks.filterMap blockPhase := by
        unfold phasesOf
        rw [hmessage, Option.map_some, hblocks]
      have hcount : blockCount event = blocks.length := by
        unfold blockCount
        rw [hmessage, Option.map_some, hblocks]
      dsimp only
      rw [hcount]
      obtain ⟨hread, hend⟩ := hshares.readBlocks hclock (hstarted.trans_le hle) blocks
      refine ⟨⟨hcounts.readBlocks hshares.current clock blocks, ?_⟩, hend⟩
      rw [hphases, hphasesOf]
      exact hread

theorem tallies_init (startedAt : ℚ) : Tallies startedAt [] (init startedAt) where
  counts :=
    { seen := fun id => iff_of_false (fun h => nomatch h) (Finset.notMem_empty id)
      modelCalls := rfl
      tokens := columns_cases rfl rfl rfl
      reported := iff_of_false Bool.false_ne_true fun ⟨id, hid, _⟩ => Finset.notMem_empty id hid }
  shares :=
    { nodup := List.nodup_singleton unmarkedPhase
      current := List.mem_singleton_self unmarkedPhase
      keys := fun phase => by simp [init]
      closed := by simp [init, total] }

theorem Tallies.run (h : Tallies startedAt events tally) {time : ℚ} (hle : tally.phaseStartedAt ≤ time)
    {ops : List Op} (horder : InOrder time ops now) :
    Tallies startedAt (events ++ eventsOf ops) (run tally ops) ∧ (PhaseUsage.run tally ops).phaseStartedAt ≤ now := by
  induction ops generalizing tally events time with
  | nil =>
    rw [eventsOf, List.filterMap_nil, List.append_nil]
    exact ⟨h, hle.trans horder⟩
  | cons op ops ih =>
    cases op with
    | observe event clock =>
      obtain ⟨hstart, hclock, horder⟩ := horder
      obtain ⟨hnext, hend⟩ := h.observe hclock (hle.trans hstart) event
      have hrest := ih hnext hend horder
      rw [List.append_assoc, List.singleton_append] at hrest
      exact hrest
    | snapshot t =>
      obtain ⟨hstart, horder⟩ := horder
      exact ih h (hle.trans hstart) horder

/-- Snapshots change nothing. -/
theorem run_filter (tally : PhaseTally) (ops : List Op) : run tally (ops.filter Op.isObserve) = run tally ops := by
  induction ops generalizing tally with
  | nil => rfl
  | cons op ops ih =>
    cases op with
    | observe event clock => exact ih _
    | snapshot t => exact ih tally

/-! ## Snapshots -/

theorem sum_other {m : Assoc Text PhaseBucket} {k : Text} (x : ℚ) (h : k ∉ m.map Prod.fst) :
    (m.map fun entry => if entry.1 = k then x else 0).sum = 0 := by
  refine List.sum_eq_zero fun y hy => ?_
  obtain ⟨entry, hentry, rfl⟩ := List.mem_map.mp hy
  refine if_neg ?_
  rintro rfl
  exact h (List.mem_map_of_mem hentry)

theorem sum_current {m : Assoc Text PhaseBucket} {k : Text} (x : ℚ) (hnodup : (m.map Prod.fst).Nodup)
    (hk : k ∈ m.map Prod.fst) : (m.map fun entry => if entry.1 = k then x else 0).sum = x := by
  induction m with
  | nil => cases hk
  | cons entry m ih =>
    rw [List.map_cons, List.nodup_cons] at hnodup
    rw [List.map_cons, List.sum_cons]
    by_cases heq : entry.1 = k
    · rw [if_pos heq, sum_other x (heq ▸ hnodup.1), add_zero]
    · rw [if_neg heq, zero_add]
      exact ih hnodup.2 ((List.mem_cons.mp hk).resolve_left (fun h => heq h.symm))

/-- The time of all phases is the time of the run. -/
theorem sum_seconds (h : Shares startedAt phases tally) (hle : tally.phaseStartedAt ≤ now) :
    (tally.buckets.map fun entry => tally.seconds now entry.1 entry.2).sum = now - startedAt := by
  have hopen : max (now - tally.phaseStartedAt) 0 = now - tally.phaseStartedAt :=
    max_eq_left (sub_nonneg.mpr hle)
  have hcurrent := sum_current (now - tally.phaseStartedAt) h.nodup h.current
  have hclosed : (tally.buckets.map fun entry => entry.2.closedSeconds).sum = tally.phaseStartedAt - startedAt :=
    h.closed
  unfold PhaseTally.seconds
  rw [hopen, List.sum_map_add, hclosed, hcurrent]
  linarith

theorem snapshot_eq_some {rows : List PhaseRow} (h : tally.snapshot now = some rows) :
    rows = tally.buckets.map fun entry => tally.row now entry.1 entry.2 := by
  unfold PhaseTally.snapshot at h
  split_ifs at h
  exact (Option.some.inj h).symm

/-- What a snapshot says of the events: each message is counted once, with the tokens of its first event, every
phase has one row, and the time of the run is shared out among them. -/
structure Conserves (startedAt now : ℚ) (events : List Json) (rows : List PhaseRow) : Prop where
  modelCalls : (rows.map PhaseRow.modelCalls).sum = (messageIds events).card
  inputTokens : (rows.map PhaseRow.inputTokens).sum =
    ∑ id ∈ messageIds events, tokenCount (firstUsage events id) "input_tokens".toList
  cacheReadTokens : (rows.map PhaseRow.cacheReadTokens).sum =
    ∑ id ∈ messageIds events, tokenCount (firstUsage events id) "cache_read_input_tokens".toList
  cacheWriteTokens : (rows.map PhaseRow.cacheWriteTokens).sum =
    ∑ id ∈ messageIds events, tokenCount (firstUsage events id) "cache_creation_input_tokens".toList
  durations : ∃ seconds : List ℚ, rows.map PhaseRow.durationMs = seconds.map (fun s => roundHalfEven (s * 1000)) ∧
    seconds.sum = now - startedAt
  nodup : (rows.map PhaseRow.phase).Nodup
  phases : ∀ phase, phase ∈ rows.map PhaseRow.phase ↔
    phase = unmarkedPhase ∨ ∃ event ∈ events, phase ∈ phasesOf event

theorem Tallies.conserves (h : Tallies startedAt events tally) (hle : tally.phaseStartedAt ≤ now) :
    Conserves startedAt now events (tally.buckets.map fun entry => tally.row now entry.1 entry.2) := by
  have hkeys : (tally.buckets.map fun entry => tally.row now entry.1 entry.2).map PhaseRow.phase =
      tally.buckets.map Prod.fst := by
    rw [List.map_map]
    rfl
  refine ⟨?_, ?_, ?_, ?_, ?_, ?_, fun phase => ?_⟩
  · rw [List.map_map]
    exact h.counts.modelCalls
  · rw [List.map_map]
    exact h.counts.tokens (PhaseBucket.inputTokens, "input_tokens".toList) (by simp [columns])
  · rw [List.map_map]
    exact h.counts.tokens (PhaseBucket.cacheReadTokens, "cache_read_input_tokens".toList) (by simp [columns])
  · rw [List.map_map]
    exact h.counts.tokens (PhaseBucket.cacheWriteTokens, "cache_creation_input_tokens".toList) (by simp [columns])
  · refine ⟨tally.buckets.map fun entry => tally.seconds now entry.1 entry.2, ?_, sum_seconds h.shares hle⟩
    rw [List.map_map, List.map_map]
    rfl
  · rw [hkeys]
    exact h.shares.nodup
  · rw [hkeys, h.shares.keys, List.mem_flatMap]

/-- An assistant message with one command. -/
def bashEvent (id command : Text) (tokens : Int) : Json :=
  .obj [("type".toList, .str "assistant".toList), ("message".toList, .obj [("id".toList, .str id),
    ("usage".toList, .obj [("input_tokens".toList, .int tokens)]),
    ("content".toList, .arr [.obj [("type".toList, .str "tool_use".toList), ("name".toList, .str "Bash".toList),
      ("input".toList, .obj [("command".toList, .str command)])]])])]

end Llm.PhaseUsage

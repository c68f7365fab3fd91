import SovaVerified.Supervisor.NetworkHealth

/-!
# What the tracker knows

After any sequence of reports the tracker says that the network is down just when the failures since the last
success say so, and the events that it has emitted tell each change once.
-/

namespace Supervisor.NetworkHealth

variable {τ : Type} {threshold : Int} {reports : List (Report τ)} {tracker : ConnectivityTracker τ}

/-- A decisive failure since the last success, or failures enough to reach the threshold. -/
def SaysDown (threshold : Int) (reports : List (Report τ)) : Prop :=
  (∃ r ∈ sinceSuccess reports, r.isDecisive = true) ∨
    (sinceSuccess reports ≠ [] ∧ threshold ≤ (sinceSuccess reports).length)

/-- The title of the event number `i`: the first one says that the network is lost. -/
def titleAt (i : Nat) : Text :=
  if i % 2 = 0 then "Network connection lost".toList else "Network connection restored".toList

def Alternates (events : List FeedEvent) : Prop :=
  ∀ i event, events[i]? = some event → event.title = titleAt i

/-- The tracker after the reports. -/
structure Tracks (threshold : Int) (reports : List (Report τ)) (tracker : ConnectivityTracker τ) : Prop where
  threshold_eq : tracker.failureThreshold = threshold
  failures : tracker.consecutiveFailures = (sinceSuccess reports).length
  down_iff : tracker.isDown = true ↔ SaysDown threshold reports
  since : tracker.downSince.isSome = tracker.isDown
  healthy : tracker.healthySince.isSome = !tracker.isDown
  parity : tracker.events.length % 2 = if tracker.isDown then 1 else 0
  alternates : Alternates tracker.events

/-! ## Reports -/

theorem sinceSuccess_failure (reports : List (Report τ)) (source : Text) (decisive : Bool) (now : τ) :
    sinceSuccess (reports ++ [.failure source decisive now]) =
      sinceSuccess reports ++ [.failure source decisive now] :=
  List.rtakeWhile_concat_pos _ _ _ rfl

theorem sinceSuccess_success (reports : List (Report τ)) (source : Text) (now : τ) :
    sinceSuccess (reports ++ [.success source now]) = [] :=
  List.rtakeWhile_concat_neg _ _ _ Bool.false_ne_true

theorem not_saysDown_success (threshold : Int) (reports : List (Report τ)) (source : Text) (now : τ) :
    ¬ SaysDown threshold (reports ++ [.success source now]) := by
  unfold SaysDown
  rw [sinceSuccess_success]
  rintro (⟨r, hr, -⟩ | ⟨hne, -⟩)
  · cases hr
  · exact hne rfl

/-- One more failure says that the network is down if it was down before, if it is decisive or if it reaches
the threshold. -/
theorem saysDown_failure (reports : List (Report τ)) (source : Text) (decisive : Bool) (now : τ) :
    SaysDown threshold (reports ++ [.failure source decisive now]) ↔
      SaysDown threshold reports ∨ decisive = true ∨ threshold ≤ (sinceSuccess reports).length + 1 := by
  unfold SaysDown
  rw [sinceSuccess_failure, List.length_append, List.length_singleton]
  constructor
  · rintro (⟨r, hr, hdecisive⟩ | ⟨-, hle⟩)
    · rcases List.mem_append.mp hr with hr | hr
      · exact .inl (.inl ⟨r, hr, hdecisive⟩)
      · rw [List.mem_singleton.mp hr] at hdecisive
        exact .inr (.inl hdecisive)
    · exact .inr (.inr (by exact_mod_cast hle))
  · rintro ((⟨r, hr, hdecisive⟩ | ⟨-, hle⟩) | hdecisive | hle)
    · exact .inl ⟨r, List.mem_append_left _ hr, hdecisive⟩
    · exact .inr ⟨List.append_ne_nil_of_right_ne_nil _ (List.cons_ne_nil _ _), by push_cast; omega⟩
    · exact .inl ⟨_, List.mem_append_right _ (List.mem_singleton_self _), hdecisive⟩
    · exact .inr ⟨List.append_ne_nil_of_right_ne_nil _ (List.cons_ne_nil _ _), by exact_mod_cast hle⟩

/-! ## Steps -/

theorem Alternates.emit {events : List FeedEvent} (h : Alternates events) {event : FeedEvent}
    (htitle : event.title = titleAt events.length) : Alternates (events ++ [event]) := by
  intro i e he
  rw [List.getElem?_append] at he
  split_ifs at he with hi
  · exact h i e he
  · have hlast : i = events.length := by
      have hlt := (List.getElem?_eq_some_iff.mp he).1
      rw [List.length_singleton] at hlt
      omega
    subst hlast
    rw [Nat.sub_self] at he
    obtain rfl : event = e := Option.some.inj he
    exact htitle

theorem Tracks.recordFailure (h : Tracks threshold reports tracker) (source : Text) (decisive : Bool) (now : τ) :
    Tracks threshold (reports ++ [.failure source decisive now]) (tracker.recordFailure source decisive now) := by
  have hcount : tracker.consecutiveFailures + 1 =
      (sinceSuccess (reports ++ [.failure source decisive now])).length := by
    rw [sinceSuccess_failure, List.length_append, h.failures]
    rfl
  unfold ConnectivityTracker.recordFailure
  dsimp only
  split_ifs with hdown hbelow
  · exact ⟨h.threshold_eq, hcount,
      iff_of_true hdown ((saysDown_failure ..).mpr (.inl (h.down_iff.mp hdown))), h.since, h.healthy,
      h.parity, h.alternates⟩
  · -- a failure below the threshold
    simp only [Bool.and_eq_true, Bool.not_eq_true', decide_eq_true_eq, h.threshold_eq] at hbelow
    have hnot : ¬ SaysDown threshold (reports ++ [.failure source decisive now]) := by
      rw [saysDown_failure, ← h.failures]
      rintro (hbefore | hdecisive | hle)
      · exact hdown (h.down_iff.mpr hbefore)
      · rw [hbelow.1] at hdecisive
        cases hdecisive
      · omega
    exact ⟨h.threshold_eq, hcount, iff_of_false hdown hnot, h.since, h.healthy, h.parity, h.alternates⟩
  · -- the network is lost
    simp only [Bool.and_eq_true, Bool.not_eq_true', decide_eq_true_eq, h.threshold_eq, not_and] at hbelow
    have hsays : SaysDown threshold (reports ++ [.failure source decisive now]) := by
      rw [saysDown_failure, ← h.failures]
      cases decisive with
      | true => exact .inr (.inl rfl)
      | false =>
        have hle := hbelow rfl
        exact .inr (.inr (by omega))
    have hparity := h.parity
    rw [if_neg hdown] at hparity
    refine ⟨h.threshold_eq, hcount, iff_of_true rfl hsays, rfl, rfl, ?_, ?_⟩
    · simp only [ConnectivityTracker.emit, List.length_append, List.length_singleton, if_true]
      omega
    · refine Alternates.emit h.alternates ?_
      unfold titleAt
      exact (if_pos hparity).symm

theorem Tracks.recordSuccess (h : Tracks threshold reports tracker) (source : Text) (now : τ) :
    Tracks threshold (reports ++ [.success source now]) (tracker.recordSuccess source now) := by
  have hcount : 0 = (sinceSuccess (reports ++ [.success source now])).length := by
    rw [sinceSuccess_success]
    rfl
  have hnot := not_saysDown_success threshold reports source now
  unfold ConnectivityTracker.recordSuccess
  dsimp only
  by_cases hdown : tracker.isDown = true
  · -- the network is restored
    rw [hdown, Bool.not_true, if_neg Bool.false_ne_true]
    have hparity := h.parity
    rw [if_pos hdown] at hparity
    refine ⟨h.threshold_eq, hcount, iff_of_false Bool.false_ne_true hnot, rfl, rfl, ?_, ?_⟩
    · simp only [ConnectivityTracker.emit, List.length_append, List.length_singleton, Bool.false_eq_true, if_false]
      omega
    · refine Alternates.emit h.alternates ?_
      unfold titleAt
      exact (if_neg (by omega)).symm
  · rw [if_pos (by simpa using hdown)]
    split_ifs with hnone
    · rw [Option.isNone_iff_eq_none] at hnone
      have hhealthy := h.healthy
      rw [hnone, Bool.of_not_eq_true hdown] at hhealthy
      cases hhealthy
    · exact ⟨h.threshold_eq, hcount, iff_of_false hdown hnot, h.since, h.healthy, h.parity, h.alternates⟩

theorem Tracks.record (h : Tracks threshold reports tracker) (r : Report τ) :
    Tracks threshold (reports ++ [r]) (tracker.record r) := by
  cases r with
  | success source now => exact h.recordSuccess source now
  | failure source decisive now => exact h.recordFailure source decisive now

/-! ## Runs -/

theorem tracks_init (threshold : Int) (start : τ) : Tracks threshold [] (init threshold start) where
  threshold_eq := rfl
  failures := rfl
  down_iff := by
    refine iff_of_false Bool.false_ne_true ?_
    rintro (⟨r, hr, -⟩ | ⟨hne, -⟩)
    · cases hr
    · exact hne rfl
  since := rfl
  healthy := rfl
  parity := rfl
  alternates := by
    intro i event hevent
    cases hevent

theorem tracks_run (threshold : Int) (start : τ) (reports : List (Report τ)) :
    Tracks threshold reports (run (init threshold start) reports) := by
  induction reports using List.reverseRecOn with
  | nil => exact tracks_init threshold start
  | append_singleton reports r ih =>
    unfold run at ih ⊢
    rw [List.foldl_append]
    exact ih.record r

/-- After every sequence of reports the network is down just when the reports since the last success say so, the
time since when is known just then, and the events that were emitted alternate, the first one being a loss. -/
theorem tracker_follows_reports (threshold : Int) (start : τ) (reports : List (Report τ)) :
    ((run (init threshold start) reports).isDown = true ↔ SaysDown threshold reports) ∧
      ((run (init threshold start) reports).downSince.isSome = true ↔
        (run (init threshold start) reports).isDown = true) ∧
      Alternates (run (init threshold start) reports).events := by
  have htracks := tracks_run threshold start reports
  refine ⟨htracks.down_iff, ?_, htracks.alternates⟩
  rw [htracks.since]

end Supervisor.NetworkHealth

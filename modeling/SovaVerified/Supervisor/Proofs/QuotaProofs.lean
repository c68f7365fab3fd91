import SovaVerified.Supervisor.PrThrottle
import SovaVerified.Supervisor.Proofs.PrThrottleProofs

/-!
# Entries of a list of reviews

What a review of CodeRabbit that counts looks like, and on which entries the loop raises.
-/

namespace Supervisor.CodeRabbitQuota

open Json

variable {δ : Type} {fromisoformat : Text → Option δ} {prNumber : Int} {r : Json} {x : QuotaReview δ}

/-- A review that has been submitted by CodeRabbit, and what the quota takes from it. -/
structure IsQuotaReview (fromisoformat : Text → Option δ) (prNumber : Int) (r : Json) (x : QuotaReview δ) :
    Prop where
  login : ∃ t, (r.item "user".toList .null).item "login".toList .null = .str t ∧
    Text.lower t ∈ defaultCoderabbitAuthors
  state : ∃ t, r.item "state".toList .null = .str t ∧ t ≠ [] ∧ Text.upper t ≠ "PENDING".toList
  submittedAt : ∃ t, r.item "submitted_at".toList .null = .str t ∧ t ≠ [] ∧
    fromisoformat (withOffset t) = some x.submittedAt
  reviewId : r.item "id".toList .null = x.reviewId ∧ x.reviewId ≠ .null ∧ isEmptyText x.reviewId = false
  prNumber : x.prNumber = prNumber

/-- The login of the author of an entry. -/
def loginOf (r : Json) : Json := (r.item "user".toList (.obj [])).item "login".toList .null

/-- An entry on which nothing raises: what is taken for an object or a text is one. -/
structure IsReadable (r : Json) : Prop where
  object : r.IsObject
  user : (r.item "user".toList (.obj [])).IsObject
  login : truthy (loginOf r) = true → (loginOf r).IsText
  review : ∀ login, loginOf r = .str login → Text.lower login ∈ defaultCoderabbitAuthors →
    isComplete r = true →
    ∃ state, stateOf r = .str state ∧ (Text.upper state ≠ "PENDING".toList → (submittedAtOf r).IsText)

/-- The name that is looked up among the authors. -/
theorem asText_login {v : Json} {login : Text} (h : v = .str login) :
    asText (if truthy v then v else .str []) = .ok login := by
  subst h
  cases login <;> rfl

theorem quotaReview_eq (hobject : r.IsObject) (huser : (r.item "user".toList (.obj [])).IsObject) :
    quotaReview fromisoformat prNumber r =
      (asText (if truthy (loginOf r) then loginOf r else .str []) >>= fun login =>
        if Text.lower login ∈ defaultCoderabbitAuthors ∧ isComplete r = true then
          counted fromisoformat prNumber r
        else pure none) := by
  unfold quotaReview
  rw [getItem_of_isObject hobject]
  show (getItem (r.item "user".toList (.obj [])) "login".toList .null >>= _) = _
  rw [getItem_of_isObject huser]
  rfl

theorem quotaReview_of_isQuotaReview (h : IsQuotaReview fromisoformat prNumber r x) :
    quotaReview fromisoformat prNumber r = .ok (some x) := by
  obtain ⟨login, hlogin, hauthor⟩ := h.login
  obtain ⟨state, hstate, hstateNe, hpending⟩ := h.state
  obtain ⟨text, htext, htextNe, hdate⟩ := h.submittedAt
  obtain ⟨hid, hidNull, hidEmpty⟩ := h.reviewId
  obtain ⟨⟨members, huser⟩, -⟩ := item_eq .null hlogin nofun
  obtain ⟨hobject, huser'⟩ := item_eq (.obj []) huser nofun
  obtain ⟨-, hstate'⟩ := item_eq (.str []) hstate nofun
  obtain ⟨-, htext'⟩ := item_eq (.str []) htext nofun
  obtain ⟨-, hid'⟩ := item_eq (.str []) hid hidNull
  have hname : loginOf r = .str login := by
    unfold loginOf
    rw [huser', ← huser]
    exact hlogin
  have hcomplete : isComplete r = true := by
    unfold isComplete stateOf submittedAtOf reviewIdOf
    rw [hstate', htext', hid', hidEmpty, truthy_str hstateNe, truthy_str htextNe]
    rfl
  rw [quotaReview_eq hobject ⟨members, huser'⟩, asText_login hname]
  show (if _ then _ else _) = _
  rw [if_pos ⟨hauthor, hcomplete⟩]
  unfold counted stateOf submittedAtOf reviewIdOf
  rw [hstate', htext', hid']
  show (if Text.upper state = _ then _ else _) = _
  rw [if_neg hpending]
  show Except.ok ((fromisoformat (withOffset text)).map _) = _
  rw [hdate, ← h.prNumber]
  rfl

theorem returns_counted_iff : Exceptions.Returns (counted fromisoformat prNumber r) ↔
    ∃ state, stateOf r = .str state ∧ (Text.upper state ≠ "PENDING".toList → (submittedAtOf r).IsText) := by
  unfold counted
  rw [Exceptions.returns_bind_iff]
  constructor
  · rintro ⟨state, hstate, h⟩
    refine ⟨state, asText_eq_ok_iff.mp hstate, fun hpending => ?_⟩
    rw [if_neg hpending, Exceptions.returns_bind_iff] at h
    obtain ⟨text, htext, -⟩ := h
    exact ⟨text, asText_eq_ok_iff.mp htext⟩
  · rintro ⟨state, hstate, htext⟩
    refine ⟨state, asText_eq_ok_iff.mpr hstate, ?_⟩
    split_ifs with hpending
    · exact ⟨_, rfl⟩
    · obtain ⟨text, htext⟩ := htext hpending
      exact Exceptions.returns_bind_iff.mpr ⟨text, asText_eq_ok_iff.mpr htext, _, rfl⟩

theorem returns_quotaReview_iff :
    Exceptions.Returns (quotaReview fromisoformat prNumber r) ↔ IsReadable r := by
  constructor
  · intro h
    obtain ⟨user, huser, hrest⟩ := Exceptions.returns_bind_iff.mp h
    obtain ⟨hobject, rfl⟩ := getItem_eq_ok_iff.mp huser
    obtain ⟨login, hlogin, -⟩ := Exceptions.returns_bind_iff.mp hrest
    obtain ⟨huser, -⟩ := getItem_eq_ok_iff.mp hlogin
    rw [quotaReview_eq hobject huser] at h
    obtain ⟨name, hname, hrest⟩ := Exceptions.returns_bind_iff.mp h
    refine { object := hobject, user := huser, login := fun htruthy => ?_, review := ?_ }
    · rw [if_pos htruthy] at hname
      exact ⟨name, asText_eq_ok_iff.mp hname⟩
    · intro login' hlogin' hauthor hcomplete
      obtain rfl : login' = name := Except.ok.inj ((asText_login hlogin').symm.trans hname)
      rw [if_pos ⟨hauthor, hcomplete⟩] at hrest
      exact returns_counted_iff.mp hrest
  · intro h
    rw [quotaReview_eq h.object h.user, Exceptions.returns_bind_iff]
    by_cases htruthy : truthy (loginOf r) = true
    · obtain ⟨login, hlogin⟩ := h.login htruthy
      refine ⟨login, asText_login hlogin, ?_⟩
      split_ifs with hcounts
      · exact returns_counted_iff.mpr (h.review login hlogin hcounts.1 hcounts.2)
      · exact ⟨none, rfl⟩
    · refine ⟨[], by rw [if_neg htruthy]; rfl, none, ?_⟩
      exact if_neg fun hcounts => absurd hcounts.1 (by decide)

end Supervisor.CodeRabbitQuota

/-!
# Proofs: the quota of the throttle

The quota check counts recorded reviews, and the pass records a created pull request as an event of
another kind. So the throttle keeps to its quota in a run in which the sync has recorded a review for
every pull request that counts by the time the quota is checked, and a run without a sync breaks it.
-/

namespace Supervisor

variable {config : Text → QuotaConfig} {project : Text}

/-- The call created a pull request. -/
def CreateCall.isCreated (c : CreateCall) : Bool :=
  match c.outcome with
  | .created _ _ => true
  | .raised _ => false

/-- The pull requests of the project that were created in the window that ends at `time`. -/
def createdIn (config : Text → QuotaConfig) (project : Text) (time : Nat) (calls : List CreateCall) :
    Nat :=
  calls.countP fun c =>
    c.isCreated && c.project = project && c.time ≤ time && time < c.time + (config project).window

/-- The quota check has let the pass through and it has not called `create_pr` yet. -/
def PassPhase.admits : PassPhase → Bool
  | .admitted | .selected _ | .flipped _ _ => true
  | _ => false

/-- The passes of the project that are on their way to `create_pr`. -/
def underway (project : Text) (s : ThrottleState) : Nat :=
  s.passes.count fun p => p.project = project && p.phase.admits

/-- The throttle keeps to the quota: no window has more pull requests than the quota allows. -/
def WithinQuota (config : Text → QuotaConfig) (project : Text) (s : ThrottleState) : Prop :=
  ∀ time, createdIn config project time s.calls ≤ (config project).reviewsPerHour

/-- The condition on a step: where the quota check would let a pass of the project through, every pull
request that the throttle created in the window, and every pass underway, has its review recorded. -/
def syncKeepsUp (config : Text → QuotaConfig) (project : Text) (s : ThrottleState)
    (a : ThrottleAction) : Bool :=
  match a with
  | .checkQuota pass =>
    match s.passes.get pass with
    | some ⟨p, .swept⟩ =>
      p ≠ project || !(getQuotaStatus (config project) project s).canCreatePr ||
        createdIn config project s.now s.calls + underway project s ≤
          (reviewEventsInWindow (config project) project s).length
    | _ => true
  | _ => true

structure QuotaInv (config : Text → QuotaConfig) (project : Text) (s : ThrottleState) : Prop where
  past : ∀ c ∈ s.calls, c.time ≤ s.now
  /-- There is room for every pass underway. -/
  room : createdIn config project s.now s.calls + underway project s ≤ (config project).reviewsPerHour
  within : WithinQuota config project s

/-! ## What a step does -/

section

variable {s : ThrottleState}

theorem underway_endPass (pass : Nat) : underway project (s.endPass pass) ≤ underway project s :=
  Assoc.count_del_le ..

/-- A pass goes on to a phase in which it is underway only if it was before. -/
theorem underway_setPass {pass : Nat} {p p' : Pass} (hget : s.passes.get pass = some p)
    (hp : p'.project = p.project ∧ (p'.phase.admits = true → p.phase.admits = true)) :
    underway project (s.setPass pass p') ≤ underway project s := by
  refine Assoc.count_put_le hget ?_
  rw [hp.1]
  simp only [Bool.and_eq_true]
  exact fun h => ⟨h.1, hp.2 h.2⟩

/-- A pass that is not underway for the project. -/
theorem underway_setPass_idle {pass : Nat} {p' : Pass}
    (hp : p'.project ≠ project ∨ p'.phase.admits = false) :
    underway project (s.setPass pass p') ≤ underway project s := by
  have hidle : (decide (p'.project = project) && p'.phase.admits) = false := by
    rcases hp with hp | hp <;> simp [hp]
  unfold underway ThrottleState.setPass
  rw [Assoc.count_put, if_neg (by rw [hidle]; exact Bool.false_ne_true), Nat.add_zero]
  exact Assoc.count_del_le s.passes pass

/-- A pass that was let through is one more underway at most. -/
theorem underway_setPass_le (pass : Nat) (p' : Pass) :
    underway project (s.setPass pass p') ≤ underway project s + 1 := by
  have hdel := Assoc.count_del_le (q := fun p : Pass => p.project = project && p.phase.admits)
    s.passes pass
  unfold underway ThrottleState.setPass
  rw [Assoc.count_put]
  split_ifs <;> omega

/-- A pass that has called `create_pr` is not underway any more. -/
theorem underway_call {pass entry : Nat} {project' : Text} {request : PRRequest}
    (hget : s.passes.get pass = some ⟨project', .flipped entry request⟩) (calls : List CreateCall)
    (outcome : CreateOutcome) :
    underway project ({ s with calls := calls }.setPass pass ⟨project', .called entry outcome⟩) +
      (if project' = project then 1 else 0) ≤ underway project s := by
  have hidle : underway project ({ s with calls := calls }.setPass pass
      ⟨project', .called entry outcome⟩) = (s.passes.del pass).count
        (fun p : Pass => p.project = project && p.phase.admits) := by
    unfold underway ThrottleState.setPass
    rw [Assoc.count_put]
    simp [PassPhase.admits]
  rw [hidle]
  split_ifs with hp
  · exact Assoc.count_del_lt hget (by simp [hp, PassPhase.admits])
  · rw [Nat.add_zero]
    exact Assoc.count_del_le s.passes pass

/-- A step does not touch what the quota is about, or it lets time pass, lets a pass through, or
creates a pull request. -/
theorem quota_cases {a : ThrottleAction} {s' : ThrottleState} (project : Text)
    (h : throttleStep config s a = some s') :
    (s'.now = s.now ∧ s'.calls = s.calls ∧ underway project s' ≤ underway project s) ∨
    (∃ elapsed, s' = { s with now := s.now + elapsed }) ∨
    (∃ pass, a = .checkQuota pass ∧ s.passes.get pass = some ⟨project, .swept⟩ ∧
      (getQuotaStatus (config project) project s).canCreatePr = true ∧
      s'.now = s.now ∧ s'.calls = s.calls ∧ underway project s' ≤ underway project s + 1) ∨
    (∃ c, c.time = s.now ∧ s'.now = s.now ∧ s'.calls = c :: s.calls ∧
      underway project s' + (if c.project = project then 1 else 0) ≤ underway project s) := by
  cases throttleStep_change h with
  | tick elapsed => exact .inr (.inl ⟨elapsed, rfl⟩)
  | enqueue | dequeue | runStatus | sync =>
    left
    exact ⟨rfl, rfl, Nat.le_refl _⟩
  | beginPass pass project' =>
    left
    exact ⟨rfl, rfl, underway_setPass_idle (s := sweepEnded project' (sweepStale project' s)) (.inr rfl)⟩
  | endPass a pass => exact .inl ⟨rfl, rfl, underway_endPass pass⟩
  | passQuota pass project' hget hquota =>
    by_cases hp : project' = project
    · subst hp
      exact .inr (.inr (.inl ⟨pass, rfl, hget, hquota, rfl, rfl, underway_setPass_le pass _⟩))
    · exact .inl ⟨rfl, rfl, underway_setPass_idle (.inl hp)⟩
  | select pass project' entry hget =>
    exact .inl ⟨rfl, rfl, underway_setPass hget ⟨rfl, fun _ => rfl⟩⟩
  | flip pass project' entry e hget =>
    exact .inl ⟨rfl, rfl, underway_setPass (s := { s with entries := _ }) hget ⟨rfl, fun _ => rfl⟩⟩
  | createPr pass project' entry request outcome hget =>
    exact .inr (.inr (.inr ⟨⟨entry, request, project', s.now, outcome⟩, rfl, rfl, rfl,
      underway_call hget _ outcome⟩))
  | record pass project' entry outcome =>
    left
    cases outcome <;> exact ⟨rfl, rfl, Assoc.count_del_le ..⟩

end

/-! ## The invariant -/

theorem createdIn_cons (c : CreateCall) (time : Nat) (calls : List CreateCall) :
    createdIn config project time (c :: calls) = createdIn config project time calls +
      if c.isCreated = true ∧ c.project = project ∧ c.time ≤ time ∧
        time < c.time + (config project).window then 1 else 0 := by
  unfold createdIn
  rw [List.countP_cons]
  congr 1
  by_cases hc : c.isCreated = true ∧ c.project = project ∧ c.time ≤ time ∧
      time < c.time + (config project).window
  · simp [hc]
  · rw [if_neg hc, if_neg]
    simpa [and_assoc] using hc

/-- A window that ends later has no more of the calls that are past. -/
theorem createdIn_anti {now time : Nat} {calls : List CreateCall} (hpast : ∀ c ∈ calls, c.time ≤ now)
    (hle : now ≤ time) : createdIn config project time calls ≤ createdIn config project now calls := by
  induction calls with
  | nil => simp [createdIn]
  | cons c calls ih =>
    have htail := ih (fun d hd => hpast d (List.mem_cons_of_mem _ hd))
    have hhead := hpast c (List.mem_cons_self ..)
    rw [createdIn_cons, createdIn_cons]
    by_cases hc : c.isCreated = true ∧ c.project = project ∧ c.time ≤ time ∧
        time < c.time + (config project).window
    · have hc' : c.isCreated = true ∧ c.project = project ∧ c.time ≤ now ∧
          now < c.time + (config project).window :=
        ⟨hc.1, hc.2.1, hhead, by omega⟩
      rw [if_pos hc, if_pos hc']
      omega
    · rw [if_neg hc]
      omega

section

variable {s s' : ThrottleState}

theorem QuotaInv.calm (h : QuotaInv config project s) (hnow : s'.now = s.now)
    (hcalls : s'.calls = s.calls)
    (hroom : createdIn config project s.now s.calls + underway project s' ≤
      (config project).reviewsPerHour) : QuotaInv config project s' where
  past := by rw [hnow, hcalls]; exact h.past
  room := by rw [hnow, hcalls]; exact hroom
  within := by
    intro time
    rw [hcalls]
    exact h.within time

theorem QuotaInv.tick (h : QuotaInv config project s) (elapsed : Nat) :
    QuotaInv config project { s with now := s.now + elapsed } where
  past := by
    intro c hc
    have hle := h.past c hc
    show c.time ≤ s.now + elapsed
    omega
  room := by
    have hanti : createdIn config project (s.now + elapsed) s.calls ≤
        createdIn config project s.now s.calls := createdIn_anti h.past (Nat.le_add_right ..)
    have hroom := h.room
    show createdIn config project (s.now + elapsed) s.calls + underway project s ≤ _
    omega
  within := h.within

theorem QuotaInv.create (h : QuotaInv config project s) {c : CreateCall} (htime : c.time = s.now)
    (hnow : s'.now = s.now) (hcalls : s'.calls = c :: s.calls)
    (hroom : underway project s' + (if c.project = project then 1 else 0) ≤ underway project s) :
    QuotaInv config project s' where
  past := by
    intro d hd
    rw [hcalls] at hd
    rw [hnow]
    rcases List.mem_cons.mp hd with rfl | hd
    · exact Nat.le_of_eq htime
    · exact h.past d hd
  room := by
    have hold := h.room
    rw [hnow, hcalls, createdIn_cons]
    by_cases hp : c.project = project
    · rw [if_pos hp] at hroom
      split_ifs <;> omega
    · rw [if_neg hp] at hroom
      rw [if_neg (fun hc => hp hc.2.1)]
      omega
  within := by
    intro time
    have hold := h.within time
    rw [hcalls, createdIn_cons]
    split_ifs with hc
    · -- the new call counts, so the window ends now or later and the pass was underway
      have hlater : s.now ≤ time := htime ▸ hc.2.2.1
      have hanti : createdIn config project time s.calls ≤ createdIn config project s.now s.calls :=
        createdIn_anti h.past hlater
      have hroom' := h.room
      rw [if_pos hc.2.1] at hroom
      omega
    · exact hold

/-- An open quota check has seen fewer reviews than the quota allows. -/
theorem reviews_lt_of_canCreatePr {c : QuotaConfig} (hon : c.enabled = true)
    (hpos : 0 < c.reviewsPerHour) (h : (getQuotaStatus c project s).canCreatePr = true) :
    (reviewEventsInWindow c project s).length < c.reviewsPerHour := by
  have hne : c.reviewsPerHour ≠ 0 := Nat.ne_of_gt hpos
  unfold getQuotaStatus at h
  by_cases hlt : (reviewEventsInWindow c project s).length < c.reviewsPerHour
  · exact hlt
  · simp [hon, hne, hlt] at h

theorem QuotaInv.step (hon : (config project).enabled = true)
    (hpos : 0 < (config project).reviewsPerHour) {a : ThrottleAction}
    (h : QuotaInv config project s) (hguard : syncKeepsUp config project s a = true)
    (hstep : throttleStep config s a = some s') : QuotaInv config project s' := by
  rcases quota_cases project hstep with ⟨hnow, hcalls, hunder⟩ | ⟨elapsed, rfl⟩ |
    ⟨pass, rfl, hget, hcan, hnow, hcalls, hunder⟩ | ⟨c, htime, hnow, hcalls, hunder⟩
  · have hroom := h.room
    exact h.calm hnow hcalls (by omega)
  · exact h.tick elapsed
  · have hlt := reviews_lt_of_canCreatePr hon hpos hcan
    simp only [syncKeepsUp, hget, hcan, ne_eq, not_true_eq_false, decide_false, Bool.not_true,
      Bool.or_self, Bool.false_or, decide_eq_true_eq] at hguard
    exact h.calm hnow hcalls (by omega)
  · exact h.create htime hnow hcalls hunder

end

theorem quotaInv_init : QuotaInv config project {} where
  past := by simp
  room := by
    show 0 ≤ _
    omega
  within := by
    intro time
    show 0 ≤ _
    omega

/-- In every run in which the sync keeps up, the throttle never creates more pull requests for a
project with an enforced quota than the quota allows, in any window. -/
theorem throttle_within_quota (hon : (config project).enabled = true)
    (hpos : 0 < (config project).reviewsPerHour) {as : List ThrottleAction} {t : ThrottleState}
    (hguard : Runs.Meets (throttleStep config)
      (fun s a => syncKeepsUp config project s a = true) {} as)
    (h : Runs.exec (throttleStep config) {} as = some t) : WithinQuota config project t := by
  have hinv : QuotaInv config project t :=
    Runs.invariant_of_guard (P := QuotaInv config project)
      (fun s a s' hs hg hstep => hs.step hon hpos hg hstep) quotaInv_init hguard h
  exact hinv.within

theorem hour_pos : 0 < 60 := by decide

/-- One review an hour. -/
def oneReview : Text → QuotaConfig := fun _ => ⟨true, 1, 60, hour_pos⟩

/-- A pass that creates a pull request. -/
def fullPass (pass number : Nat) : List ThrottleAction :=
  [.beginPass pass [], .checkQuota pass, .select pass, .flip pass, .createPr pass (.created number []),
    .record pass]

/-- The review of the first pull request is recorded before the second pass, which then waits. -/
def syncedRun : List ThrottleAction :=
  [.enqueue 1 [] {}, .enqueue 2 [] {}] ++ fullPass 0 7 ++
    [.tick 60, .sync [] [(7, "r1".toList, 30)], .beginPass 1 [], .checkQuota 1]

theorem throttle_within_quota_synced :
    ∃ t, Runs.exec (throttleStep oneReview) {} syncedRun = some t ∧ t.calls.length = 1 ∧
      WithinQuota oneReview [] t :=
  ⟨_, rfl, rfl, @throttle_within_quota oneReview [] rfl (by decide) syncedRun _ (by decide) rfl⟩

/-- Two passes a minute apart, before any review is recorded. -/
def unsyncedRun : List ThrottleAction :=
  [.enqueue 1 [] {}, .enqueue 2 [] {}] ++ fullPass 0 7 ++ [.tick 60] ++ fullPass 1 8

theorem throttle_over_quota_unsynced :
    ∃ t, Runs.exec (throttleStep oneReview) {} unsyncedRun = some t ∧ ¬ WithinQuota oneReview [] t := by
  refine ⟨_, rfl, ?_⟩
  intro h
  exact absurd (h 60) (by decide)

end Supervisor

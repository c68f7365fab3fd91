import Mathlib.Data.List.TakeWhile
import SovaVerified.Dashboard.Proofs.WorkStateProofs

/-!
# What a review history depends on

Reviews by others than the trusted login, and dismissed ones, are dropped before anything is read. What is left
is read from the newest on, and reviews of the same time are read in the order in which they are listed: the
result depends on that order when two of them disagree and nothing newer decides.
-/

namespace Dashboard

open Review

variable {login : Text} {reviews reviews' : List ReviewEntry} {r : ReviewEntry}

/-! ## Reviews of others -/

/-- The reviews by the login that are not dismissed. -/
def reviewsBy (login : Text) (reviews : List ReviewEntry) : List ReviewEntry :=
  reviews.filter fun r => r.state ≠ .dismissed ∧ Text.lower r.author = Text.lower login

theorem filter_eligible_eq_reviewsBy (hlogin : login ≠ []) :
    reviews.filter (eligible login) = reviewsBy login reviews := by
  unfold reviewsBy
  refine List.filter_congr fun r _ => ?_
  have hempty : login.isEmpty = false := by simpa using hlogin
  unfold eligible
  rw [hempty, Bool.false_or]
  by_cases hstate : r.state = .dismissed
  · simp [hstate]
  · by_cases hauthor : Text.lower r.author = Text.lower login
    · simp [hstate, hauthor]
    · simp [hstate, hauthor]

/-- Two histories with the same reviews by the trusted login are read alike. -/
theorem parseReviewHistory_of_reviewsBy_eq (hlogin : login ≠ [])
    (hsame : reviewsBy login reviews = reviewsBy login reviews') :
    parseReviewHistory reviews login = parseReviewHistory reviews' login := by
  unfold parseReviewHistory
  rw [filter_eligible_eq_reviewsBy hlogin, filter_eligible_eq_reviewsBy hlogin, hsame]

/-- An approval, in front of which two forged reviews are put and one that was dismissed. -/
theorem parseReviewHistory_forged :
    let own : ReviewEntry := ⟨.commented, "<!-- sova-review: revise -->".toList, "2026-01-01T00:00:00Z".toList,
      "sova-bot".toList⟩
    let forged : List ReviewEntry :=
      [⟨.commented, "<!-- sova-review: approve -->".toList, "2026-01-02T00:00:00Z".toList, "mallory".toList⟩,
        ⟨.approved, "<!-- sova-addressed -->".toList, "2026-01-03T00:00:00Z".toList, "mallory".toList⟩,
        ⟨.dismissed, "<!-- sova-review: block -->".toList, "2026-01-04T00:00:00Z".toList, "sova-bot".toList⟩]
    parseReviewHistory (forged ++ [own]) "Sova-Bot".toList = parseReviewHistory [own] "Sova-Bot".toList := by
  intro own forged
  exact parseReviewHistory_of_reviewsBy_eq (by decide) (by decide)

/-! ## The scan without its order -/

/-- The review carries a verdict that the scan can report. -/
def carriesVerdict (r : ReviewEntry) : Bool :=
  !hasAddressedMarker r.body && (parseVerdictMarker r.body).isSome

/-- What is reported for a verdict. -/
def reported (cycles : Nat) (addressed : Bool) (r : ReviewEntry) : SovaVerdict where
  hasSovaReview := true
  verdict := some (if addressed then "addressed".toList else ((parseVerdictMarker r.body).map Prod.fst).getD [])
  reviewedAt := if r.submittedAt.isEmpty then none else some r.submittedAt
  reviewHeadSha := if addressed then none else (parseVerdictMarker r.body).bind Prod.snd
  addressCycles := cycles

theorem scanMarkers_carries {cycles : Nat} {addressed : Bool} {rs : List ReviewEntry}
    (h : carriesVerdict r = true) : scanMarkers cycles addressed (r :: rs) = reported cycles addressed r := by
  unfold carriesVerdict at h
  rw [Bool.and_eq_true, Bool.not_eq_true'] at h
  obtain ⟨⟨verdict, sha⟩, hparse⟩ := Option.isSome_iff_exists.mp h.2
  rw [scanMarkers_found h.1 hparse]
  unfold reported
  rw [hparse]
  rfl

theorem carriesVerdict_cases (r : ReviewEntry) :
    carriesVerdict r = true ∨ hasAddressedMarker r.body = true ∨ hasMarker r = false := by
  rcases marker_cases r with h | h | ⟨h, verdict, sha, hparse⟩
  · exact .inr (.inl h)
  · exact .inr (.inr h)
  · left
    simp [carriesVerdict, h, hparse]

/-- The scan up to the first verdict. -/
theorem scanMarkers_front {cycles : Nat} {addressed : Bool} {front back : List ReviewEntry}
    (hfront : ∀ q ∈ front, carriesVerdict q = false) (hr : carriesVerdict r = true) :
    scanMarkers cycles addressed (front ++ r :: back) =
      reported cycles (addressed || front.any fun q => hasAddressedMarker q.body) r := by
  induction front generalizing addressed with
  | nil =>
    rw [List.nil_append, scanMarkers_carries hr, List.any_nil, Bool.or_false]
  | cons q front ih =>
    have hq := hfront q List.mem_cons_self
    have hrest : ∀ q ∈ front, carriesVerdict q = false := fun p hp => hfront p (List.mem_cons_of_mem q hp)
    rcases carriesVerdict_cases q with hcarries | haddressed | hnone
    · rw [hq] at hcarries
      cases hcarries
    · rw [List.cons_append, scanMarkers_addressed haddressed, ih hrest, List.any_cons, haddressed, Bool.true_or,
        Bool.or_true]
    · have hnot : hasAddressedMarker q.body = false := by
        unfold hasMarker at hnone
        exact (Bool.or_eq_false_iff.mp hnone).1
      rw [List.cons_append, scanMarkers_skip hnone, ih hrest, List.any_cons, hnot, Bool.false_or]

/-- A scan without a verdict. -/
theorem scanMarkers_without {cycles : Nat} {addressed : Bool} {rs : List ReviewEntry}
    (h : ∀ q ∈ rs, carriesVerdict q = false) :
    scanMarkers cycles addressed rs = { noReview with addressCycles := cycles } := by
  induction rs generalizing addressed with
  | nil => rfl
  | cons q rs ih =>
    have hq := h q List.mem_cons_self
    have hrest : ∀ q ∈ rs, carriesVerdict q = false := fun p hp => h p (List.mem_cons_of_mem q hp)
    rcases carriesVerdict_cases q with hcarries | haddressed | hnone
    · rw [hq] at hcarries
      cases hcarries
    · rw [scanMarkers_addressed haddressed, ih hrest]
    · rw [scanMarkers_skip hnone, ih hrest]

/-! ## The latest verdict -/

/-- The eligible review carries a verdict, and no other one carries a newer verdict. -/
structure IsLatestVerdict (login : Text) (reviews : List ReviewEntry) (r : ReviewEntry) : Prop where
  mem : r ∈ reviews
  eligible : eligible login r = true
  carries : carriesVerdict r = true
  latest : ∀ q ∈ reviews, Dashboard.eligible login q = true → carriesVerdict q = true →
    q.submittedAt ≤ r.submittedAt

/-- The number of address cycles. -/
def addressCyclesOf (login : Text) (reviews : List ReviewEntry) : Nat :=
  (reviews.filter (eligible login)).countP fun r => hasAddressedMarker r.body

theorem mem_newestFirst {q : ReviewEntry} {l : List ReviewEntry} : q ∈ newestFirst l ↔ q ∈ l := by
  unfold newestFirst
  exact List.mem_insertionSort _

theorem mem_ordered {q : ReviewEntry} :
    q ∈ newestFirst (reviews.filter (eligible login)) ↔ q ∈ reviews ∧ eligible login q = true := by
  rw [mem_newestFirst, List.mem_filter]

/-- A latest verdict is reported, as addressed when an addressed marker is newer, and otherwise only when one has
its time. -/
theorem parseReviewHistory_cases (login : Text) (reviews : List ReviewEntry) :
    ((∀ q ∈ reviews, eligible login q = true → carriesVerdict q = false) ∧
      parseReviewHistory reviews login =
        { noReview with addressCycles := addressCyclesOf login reviews }) ∨
    ∃ r addressed, IsLatestVerdict login reviews r ∧
      parseReviewHistory reviews login = reported (addressCyclesOf login reviews) addressed r ∧
      (addressed = true → ∃ a ∈ reviews, eligible login a = true ∧ hasAddressedMarker a.body = true ∧
        r.submittedAt ≤ a.submittedAt) ∧
      ∀ a ∈ reviews, eligible login a = true → hasAddressedMarker a.body = true →
        r.submittedAt < a.submittedAt → addressed = true := by
  have hcycles : (newestFirst (reviews.filter (eligible login))).countP (fun r => hasAddressedMarker r.body) =
      addressCyclesOf login reviews := (List.perm_insertionSort _ _).countP_eq _
  have hsorted := pairwise_newestFirst (reviews.filter (eligible login))
  unfold parseReviewHistory
  dsimp only
  rw [hcycles]
  cases hfind : (newestFirst (reviews.filter (eligible login))).find? carriesVerdict with
  | none =>
    have hnone : ∀ q ∈ newestFirst (reviews.filter (eligible login)), carriesVerdict q = false := by
      intro q hq
      simpa using List.find?_eq_none.mp hfind q hq
    exact .inl ⟨fun q hq heq => hnone q (mem_ordered.mpr ⟨hq, heq⟩), scanMarkers_without hnone⟩
  | some r =>
    right
    obtain ⟨hr, front, back, hsplit, hfront⟩ := List.find?_eq_some_iff_append.mp hfind
    have hfront' : ∀ q ∈ front, carriesVerdict q = false := by
      intro q hq
      simpa using hfront q hq
    rw [hsplit] at hsorted
    obtain ⟨-, hback, hcross⟩ := List.pairwise_append.mp hsorted
    have hmem : ∀ q, q ∈ front ∨ q = r ∨ q ∈ back ↔ q ∈ reviews ∧ eligible login q = true := by
      intro q
      rw [← mem_ordered, hsplit, List.mem_append, List.mem_cons]
    have hin := (hmem r).mp (.inr (.inl rfl))
    refine ⟨r, front.any fun q => hasAddressedMarker q.body, ⟨hin.1, hin.2, hr, ?_⟩, ?_, ?_, ?_⟩
    · intro q hq heq hcarries
      rcases (hmem q).mpr ⟨hq, heq⟩ with hq | rfl | hq
      · rw [hfront' q hq] at hcarries
        cases hcarries
      · exact le_refl _
      · exact List.rel_of_pairwise_cons hback hq
    · rw [hsplit, scanMarkers_front hfront' hr, Bool.false_or]
    · intro haddressed
      obtain ⟨a, ha, hmarker⟩ := List.any_eq_true.mp haddressed
      obtain ⟨hreviews, heq⟩ := (hmem a).mp (.inl ha)
      exact ⟨a, hreviews, heq, hmarker, hcross a ha r List.mem_cons_self⟩
    · intro a ha heq hmarker hlt
      rcases (hmem a).mpr ⟨ha, heq⟩ with ha | rfl | ha
      · exact List.any_eq_true.mpr ⟨a, ha, hmarker⟩
      · exact absurd hlt (lt_irrefl _)
      · exact absurd hlt (not_lt_of_ge (List.rel_of_pairwise_cons hback ha))

/-! ## The order of the reviews -/

/-- Nothing rests on the order of the reviews: of those that have the time of the latest verdict, unless an
addressed marker is newer, all with a marker carry the same verdict. -/
def OrderFree (login : Text) (reviews : List ReviewEntry) : Prop :=
  ∀ r, IsLatestVerdict login reviews r →
    (∀ a ∈ reviews, eligible login a = true → hasAddressedMarker a.body = true →
      a.submittedAt ≤ r.submittedAt) →
    ∀ q ∈ reviews, eligible login q = true → hasMarker q = true → q.submittedAt = r.submittedAt →
      hasAddressedMarker q.body = false ∧ parseVerdictMarker q.body = parseVerdictMarker r.body

theorem addressCyclesOf_perm (h : reviews'.Perm reviews) :
    addressCyclesOf login reviews' = addressCyclesOf login reviews := (h.filter _).countP_eq _

theorem hasMarker_of_carriesVerdict (h : carriesVerdict r = true) : hasMarker r = true := by
  unfold carriesVerdict at h
  unfold hasMarker
  rw [(Bool.and_eq_true_iff.mp h).2, Bool.or_true]

theorem reported_congr {cycles : Nat} {addressed : Bool} {r' : ReviewEntry}
    (htime : r'.submittedAt = r.submittedAt)
    (hparse : addressed = true ∨ parseVerdictMarker r'.body = parseVerdictMarker r.body) :
    reported cycles addressed r' = reported cycles addressed r := by
  unfold reported
  rw [htime]
  rcases hparse with rfl | hparse
  · rfl
  · rw [hparse]

/-- Histories in which nothing rests on the order are read alike in every order. -/
theorem parseReviewHistory_perm (hfree : OrderFree login reviews) (h : reviews'.Perm reviews) :
    parseReviewHistory reviews' login = parseReviewHistory reviews login := by
  rcases parseReviewHistory_cases login reviews with ⟨hnone, heq⟩ | ⟨r, addressed, hr, heq, hsome, hnewer⟩
  · rcases parseReviewHistory_cases login reviews' with ⟨-, heq'⟩ | ⟨r', addressed', hr', -⟩
    · rw [heq, heq', addressCyclesOf_perm h]
    · have hcarries := hnone r' (h.mem_iff.mp hr'.mem) hr'.eligible
      rw [hr'.carries] at hcarries
      cases hcarries
  · rcases parseReviewHistory_cases login reviews' with ⟨hnone', -⟩ | ⟨r', addressed', hr', heq', hsome', hnewer'⟩
    · have hcarries := hnone' r (h.mem_iff.mpr hr.mem) hr.eligible
      rw [hr.carries] at hcarries
      cases hcarries
    · have htime : r'.submittedAt = r.submittedAt :=
        le_antisymm (hr.latest r' (h.mem_iff.mp hr'.mem) hr'.eligible hr'.carries)
          (hr'.latest r (h.mem_iff.mpr hr.mem) hr.eligible hr.carries)
      rw [heq, heq', addressCyclesOf_perm h]
      by_cases hany : ∃ a ∈ reviews, eligible login a = true ∧ hasAddressedMarker a.body = true ∧
          r.submittedAt < a.submittedAt
      · -- a newer addressed marker decides
        obtain ⟨a, ha, heligible, hmarker, hlt⟩ := hany
        obtain rfl := hnewer a ha heligible hmarker hlt
        obtain rfl := hnewer' a (h.mem_iff.mpr ha) heligible hmarker (htime ▸ hlt)
        exact reported_congr htime (.inl rfl)
      · have hle : ∀ a ∈ reviews, eligible login a = true → hasAddressedMarker a.body = true →
            a.submittedAt ≤ r.submittedAt := by
          intro a ha heligible hmarker
          by_contra hgt
          exact hany ⟨a, ha, heligible, hmarker, not_le.mp hgt⟩
        have hties := hfree r hr hle
        have hno : ∀ a ∈ reviews, eligible login a = true → hasAddressedMarker a.body = true →
            ¬ r.submittedAt ≤ a.submittedAt := by
          intro a ha heligible hmarker hge
          have hmarked : hasMarker a = true := by
            unfold hasMarker
            rw [hmarker, Bool.true_or]
          have hties' := hties a ha heligible hmarked (le_antisymm (hle a ha heligible hmarker) hge)
          rw [hties'.1] at hmarker
          cases hmarker
        have haddressed : addressed = false := by
          by_contra hne
          obtain ⟨a, ha, heligible, hmarker, hge⟩ := hsome (by simpa using hne)
          exact hno a ha heligible hmarker hge
        have haddressed' : addressed' = false := by
          by_contra hne
          obtain ⟨a, ha, heligible, hmarker, hge⟩ := hsome' (by simpa using hne)
          exact hno a (h.mem_iff.mp ha) heligible hmarker (htime ▸ hge)
        rw [haddressed, haddressed']
        refine reported_congr htime (.inr ?_)
        exact (hties r' (h.mem_iff.mp hr'.mem) hr'.eligible (hasMarker_of_carriesVerdict hr'.carries) htime).2

/-- The first of the newest markers is read first. -/
theorem parseReviewHistory_cons {rest : List ReviewEntry} (heligible : eligible login r = true)
    (hnewest : ∀ q ∈ rest, eligible login q = true → hasMarker q = true → q.submittedAt ≤ r.submittedAt) :
    ∃ back, parseReviewHistory (r :: rest) login =
      scanMarkers (addressCyclesOf login (r :: rest)) false (r :: back) := by
  have hcycles : (newestFirst ((r :: rest).filter (eligible login))).countP (fun r => hasAddressedMarker r.body) =
      addressCyclesOf login (r :: rest) := (List.perm_insertionSort _ _).countP_eq _
  have hsplit : newestFirst ((r :: rest).filter (eligible login)) =
      (newestFirst (rest.filter (eligible login))).takeWhile (fun b => ¬ b.submittedAt ≤ r.submittedAt) ++
        r :: (newestFirst (rest.filter (eligible login))).dropWhile
          (fun b => ¬ b.submittedAt ≤ r.submittedAt) := by
    rw [List.filter_cons_of_pos heligible]
    exact List.orderedInsert_eq_take_drop _ r _
  have hskip : ∀ front : List ReviewEntry, (∀ q ∈ front, hasMarker q = false) → ∀ cycles back,
      scanMarkers cycles false (front ++ back) = scanMarkers cycles false back := by
    intro front hfront cycles back
    induction front with
    | nil => rfl
    | cons q front ih =>
      rw [List.cons_append, scanMarkers_skip (hfront q List.mem_cons_self)]
      exact ih fun p hp => hfront p (List.mem_cons_of_mem q hp)
  unfold parseReviewHistory
  dsimp only
  rw [hcycles, hsplit]
  refine ⟨_, hskip _ (fun q hq => ?_) _ _⟩
  have hgt : ¬ q.submittedAt ≤ r.submittedAt := by simpa using List.mem_takeWhile_imp hq
  have hmem := mem_ordered.mp (List.takeWhile_subset _ hq)
  by_contra hmarker
  exact hgt (hnewest q hmem.1 hmem.2 (by simpa using hmarker))

/-- A review history is read alike in every order of its reviews exactly when nothing rests on their order. -/
theorem parseReviewHistory_perm_iff (reviews : List ReviewEntry) (login : Text) :
    (∀ reviews' : List ReviewEntry, reviews'.Perm reviews →
      parseReviewHistory reviews' login = parseReviewHistory reviews login) ↔ OrderFree login reviews := by
  refine ⟨?_, fun hfree _ h => parseReviewHistory_perm hfree h⟩
  intro h r hr haddressed q hq heligible hmarker htime
  -- every review with a marker is as old as `r`, or older
  have hnewest : ∀ p ∈ reviews, eligible login p = true → hasMarker p = true →
      p.submittedAt ≤ r.submittedAt := by
    intro p hp hpeligible hpmarker
    rcases carriesVerdict_cases p with hcarries | haddr | hnone
    · exact hr.latest p hp hpeligible hcarries
    · exact haddressed p hp hpeligible haddr
    · rw [hpmarker] at hnone
      cases hnone
  have hfirst : ∀ p ∈ reviews, eligible login p = true → p.submittedAt = r.submittedAt →
      ∃ back, parseReviewHistory reviews login =
        scanMarkers (addressCyclesOf login reviews) false (p :: back) := by
    intro p hp hpeligible hptime
    have hperm : (p :: reviews.erase p).Perm reviews := (List.perm_cons_erase hp).symm
    obtain ⟨back, hback⟩ := @parseReviewHistory_cons login p (reviews.erase p) hpeligible fun s hs hse hsm =>
      hptime ▸ hnewest s (List.mem_of_mem_erase hs) hse hsm
    rw [addressCyclesOf_perm hperm] at hback
    exact ⟨back, (h _ hperm).symm.trans hback⟩
  obtain ⟨back, hback⟩ := hfirst r hr.mem hr.eligible rfl
  obtain ⟨back', hback'⟩ := hfirst q hq heligible htime
  rw [hback, scanMarkers_carries hr.carries] at hback'
  obtain ⟨⟨verdict, sha⟩, hparse⟩ := Option.isSome_iff_exists.mp (Bool.and_eq_true_iff.mp hr.carries).2
  rcases marker_cases q with haddr | hnone | ⟨hnot, verdict', sha', hparse'⟩
  · -- an addressed marker in front reports no verdict of its own
    rw [scanMarkers_addressed haddr] at hback'
    have hverdict : (reported (addressCyclesOf login reviews) false r).verdict = some verdict := by
      unfold reported
      rw [hparse]
      rfl
    rw [hback'] at hverdict
    rcases scanMarkers_true (addressCyclesOf login reviews) back' with hv | hv
    · rw [hv] at hverdict
      cases hverdict
    · rw [hv] at hverdict
      exact absurd (Option.some.inj hverdict).symm (parseVerdictMarker_ne_addressed hparse)
  · rw [hmarker] at hnone
    cases hnone
  · refine ⟨hnot, ?_⟩
    have hcarries : carriesVerdict q = true := by simp [carriesVerdict, hnot, hparse']
    rw [scanMarkers_carries hcarries] at hback'
    unfold reported at hback'
    rw [hparse, hparse'] at hback'
    injection hback' with _ hverdict _ hsha
    have hv : verdict = verdict' := Option.some.inj hverdict
    have hs : sha = sha' := hsha
    rw [hparse, hparse', hv, hs]

/-- Two reviews of the same second, one that approves and one that blocks. -/
theorem parseReviewHistory_depends_on_order :
    let approve : ReviewEntry := ⟨.commented, "<!-- sova-review: approve -->".toList,
      "2026-01-01T00:00:00Z".toList, "sova-bot".toList⟩
    let block : ReviewEntry := ⟨.commented, "<!-- sova-review: block -->".toList,
      "2026-01-01T00:00:00Z".toList, "sova-bot".toList⟩
    [block, approve].Perm [approve, block] ∧
      (parseReviewHistory [approve, block] "sova-bot".toList).verdict = some "approve".toList ∧
      (parseReviewHistory [block, approve] "sova-bot".toList).verdict = some "block".toList := by
  intro approve block
  exact ⟨List.Perm.swap _ _ _, by decide +kernel, by decide +kernel⟩

end Dashboard

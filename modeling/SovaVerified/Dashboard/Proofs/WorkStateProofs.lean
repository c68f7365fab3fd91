import SovaVerified.Dashboard.WorkState
import SovaVerified.Review.Proofs.FormatProofs

/-!
# Proofs: the verdict of a review history

A formatted review is read back as the review that was written, as long as no text of the model in it
is taken for an addressed marker.
-/

namespace Dashboard

open Review

/-! ## A history of one review -/

theorem eligible_of_author {r : ReviewEntry} {login : Text} (hstate : r.state ≠ .dismissed)
    (hauthor : Text.lower r.author = Text.lower login) : eligible login r = true := by
  unfold eligible
  simp [hstate, hauthor]

theorem parseReviewHistory_singleton {r : ReviewEntry} {login : Text} (h : eligible login r = true) :
    parseReviewHistory [r] login =
      scanMarkers (if hasAddressedMarker r.body then 1 else 0) false [r] := by
  unfold parseReviewHistory newestFirst
  simp [h, List.countP_cons]

/-- The review of the findings `b.findings` at the commit `sha` is read back from a history that
consists of it: there is a SOVA review, with the verdict of the findings and this anchor. -/
def RoundTrips (b : ReviewBody) (sha : Sha) : Prop :=
  ∀ (login : Text) (r : ReviewEntry), r.state ≠ .dismissed →
    Text.lower r.author = Text.lower login →
    r.body = formatReviewBody { b with sha := some sha.digits } →
    (parseReviewHistory [r] login).hasSovaReview = true ∧
      (parseReviewHistory [r] login).verdict =
        some (Text.lower (verdictFromFindings b.thresholds b.findings).name) ∧
      (parseReviewHistory [r] login).reviewHeadSha = some sha.digits

/-- What the scan makes of a formatted review. -/
theorem parseReviewHistory_formatted {b : ReviewBody} {sha : Sha} {r : ReviewEntry} (login : Text)
    (hstate : r.state ≠ .dismissed) (hauthor : Text.lower r.author = Text.lower login)
    (hbody : r.body = formatReviewBody { b with sha := some sha.digits }) :
    let v := parseReviewHistory [r] login
    if b.quotesMarker then v.hasSovaReview = false
    else v.hasSovaReview = true ∧ v.verdict = some (Text.lower b.verdict.name) ∧
      v.reviewHeadSha = some (Text.lower sha.digits) := by
  have hmarker : hasAddressedMarker r.body = b.quotesMarker := by
    rw [hbody]
    exact hasAddressedMarker_formatReviewBody b (some sha)
  have hverdict : parseVerdictMarker r.body =
      some (Text.lower b.verdict.name, some (Text.lower sha.digits)) := by
    rw [hbody]
    exact parseVerdictMarker_formatReviewBody b (some sha)
  simp only [parseReviewHistory_singleton (eligible_of_author hstate hauthor)]
  by_cases hq : b.quotesMarker = true
  · simp [scanMarkers, hmarker, hq, noReview]
  · simp [scanMarkers, hmarker, hq, hverdict]

/-- A posted review is read back as it was written exactly when its commit is spelled in lower case
and no text of the model in the body is taken for an addressed marker. -/
theorem review_round_trip (b : ReviewBody) (sha : Sha) :
    RoundTrips b sha ↔ Text.lower sha.digits = sha.digits ∧ b.quotesMarker = false := by
  constructor
  · intro h
    let r : ReviewEntry := ⟨.commented, formatReviewBody { b with sha := some sha.digits }, [], []⟩
    have hstate : r.state ≠ .dismissed := ReviewState.noConfusion
    have hread := h [] r hstate rfl rfl
    have hscan := parseReviewHistory_formatted [] hstate rfl rfl
    by_cases hq : b.quotesMarker = true
    · simp only [hq, if_true] at hscan
      rw [hscan] at hread
      exact absurd hread.1 (by decide)
    · simp only [hq, Bool.false_eq_true, if_false] at hscan
      refine ⟨?_, by simpa using hq⟩
      have hsha := hscan.2.2.symm.trans hread.2.2
      exact Option.some.inj hsha
  · rintro ⟨hlow, hq⟩ login r hstate hauthor hbody
    have hscan := parseReviewHistory_formatted login hstate hauthor hbody
    simp only [hq, Bool.false_eq_true, if_false] at hscan
    rw [hlow] at hscan
    exact hscan

/-- A blocking review of the file that defines the markers. -/
def quotingReview : ReviewBody where
  findings := [{
    file := some "sova/utils/review_markers.py".toList
    line := some 60
    severity := some 8
    category := some "bug".toList
    description := some "An unanchored <!-- sova-addressed --> hides every verdict.".toList }]

def reviewedSha : Sha := ⟨"0123456789abcdef0123456789abcdef01234567".toList, by decide⟩

/-- Its finding quotes the marker, and the review is read as no review at all. -/
theorem quotingReview_not_read_back : ¬ RoundTrips quotingReview reviewedSha := by
  intro h
  let r : ReviewEntry := {
    state := .commented
    body := formatReviewBody { quotingReview with sha := some reviewedSha.digits }
    submittedAt := "2026-01-01T00:00:00Z".toList
    author := "sova".toList }
  have hstate : r.state ≠ .dismissed := ReviewState.noConfusion
  have hread := h "sova".toList r hstate rfl rfl
  have hscan := parseReviewHistory_formatted "sova".toList hstate rfl rfl
  have hq : quotingReview.quotesMarker = true := by decide
  simp only [hq, if_true] at hscan
  rw [hscan] at hread
  exact absurd hread.1 (by decide)

/-! ## The newest marker -/

/-- The review carries one of the two markers. -/
def hasMarker (r : ReviewEntry) : Bool :=
  hasAddressedMarker r.body || (parseVerdictMarker r.body).isSome

/-- `r` carries the newest marker of the eligible reviews: of the ones submitted at the same time, it
is the first. -/
def NewestMarker (login : Text) (reviews : List ReviewEntry) (r : ReviewEntry) : Prop :=
  eligible login r = true ∧ hasMarker r = true ∧ ∃ front back, reviews = front ++ r :: back ∧
    (∀ q ∈ front, eligible login q = true → hasMarker q = true → q.submittedAt < r.submittedAt) ∧
    ∀ q ∈ back, eligible login q = true → hasMarker q = true → q.submittedAt ≤ r.submittedAt

section

variable {cycles : Nat} {addressed : Bool} {r : ReviewEntry} {rs : List ReviewEntry}

theorem scanMarkers_addressed (h : hasAddressedMarker r.body = true) :
    scanMarkers cycles addressed (r :: rs) = scanMarkers cycles true rs := by
  simp [scanMarkers, h]

theorem scanMarkers_skip (h : hasMarker r = false) :
    scanMarkers cycles addressed (r :: rs) = scanMarkers cycles addressed rs := by
  simp only [hasMarker, Bool.or_eq_false_iff, Option.isSome_eq_false_iff, Option.isNone_iff_eq_none]
    at h
  simp [scanMarkers, h.1, h.2]

theorem scanMarkers_found {verdict : Text} {sha : Option Text} (h : hasAddressedMarker r.body = false)
    (hp : parseVerdictMarker r.body = some (verdict, sha)) :
    scanMarkers cycles addressed (r :: rs) =
      { hasSovaReview := true
        verdict := some (if addressed then "addressed".toList else verdict)
        reviewedAt := if r.submittedAt.isEmpty then none else some r.submittedAt
        reviewHeadSha := if addressed then none else sha
        addressCycles := cycles } := by
  have hnot : ¬ hasAddressedMarker r.body = true := by rw [h]; exact Bool.false_ne_true
  rw [scanMarkers, if_neg hnot, hp]

/-- The three ways in which the scan can go on from a review. -/
theorem marker_cases (r : ReviewEntry) :
    hasAddressedMarker r.body = true ∨ hasMarker r = false ∨
      (hasAddressedMarker r.body = false ∧ ∃ verdict sha,
        parseVerdictMarker r.body = some (verdict, sha)) := by
  by_cases ha : hasAddressedMarker r.body = true
  · exact .inl ha
  · have ha' : hasAddressedMarker r.body = false := by simpa using ha
    cases hp : parseVerdictMarker r.body with
    | none => exact .inr (.inl (by simp [hasMarker, ha', hp]))
    | some found => exact .inr (.inr ⟨ha', found.1, found.2, rfl⟩)

end

/-- Once an addressed marker was met, no verdict but `addressed` is reported. -/
theorem scanMarkers_true (cycles : Nat) (rs : List ReviewEntry) :
    (scanMarkers cycles true rs).verdict = none ∨
      (scanMarkers cycles true rs).verdict = some "addressed".toList := by
  induction rs with
  | nil => exact .inl rfl
  | cons r rs ih =>
    rcases marker_cases r with h | h | ⟨h, verdict, sha, hp⟩
    · rw [scanMarkers_addressed h]
      exact ih
    · rw [scanMarkers_skip h]
      exact ih
    · rw [scanMarkers_found h hp]
      exact .inr rfl

/-- A reported approval is the marker of the first review of the scan that carries one. -/
theorem scanMarkers_approve {cycles : Nat} {rs : List ReviewEntry}
    (h : (scanMarkers cycles false rs).verdict = some "approve".toList) :
    ∃ front r back, rs = front ++ r :: back ∧ (∀ q ∈ front, hasMarker q = false) ∧
      hasAddressedMarker r.body = false ∧
      parseVerdictMarker r.body =
        some ("approve".toList, (scanMarkers cycles false rs).reviewHeadSha) := by
  induction rs with
  | nil => simp [scanMarkers, noReview] at h
  | cons r rs ih =>
    rcases marker_cases r with ha | ha | ⟨ha, verdict, sha, hp⟩
    · rw [scanMarkers_addressed ha] at h
      rcases scanMarkers_true cycles rs with hv | hv <;> rw [hv] at h <;> exact absurd h (by decide)
    · rw [scanMarkers_skip ha] at h ⊢
      obtain ⟨front, r', back, hsplit, hfront, hr'⟩ := ih h
      refine ⟨r :: front, r', back, by rw [hsplit]; rfl, ?_, hr'⟩
      intro q hq
      rcases List.mem_cons.mp hq with rfl | hq
      · exact ha
      · exact hfront q hq
    · rw [scanMarkers_found ha hp] at h ⊢
      have hverdict : verdict = "approve".toList := Option.some.inj h
      refine ⟨[], r, rs, rfl, by simp, ha, ?_⟩
      rw [hp, hverdict]
      rfl

theorem scanMarkers_addressCycles (cycles : Nat) (addressed : Bool) (rs : List ReviewEntry) :
    (scanMarkers cycles addressed rs).addressCycles = cycles := by
  induction rs generalizing addressed with
  | nil => rfl
  | cons r rs ih =>
    rcases marker_cases r with h | h | ⟨h, verdict, sha, hp⟩
    · rw [scanMarkers_addressed h]
      exact ih true
    · rw [scanMarkers_skip h]
      exact ih addressed
    · rw [scanMarkers_found h hp]

/-- Sorting keeps the order of the entries that it takes for equal. -/
theorem filter_newestFirst (reviews : List ReviewEntry) (p : ReviewEntry → Bool) (t : Text) :
    (newestFirst reviews).filter (fun r => p r && r.submittedAt == t) =
      reviews.filter (fun r => p r && r.submittedAt == t) := by
  have hperm : (newestFirst reviews).Perm reviews := List.perm_insertionSort _ reviews
  have hpair : (reviews.filter fun r => p r && r.submittedAt == t).Pairwise
      (fun a b => b.submittedAt ≤ a.submittedAt) := by
    refine List.pairwise_of_forall_mem_list ?_
    intro a ha b hb
    have ha' := (List.mem_filter.mp ha).2
    have hb' := (List.mem_filter.mp hb).2
    simp only [Bool.and_eq_true, beq_iff_eq] at ha' hb'
    rw [ha'.2, hb'.2]
  have hsub : (reviews.filter fun r => p r && r.submittedAt == t).Sublist
      (newestFirst reviews) := List.sublist_insertionSort hpair List.filter_sublist
  have hsub' := hsub.filter (fun r => p r && r.submittedAt == t)
  rw [List.filter_filter] at hsub'
  simp only [Bool.and_self] at hsub'
  exact (hsub'.eq_of_length (hperm.filter _).length_eq.symm).symm

theorem pairwise_newestFirst (reviews : List ReviewEntry) :
    (newestFirst reviews).Pairwise fun a b => b.submittedAt ≤ a.submittedAt := by
  have : Std.Total fun a b : ReviewEntry => b.submittedAt ≤ a.submittedAt :=
    ⟨fun a b => le_total b.submittedAt a.submittedAt⟩
  have : IsTrans ReviewEntry fun a b => b.submittedAt ≤ a.submittedAt :=
    ⟨fun _ _ _ hab hbc => le_trans hbc hab⟩
  exact List.pairwise_insertionSort _ reviews

/-- An approval is reported only when the newest marker is one. -/
theorem parseReviewHistory_approve {reviews : List ReviewEntry} {login : Text}
    (h : (parseReviewHistory reviews login).verdict = some "approve".toList) :
    ∃ r, NewestMarker login reviews r ∧ hasAddressedMarker r.body = false ∧
      parseVerdictMarker r.body =
        some ("approve".toList, (parseReviewHistory reviews login).reviewHeadSha) := by
  obtain ⟨front, r, back, hsplit, hfront, hnot, hparse⟩ := scanMarkers_approve h
  have hmarker : hasMarker r = true := by simp [hasMarker, hparse]
  have hsorted := pairwise_newestFirst (reviews.filter (eligible login))
  rw [hsplit] at hsorted
  -- no marker is newer than the one of `r`
  have hnewest : ∀ q ∈ reviews, eligible login q = true → hasMarker q = true →
      q.submittedAt ≤ r.submittedAt := by
    intro q hq heq hmq
    have hmem : q ∈ newestFirst (reviews.filter (eligible login)) := by
      unfold newestFirst
      exact (List.mem_insertionSort _).mpr (List.mem_filter.mpr ⟨hq, heq⟩)
    rw [hsplit, List.mem_append] at hmem
    rcases hmem with hmem | hmem
    · rw [hfront q hmem] at hmq
      exact absurd hmq Bool.false_ne_true
    · rcases List.mem_cons.mp hmem with rfl | hmem
      · exact le_refl _
      · exact List.rel_of_pairwise_cons (List.pairwise_append.mp hsorted).2.1 hmem
  -- and of the reviews submitted with it, `r` is the first
  have hstable := filter_newestFirst (reviews.filter (eligible login)) hasMarker r.submittedAt
  have hempty : front.filter (fun q => hasMarker q && q.submittedAt == r.submittedAt) = [] := by
    rw [List.filter_eq_nil_iff]
    intro q hq
    simp [hfront q hq]
  rw [hsplit, List.filter_append, hempty, List.nil_append, List.filter_cons_of_pos (by simp [hmarker]),
    List.filter_filter] at hstable
  obtain ⟨before, after, hreviews, hbefore, hr, -⟩ := List.filter_eq_cons_iff.mp hstable.symm
  simp only [Bool.and_eq_true, beq_self_eq_true, and_true] at hr
  refine ⟨r, ⟨hr.2, hmarker, before, after, hreviews, ?_, ?_⟩, hnot, hparse⟩
  · intro q hq heq hmq
    have hle := hnewest q (by rw [hreviews]; simp [hq]) heq hmq
    have hne : q.submittedAt ≠ r.submittedAt := by
      intro hsame
      exact hbefore q hq (by simp [hmq, heq, hsame])
    exact lt_of_le_of_ne hle hne
  · intro q hq heq hmq
    exact hnewest q (by rw [hreviews]; simp [hq]) heq hmq

theorem parseReviewHistory_addressCycles (reviews : List ReviewEntry) (login : Text) :
    (parseReviewHistory reviews login).addressCycles =
      (reviews.filter (eligible login)).countP fun r => hasAddressedMarker r.body := by
  unfold parseReviewHistory
  rw [scanMarkers_addressCycles]
  exact (List.perm_insertionSort _ _).countP_eq _

end Dashboard

/-!
# Proofs: ready to merge

What the resolver has excluded by the time it answers `prReadyToMerge`, and what that says about the
pull request record and the review history behind its facts.
-/

namespace Dashboard

open Adapters (TaskState)

open Review

/-! ## The resolver -/

/-- The facts on which the resolver answers `prReadyToMerge`. -/
structure MergeFacts (facts : PRFacts) : Prop where
  notMerged : facts.prState ≠ .merged
  notConflicting : facts.mergeable ≠ .conflicting
  notDraft : facts.isDraft = false
  budget : budgetExhausted facts = false
  approved : facts.sovaVerdict = some "approve".toList
  fresh : verdictIsStale facts = false
  noChangeRequest : facts.externalChangesRequested = false
  threads : facts.threadSignal = .clear
  ci : facts.ciStatus = .passed ∨ facts.ciStatus = .none
  mergeState : facts.mergeState.isUnmergeable = false

theorem unmetMergeConditions_eq_nil {facts : PRFacts} (h : unmetMergeConditions facts = []) :
    facts.sovaVerdict = some "approve".toList ∧ facts.externalChangesRequested = false ∧
      facts.threadSignal = .clear ∧ (facts.ciStatus = .passed ∨ facts.ciStatus = .none) ∧
      facts.mergeState.isUnmergeable = false := by
  unfold unmetMergeConditions at h
  simp only [List.append_eq_nil_iff, ite_eq_right_iff, List.cons_ne_nil, imp_false, not_not] at h
  obtain ⟨⟨⟨⟨hv, hx⟩, ht⟩, hc⟩, hg⟩ := h
  refine ⟨hv, by simpa using hx, ht, ?_, ?_⟩
  · by_cases hp : facts.ciStatus = .passed
    · exact .inl hp
    · exact .inr (by simpa [hp] using hc)
  · unfold githubWillMerge at hg
    cases hm : facts.mergeState <;> simp [hm, MergeState.isMergeable, MergeState.isUnmergeable] at hg ⊢

/-- The rules are tried in order: a state that a rule does not give comes from the rules after it. -/
theorem state_of_ite {c : Prop} [Decidable c] {r rest : Resolution} {state : WorkItemState}
    (h : (if c then r else rest).state = state) (hr : r.state ≠ state) : ¬c ∧ rest.state = state := by
  by_cases hc : c
  · rw [if_pos hc] at h
    exact absurd h hr
  · rw [if_neg hc] at h
    exact ⟨hc, h⟩

theorem mergeFacts_of_ready {facts : PRFacts}
    (h : (resolveNextAction facts).state = .prReadyToMerge) : MergeFacts facts := by
  unfold resolveNextAction at h
  dsimp only at h
  obtain ⟨-, h⟩ := state_of_ite h (by simp)
  obtain ⟨hmerged, h⟩ := state_of_ite h (by simp)
  obtain ⟨hconf, h⟩ := state_of_ite h (by simp)
  obtain ⟨hdraft, h⟩ := state_of_ite h (by simp)
  obtain ⟨-, h⟩ := state_of_ite h (by simp)
  obtain ⟨-, h⟩ := state_of_ite h (by simp)
  obtain ⟨hbudget, h⟩ := state_of_ite h (by simp)
  obtain ⟨-, h⟩ := state_of_ite h (by simp)
  obtain ⟨-, h⟩ := state_of_ite h (by simp)
  obtain ⟨-, h⟩ := state_of_ite h (by simp)
  obtain ⟨hnone, h⟩ := state_of_ite h (by dsimp only; split_ifs <;> simp)
  obtain ⟨-, h⟩ := state_of_ite h (by simp)
  by_cases hready : unmetMergeConditions facts = []
  · obtain ⟨hv, hx, ht, hc, hg⟩ := unmetMergeConditions_eq_nil hready
    rw [not_or] at hconf hnone
    exact ⟨hmerged, hconf.1, by simpa using hdraft, by simpa using hbudget, hv, by simpa using hnone.2,
      hx, ht, hc, hg⟩
  · rw [if_neg hready] at h
    cases h

/-! ## The record and the history behind the facts -/

/-- The merge is safe as far as the record and the history tell: the newest marker of the trusted
login's reviews approves a commit that `anchored` accepts, and nothing else stands in the way. -/
def MergeSafe (anchored : Option Text → Prop) (pr : PRData) (login : Text)
    (reviews : List ReviewEntry) (maxAddressCycles : Int) : Prop :=
  (∃ r sha, NewestMarker login reviews r ∧ hasAddressedMarker r.body = false ∧
    parseVerdictMarker r.body = some ("approve".toList, sha) ∧ anchored sha) ∧
  pr.computedState ≠ some .changesRequested ∧
  unresolvedThreadCount pr = some 0 ∧
  (pr.ciStatus = .passed ∨ pr.ciStatus = .none) ∧
  (pr.mergeable ≠ .conflicting ∧ pr.mergeState ≠ .dirty) ∧
  (pr.isDraft = false ∧ pr.mergeState ≠ .draft) ∧
  pr.mergeState ≠ .blocked ∧
  (maxAddressCycles ≤ 0 ∨
    (((reviews.filter (eligible login)).countP fun r => hasAddressedMarker r.body : Nat) : Int) <
      maxAddressCycles)

/-- The verdict is unanchored or anchored to the head commit of the record. -/
def AnchoredToHead (pr : PRData) (sha : Option Text) : Prop :=
  sha = none ∨ sha = some pr.headSha

theorem threadSignal_clear {pr : PRData} (h : threadSignal pr = .clear) :
    unresolvedThreadCount pr = some 0 := by
  unfold threadSignal at h
  cases hc : unresolvedThreadCount pr with
  | none => rw [hc] at h; cases h
  | some n =>
    rw [hc] at h
    have hle : ¬ n > 0 := by
      intro hpos
      simp [hpos] at h
    have hnonneg : 0 ≤ n := by
      unfold unresolvedThreadCount at hc
      split at hc
      · rw [← Option.some.inj hc]
        exact Int.le_max_left ..
      · cases hc
      · rw [← Option.some.inj hc]
    have hzero : n = 0 := by omega
    rw [hzero]

/-- The ready state needs a pull request record and no running agent. -/
theorem ready_record {taskState : Option TaskState} {pr : Option PRData} {runningAgent : Bool}
    {verdict : Option SovaVerdict} {external : Bool} {maxAddressCycles : Int}
    (h : (computeWorkItemResolution taskState pr runningAgent verdict external
      maxAddressCycles).1.state = .prReadyToMerge) :
    ∃ d, pr = some d ∧ MergeFacts (buildPRFacts d verdict external maxAddressCycles) := by
  unfold computeWorkItemResolution at h
  cases runningAgent with
  | true =>
    rw [if_pos (.inl rfl)] at h
    dsimp only at h
    unfold resolveNextAction at h
    dsimp only at h
    rw [if_pos rfl] at h
    cases h
  | false =>
    cases pr with
    | some d =>
      rw [if_pos (.inr rfl)] at h
      exact ⟨d, rfl, mergeFacts_of_ready h⟩
    | none =>
      rw [if_neg (by simp)] at h
      cases taskState with
      | none => cases h
      | some s => cases s <;> cases h

/-- An approval in the facts is one that the verdict reports. -/
theorem buildPRFacts_approved {d : PRData} {v : SovaVerdict} {external : Bool}
    {maxAddressCycles : Int}
    (h : (buildPRFacts d (some v) external maxAddressCycles).sovaVerdict = some "approve".toList) :
    v.hasSovaReview = true ∧ v.verdict = some "approve".toList := by
  unfold buildPRFacts at h
  simp only [Option.getD_some] at h
  by_cases hv : v.hasSovaReview = true
  · refine ⟨hv, ?_⟩
    by_cases ha : v.verdict = some "addressed".toList
    · simp [hv, ha] at h
    · simp only [hv, if_true, ha, decide_false, Bool.false_eq_true, if_false] at h
      exact h
  · simp [hv] at h

/-- A fresh approval is unanchored, or the two commits agree, or one of them is unknown. -/
theorem fresh_anchor {facts : PRFacts} (hv : facts.sovaVerdict = some "approve".toList)
    (h : verdictIsStale facts = false) :
    facts.sovaVerdictSha = none ∨ facts.sovaVerdictSha = some [] ∨ facts.headSha = [] ∨
      facts.sovaVerdictSha = some facts.headSha := by
  unfold verdictIsStale at h
  rw [hv] at h
  cases hs : facts.sovaVerdictSha with
  | none => exact .inl rfl
  | some sha =>
    rw [hs] at h
    dsimp only at h
    by_cases hempty : sha = []
    · exact .inr (.inl (by rw [hempty]))
    · by_cases hhead : facts.headSha = []
      · exact .inr (.inr (.inl hhead))
      · refine .inr (.inr (.inr ?_))
        simp [hempty, hhead] at h
        rw [h]

theorem resolveFetched_approve {login : Text} {fetched : Fetched}
    (h : (resolveFetched login fetched).verdict = some "approve".toList) :
    ∃ reviews, fetched = .history reviews false ∧
      resolveFetched login fetched = parseReviewHistory reviews login := by
  have hun : unresolved.verdict ≠ some "approve".toList := by decide
  unfold resolveFetched at h ⊢
  by_cases hl : login.isEmpty = true
  · rw [if_pos hl] at h
    exact absurd h hun
  · rw [if_neg hl] at h ⊢
    cases fetched with
    | raised => exact absurd h hun
    | unavailable => exact absurd h hun
    | history reviews truncated =>
      cases truncated with
      | true => exact absurd h hun
      | false => exact ⟨reviews, rfl, rfl⟩

/-- A pull request that is ready to merge is safe to merge, whatever record and history it was
computed from: the newest marker approves the head commit, or a commit that cannot be compared with
it because one of the two is unknown. -/
theorem ready_to_merge_safe (taskState : Option TaskState) (pr : Option PRData) (runningAgent : Bool)
    (login : Text) (fetched : Fetched) (external : Bool) (maxAddressCycles : Int)
    (h : (computeWorkItemResolution taskState pr runningAgent (some (resolveFetched login fetched))
      external maxAddressCycles).1.state = .prReadyToMerge) :
    ∃ d reviews, pr = some d ∧ fetched = .history reviews false ∧
      MergeSafe (fun sha => AnchoredToHead d sha ∨ d.headSha = []) d login reviews
        maxAddressCycles := by
  obtain ⟨d, rfl, hfacts⟩ := ready_record h
  obtain ⟨hreview, happrove⟩ := buildPRFacts_approved hfacts.approved
  obtain ⟨reviews, rfl, hparsed⟩ := resolveFetched_approve happrove
  rw [hparsed] at hreview happrove hfacts
  obtain ⟨r, hnewest, hnot, hmarker⟩ := parseReviewHistory_approve happrove
  have hanchor : AnchoredToHead d (parseReviewHistory reviews login).reviewHeadSha ∨
      d.headSha = [] := by
    have hfresh := fresh_anchor hfacts.approved hfacts.fresh
    simp only [buildPRFacts, Option.getD_some, hreview, if_true] at hfresh
    rcases hfresh with hf | hf | hf | hf
    · exact .inl (.inl hf)
    · rw [hf] at hmarker
      exact absurd rfl (parseVerdictMarker_sha_ne_nil hmarker)
    · exact .inr hf
    · exact .inl (.inr hf)
  have hstate := hfacts.mergeState
  have hbudget := hfacts.budget
  refine ⟨d, reviews, rfl, rfl, ⟨r, _, hnewest, hnot, hmarker, hanchor⟩, ?_,
    threadSignal_clear hfacts.threads, hfacts.ci, ⟨hfacts.notConflicting, ?_⟩,
    ⟨hfacts.notDraft, ?_⟩, ?_, ?_⟩
  · simpa [buildPRFacts] using hfacts.noChangeRequest
  · intro hm
    simp [buildPRFacts, hm, MergeState.isUnmergeable] at hstate
  · intro hm
    simp [buildPRFacts, hm, MergeState.isUnmergeable] at hstate
  · intro hm
    simp [buildPRFacts, hm, MergeState.isUnmergeable] at hstate
  · rw [← parseReviewHistory_addressCycles]
    simp only [budgetExhausted, buildPRFacts, Option.getD_some, Bool.and_eq_false_iff,
      decide_eq_false_iff_not, Bool.or_eq_false_iff] at hbudget
    omega

/-- A review that approves a commit. -/
def approvingReview : ReviewEntry where
  state := .commented
  body := "<!-- sova-review: approve sha=abcdef1 -->".toList
  submittedAt := "2026-01-01T00:00:00Z".toList
  author := "sova".toList

/-- A green pull request at the given head commit. -/
def greenPR (headSha : Text) : PRData where
  mergeable := .mergeable
  mergeState := .clean
  ciStatus := .passed
  headSha := headSha
  computedState := some .approvedCiGreen
  threadTotal := some (some 2)
  threadResolved := some (some 2)

theorem ready_to_merge_safe_green :
    ∃ d reviews, some (greenPR "abcdef1".toList) = some d ∧
      Fetched.history [approvingReview] false = .history reviews false ∧
      MergeSafe (fun sha => AnchoredToHead d sha ∨ d.headSha = []) d "sova".toList reviews 3 :=
  ready_to_merge_safe none (some (greenPR "abcdef1".toList)) false "sova".toList
    (.history [approvingReview] false) true 3 (by decide)

/-- An approved commit is not compared with an unknown head commit. -/
theorem ready_with_unknown_head :
    ¬ ∀ (taskState : Option TaskState) (pr : Option PRData) (runningAgent : Bool) (login : Text)
      (fetched : Fetched) (external : Bool) (maxAddressCycles : Int),
      (computeWorkItemResolution taskState pr runningAgent (some (resolveFetched login fetched))
        external maxAddressCycles).1.state = .prReadyToMerge →
      ∃ d reviews, pr = some d ∧ fetched = .history reviews false ∧
        MergeSafe (AnchoredToHead d) d login reviews maxAddressCycles := by
  intro h
  obtain ⟨d, reviews, hd, hfetched, ⟨r, sha, hnewest, -, hmarker, hanchor⟩, -⟩ :=
    h none (some (greenPR [])) false "sova".toList (.history [approvingReview] false) true 3
      (by decide)
  obtain ⟨-, -, front, back, hsplit, -⟩ := hnewest
  have hreviews : [approvingReview] = reviews := (Fetched.history.inj hfetched).1
  have hr : r = approvingReview := by
    have hmem : r ∈ [approvingReview] := by rw [hreviews, hsplit]; simp
    exact List.mem_singleton.mp hmem
  have hsha : sha = some "abcdef1".toList := by
    have hparse : parseVerdictMarker approvingReview.body =
      some ("approve".toList, some "abcdef1".toList) := by decide
    rw [hr, hparse] at hmarker
    exact (Prod.mk.inj (Option.some.inj hmarker)).2.symm
  have hhead : d.headSha = [] := by rw [← Option.some.inj hd]; rfl
  rcases hanchor with hnone | hsame
  · rw [hsha] at hnone
    cases hnone
  · rw [hsha, hhead] at hsame
    exact absurd hsame (by decide)

end Dashboard

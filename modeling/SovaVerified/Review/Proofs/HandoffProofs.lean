import SovaVerified.Review.Handoff
import SovaVerified.Review.Proofs.ReviewerProofs

/-!
# When marker, label and handoff say one verdict

The marker is made from all findings, the label and the handoff from the actionable ones. They differ exactly
when a finding about a protected path reaches a threshold that no actionable finding reaches.
-/

namespace Review

/-! ## The verdict as reached thresholds -/

/-- Some finding is at least this severe. -/
def Reaches (bound : Int) (findings : List ReviewFinding) : Prop :=
  ∃ f ∈ findings, bound ≤ clampSeverity f.severity

theorem Reaches.mono {bound : Int} {fs gs : List ReviewFinding} (h : Reaches bound fs) (hsub : fs ⊆ gs) :
    Reaches bound gs := by
  obtain ⟨f, hf, hle⟩ := h
  exact ⟨f, hsub hf, hle⟩

theorem Reaches.anti {bound bound' : Int} {fs : List ReviewFinding} (h : Reaches bound fs) (hle : bound' ≤ bound) :
    Reaches bound' fs := by
  obtain ⟨f, hf, hreach⟩ := h
  exact ⟨f, hf, hle.trans hreach⟩

theorem reaches_iff_le_maxSeverity (bound : Int) (f : ReviewFinding) (fs : List ReviewFinding) :
    Reaches bound (f :: fs) ↔ bound ≤ maxSeverity f.severity (fs.map ReviewFinding.severity) := by
  rw [le_maxSeverity_iff, ← List.map_cons]
  unfold Reaches
  constructor
  · rintro ⟨g, hg, hle⟩
    exact ⟨g.severity, List.mem_map_of_mem hg, hle⟩
  · rintro ⟨s, hs, hle⟩
    obtain ⟨g, hg, rfl⟩ := List.mem_map.mp hs
    exact ⟨g, hg, hle⟩

/-- The verdict of a list of findings, by the thresholds that they reach. -/
theorem verdictLabel_cases (findings : List ReviewFinding) (th : Thresholds) :
    (Reaches th.blockAt findings ∧ verdictLabel findings th = .block) ∨
    (¬ Reaches th.blockAt findings ∧ Reaches th.reviseAt findings ∧ verdictLabel findings th = .revise) ∨
    (¬ Reaches th.blockAt findings ∧ ¬ Reaches th.reviseAt findings ∧ verdictLabel findings th = .approve) := by
  cases findings with
  | nil =>
    have hnone : ∀ bound, ¬ Reaches bound [] := by
      rintro bound ⟨f, hf, -⟩
      cases hf
    exact .inr (.inr ⟨hnone _, hnone _, rfl⟩)
  | cons f fs =>
    have hverdict : verdictLabel (f :: fs) th =
        if th.blockAt ≤ maxSeverity f.severity (fs.map ReviewFinding.severity) then .block
        else if th.reviseAt ≤ maxSeverity f.severity (fs.map ReviewFinding.severity) then .revise
        else .approve := rfl
    rw [reaches_iff_le_maxSeverity, reaches_iff_le_maxSeverity, hverdict]
    by_cases hblock : th.blockAt ≤ maxSeverity f.severity (fs.map ReviewFinding.severity)
    · left
      exact ⟨hblock, if_pos hblock⟩
    · right
      rw [if_neg hblock]
      by_cases hrevise : th.reviseAt ≤ maxSeverity f.severity (fs.map ReviewFinding.severity)
      · left
        exact ⟨hblock, hrevise, if_pos hrevise⟩
      · right
        exact ⟨hblock, hrevise, if_neg hrevise⟩

/-- Two lists of findings have one verdict when they reach the same thresholds. -/
theorem verdictLabel_eq_iff (fs gs : List ReviewFinding) (th : ConfiguredThresholds) :
    verdictLabel fs th.toThresholds = verdictLabel gs th.toThresholds ↔
      (Reaches th.blockAt fs ↔ Reaches th.blockAt gs) ∧ (Reaches th.reviseAt fs ↔ Reaches th.reviseAt gs) := by
  have hanti : ∀ {l : List ReviewFinding}, Reaches th.blockAt l → Reaches th.reviseAt l :=
    fun h => h.anti th.revise_le_block
  rcases verdictLabel_cases fs th.toThresholds with ⟨hb, hv⟩ | ⟨hb, hr, hv⟩ | ⟨hb, hr, hv⟩ <;>
    rcases verdictLabel_cases gs th.toThresholds with ⟨hb', hv'⟩ | ⟨hb', hr', hv'⟩ | ⟨hb', hr', hv'⟩ <;>
    rw [hv, hv']
  · exact iff_of_true rfl ⟨iff_of_true hb hb', iff_of_true (hanti hb) (hanti hb')⟩
  · exact iff_of_false (by decide) fun h => hb' (h.1.mp hb)
  · exact iff_of_false (by decide) fun h => hb' (h.1.mp hb)
  · exact iff_of_false (by decide) fun h => hb (h.1.mpr hb')
  · exact iff_of_true rfl ⟨iff_of_false hb hb', iff_of_true hr hr'⟩
  · exact iff_of_false (by decide) fun h => hr' (h.2.mp hr)
  · exact iff_of_false (by decide) fun h => hb (h.1.mpr hb')
  · exact iff_of_false (by decide) fun h => hr (h.2.mpr hr')
  · exact iff_of_true rfl ⟨iff_of_false hb hb', iff_of_false hr hr'⟩

/-! ## The three verdicts -/

variable {review : ReviewResult} {th : ConfiguredThresholds} {sha : Option Sha} {diffLines : Text → List Int}
  {outcomes : PostOutcomes} {hasIssue autoAddressReview : Bool} {pr : Int} {body : Text}

theorem lower_name_inj {v v' : Verdict} (h : Text.lower v.name = Text.lower v'.name) : v = v' := by
  cases v <;> cases v' <;> first | rfl | exact absurd h (by decide)

/-- Every body that is posted carries the verdict of all findings. -/
theorem parseVerdictMarker_postReview (th : Thresholds)
    (h : postReview review th sha diffLines outcomes = some body) :
    parseVerdictMarker body =
      some (Text.lower (verdictLabel review.findings th).name, sha.map fun s => Text.lower s.digits) := by
  have hbody : ∀ keys, parseVerdictMarker
      (formatFindingsBody review.findings review.summary (sha.map Sha.digits) th keys) =
      some (Text.lower (verdictLabel review.findings th).name, sha.map fun s => Text.lower s.digits) := by
    intro keys
    have hverdict : verdictFromFindings th (review.findings.map ReviewFinding.toDict) =
        verdictLabel review.findings th := by
      unfold verdictFromFindings verdictLabel
      rw [List.map_map]
      rfl
    rw [← hverdict]
    exact parseVerdictMarker_formatReviewBody
      { findings := review.findings.map ReviewFinding.toDict
        summary := review.summary
        thresholds := th
        inlineCommentKeys := keys } sha
  unfold postReview at h
  dsimp only at h
  split at h
  · exact Option.some.inj h ▸ hbody _
  · exact Option.some.inj h ▸ hbody _
  · split at h
    · exact Option.some.inj h ▸ hbody _
    · split at h
      · exact Option.some.inj h ▸ hbody _
      · cases h

theorem blocking_ne_nil_iff (review : ReviewResult) (th : ConfiguredThresholds) :
    review.blocking th.reviseAt ≠ [] ↔ verdictLabel review.actionable th.toThresholds ≠ .approve := by
  have hreach : review.blocking th.reviseAt ≠ [] ↔ Reaches th.reviseAt review.actionable := by
    unfold ReviewResult.blocking Reaches
    rw [ne_eq, List.filter_eq_nil_iff]
    push Not
    simp only [decide_eq_true_eq]
  rw [hreach]
  rcases verdictLabel_cases review.actionable th.toThresholds with ⟨hb, hv⟩ | ⟨-, hr, hv⟩ | ⟨-, hr, hv⟩ <;> rw [hv]
  · exact iff_of_true (hb.anti th.revise_le_block) (by decide)
  · exact iff_of_true hr (by decide)
  · exact iff_of_false hr (by decide)

/-- The next action of a handoff is a fix round exactly when the actionable findings are not approved. -/
theorem nextAction_writeHandoff (th : ConfiguredThresholds) :
    (writeHandoff review false th.toThresholds sha pr autoAddressReview).nextAction = "address_review".toList ↔
      verdictLabel review.actionable th.toThresholds ≠ .approve := by
  rw [← blocking_ne_nil_iff]
  unfold writeHandoff
  rw [if_neg Bool.false_ne_true]
  dsimp only
  split
  next h => exact iff_of_true rfl h
  next h =>
    refine iff_of_false ?_ h
    split <;> decide

/-- The posted marker says the verdict of the label and the handoff exactly when all findings have the verdict
of the actionable ones. -/
theorem oneVerdict_iff_verdictLabel (hposted : postReview review th.toThresholds sha diffLines outcomes = some body) :
    (publish review th.toThresholds sha diffLines outcomes hasIssue pr autoAddressReview).OneVerdict ↔
      verdictLabel review.findings th.toThresholds = verdictLabel review.actionable th.toThresholds := by
  have hmarker := parseVerdictMarker_postReview th.toThresholds hposted
  unfold publish Published.OneVerdict
  dsimp only
  rw [hposted, Option.isNone_some]
  constructor
  · rintro ⟨v, ⟨body', sha', hbody, hparse⟩, -, hhandoff, -⟩
    obtain rfl := Option.some.inj hbody
    rw [hmarker] at hparse
    have hall : verdictLabel review.findings th.toThresholds = v :=
      lower_name_inj (congrArg Prod.fst (Option.some.inj hparse))
    have hactionable : verdictLabel review.actionable th.toThresholds = v := lower_name_inj (Option.some.inj hhandoff)
    rw [hall, hactionable]
  · intro h
    refine ⟨verdictLabel review.actionable th.toThresholds, ⟨body, _, rfl, h ▸ hmarker⟩, fun label hlabel => ?_, rfl,
      nextAction_writeHandoff th⟩
    split at hlabel
    · exact (Option.some.inj hlabel).symm
    · cases hlabel

/-- A threshold that is reached by a finding about a protected path is reached by an actionable finding. -/
def ProtectedCovered (review : ReviewResult) (th : Thresholds) : Prop :=
  ∀ bound ∈ [th.reviseAt, th.blockAt], ∀ f ∈ review.findings, f.category = protectedPath →
    bound ≤ clampSeverity f.severity → ∃ g ∈ review.actionable, bound ≤ clampSeverity g.severity

theorem reaches_findings_iff (review : ReviewResult) (bound : Int) :
    (Reaches bound review.findings ↔ Reaches bound review.actionable) ↔
      ∀ f ∈ review.findings, f.category = protectedPath → bound ≤ clampSeverity f.severity →
        Reaches bound review.actionable := by
  constructor
  · intro h f hf _ hle
    exact h.mp ⟨f, hf, hle⟩
  · intro h
    refine ⟨?_, fun hactionable => hactionable.mono (List.filter_subset_self _)⟩
    rintro ⟨f, hf, hle⟩
    by_cases hcategory : f.category = protectedPath
    · exact h f hf hcategory hle
    · exact ⟨f, List.mem_filter.mpr ⟨hf, decide_eq_true hcategory⟩, hle⟩

/-- A review that was posted leaves one verdict behind exactly when no finding about a protected path alone
reaches a threshold. -/
theorem publish_oneVerdict_iff (review : ReviewResult) (th : ConfiguredThresholds) (sha : Option Sha)
    (diffLines : Text → List Int) (outcomes : PostOutcomes) (hasIssue : Bool) (pr : Int) (autoAddressReview : Bool)
    (hposted : (postReview review th.toThresholds sha diffLines outcomes).isSome) :
    (publish review th.toThresholds sha diffLines outcomes hasIssue pr autoAddressReview).OneVerdict ↔
      ProtectedCovered review th.toThresholds := by
  obtain ⟨body, hbody⟩ := Option.isSome_iff_exists.mp hposted
  rw [oneVerdict_iff_verdictLabel hbody, verdictLabel_eq_iff, reaches_findings_iff, reaches_findings_iff]
  unfold ProtectedCovered
  rw [List.forall_mem_cons, List.forall_mem_singleton]
  exact and_comm

/-- With the default thresholds the finding of the reviewer about protected paths is not a matter of verdict. -/
theorem publish_oneVerdict_default :
    let review : ReviewResult := { findings := [makeProtectedPathFinding "ci.yml".toList []] }
    let th : ConfiguredThresholds := ⟨{}, by decide, by decide, by decide⟩
    (publish review th.toThresholds none (fun _ => []) ⟨.posted, false, false⟩ true 7 true).OneVerdict ↔
      ProtectedCovered review th.toThresholds := by
  intro review th
  exact publish_oneVerdict_iff review th none (fun _ => []) ⟨.posted, false, false⟩ true 7 true rfl

/-- With a revise threshold of 1 the marker of a review that found nothing but a protected path asks for changes,
and the label and the handoff approve. -/
theorem publish_protected_path_disagrees :
    let review : ReviewResult := { findings := [makeProtectedPathFinding "ci.yml".toList []] }
    let th : ConfiguredThresholds := ⟨⟨1, 7⟩, by decide, by decide, by decide⟩
    let p := publish review th.toThresholds none (fun _ => []) ⟨.posted, false, false⟩ true 7 true
    (∃ body, p.body = some body ∧ parseVerdictMarker body = some ("revise".toList, none)) ∧
      p.label = some "sova:approved".toList ∧ p.handoff.verdict = some "approve".toList ∧ ¬ p.OneVerdict := by
  intro review th p
  have hposted : postReview review th.toThresholds none (fun _ => []) ⟨.posted, false, false⟩ = p.body := rfl
  obtain ⟨body, hbody⟩ : ∃ body, p.body = some body := ⟨_, rfl⟩
  rw [hbody] at hposted
  refine ⟨⟨body, hbody, (parseVerdictMarker_postReview th.toThresholds hposted).trans rfl⟩, rfl, rfl, fun h => ?_⟩
  exact absurd ((oneVerdict_iff_verdictLabel hposted).mp h) (by decide)

end Review

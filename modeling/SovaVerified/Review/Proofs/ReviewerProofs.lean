import SovaVerified.Review.Panel
import SovaVerified.Review.Proofs.FormatProofs
import SovaVerified.Review.Proofs.PanelProofs
import SovaVerified.Review.Reviewer
import SovaVerified.Selection.Selection

/-!
# Deduplication of a panel's findings

Being duplicates is not transitive: of three findings at the lines 1, 4 and 7, the middle one is a
duplicate of either neighbour, and the neighbours are none of each other. The scan of
`deduplicate_findings` is a greedy selection in the order of severity, and everything about it is read
off that.
-/

namespace Review

open Selection

/-- Two findings are duplicates: they are about the same file and category, and their lines are near. -/
def Duplicates (proximity : Nat) (f g : ReviewFinding) : Prop :=
  f.file = g.file ∧ f.category = g.category ∧
    ∃ a b, f.line = some a ∧ g.line = some b ∧ (a - b).natAbs ≤ proximity

theorem linesNear_iff {proximity : Nat} {k l : Option Int} :
    linesNear proximity k l = true ↔ ∃ a b, k = some a ∧ l = some b ∧ (a - b).natAbs ≤ proximity := by
  cases k with
  | none => simp [linesNear]
  | some a =>
    cases l with
    | none => simp [linesNear]
    | some b => simp [linesNear]

theorem Duplicates.symm {proximity : Nat} {f g : ReviewFinding} (h : Duplicates proximity f g) :
    Duplicates proximity g f := by
  obtain ⟨hfile, hcategory, a, b, ha, hb, hab⟩ := h
  exact ⟨hfile.symm, hcategory.symm, b, a, hb, ha, by omega⟩

/-- The test that `_is_duplicate` makes with one finding that is kept. -/
def clashes (proximity : Nat) (existing candidate : ReviewFinding) : Bool :=
  existing.file = candidate.file && existing.category = candidate.category &&
    linesNear proximity existing.line candidate.line

theorem clashes_iff {proximity : Nat} {f g : ReviewFinding} :
    clashes proximity f g = true ↔ Duplicates proximity f g := by
  unfold clashes Duplicates
  rw [Bool.and_eq_true, Bool.and_eq_true, linesNear_iff, and_assoc]
  simp

theorem clashes_eq_false_iff {proximity : Nat} {f g : ReviewFinding} :
    clashes proximity f g = false ↔ ¬Duplicates proximity f g := by
  rw [← clashes_iff, Bool.not_eq_true]

theorem keepNew_eq_select (proximity : Nat) (kept rest : List ReviewFinding) :
    keepNew proximity kept rest = select (clashes proximity) kept rest := by
  induction rest generalizing kept with
  | nil => rfl
  | cons f rest ih =>
    unfold keepNew select
    rw [ih, ih]
    rfl

theorem deduplicateFindings_eq_select (fs : List ReviewFinding) (proximity : Nat) :
    deduplicateFindings fs proximity =
      select (clashes proximity) [] (fs.insertionSort fun a b => b.severity ≤ a.severity) :=
  keepNew_eq_select ..

/-- Of the findings that are kept, the more severe ones come first. -/
theorem pairwise_severity_deduplicateFindings (fs : List ReviewFinding) (proximity : Nat) :
    (deduplicateFindings fs proximity).Pairwise fun a b => b.severity ≤ a.severity := by
  rw [deduplicateFindings_eq_select]
  exact (List.pairwise_insertionSort _ fs).sublist (select_sublist [] _)

theorem pairwise_deduplicateFindings (fs : List ReviewFinding) (proximity : Nat) :
    (deduplicateFindings fs proximity).Pairwise fun f g => ¬Duplicates proximity f g := by
  rw [deduplicateFindings_eq_select]
  refine (pairwise_select List.Pairwise.nil _).imp ?_
  intro f g h
  exact clashes_eq_false_iff.mp h

/-- The findings fall into the ones that are kept and the ones that are left out, each for a kept
duplicate that is at least as severe. -/
theorem deduplicateFindings_covers (fs : List ReviewFinding) (proximity : Nat) :
    ∃ dropped, (deduplicateFindings fs proximity ++ dropped).Perm fs ∧
      ∀ f ∈ dropped, ∃ g ∈ deduplicateFindings fs proximity,
        Duplicates proximity f g ∧ f.severity ≤ g.severity := by
  have hsorted := List.pairwise_insertionSort
    (fun a b : ReviewFinding => b.severity ≤ a.severity) fs
  have hperm := List.perm_insertionSort (fun a b : ReviewFinding => b.severity ≤ a.severity) fs
  obtain ⟨dropped, hsplit, hdropped⟩ :=
    select_covers (clashes proximity) [] hsorted
  rw [deduplicateFindings_eq_select]
  refine ⟨dropped, hsplit.trans hperm, ?_⟩
  intro f hf
  obtain ⟨g, hg, hclash, hle⟩ := hdropped f hf
  exact ⟨g, hg, (clashes_iff.mp hclash).symm, hle⟩

theorem mem_of_mem_deduplicateFindings {fs : List ReviewFinding} {f : ReviewFinding} {proximity : Nat}
    (h : f ∈ deduplicateFindings fs proximity) : f ∈ fs := by
  obtain ⟨dropped, hperm, -⟩ := deduplicateFindings_covers fs proximity
  exact hperm.mem_iff.mp (List.mem_append_left dropped h)

/-- Deduplication keeps a finding that is at least as severe as any given one. -/
theorem deduplicateFindings_dominates {fs : List ReviewFinding} {f : ReviewFinding} (hf : f ∈ fs)
    (proximity : Nat) : ∃ g ∈ deduplicateFindings fs proximity, f.severity ≤ g.severity := by
  obtain ⟨dropped, hperm, hdropped⟩ := deduplicateFindings_covers fs proximity
  rcases List.mem_append.mp (hperm.mem_iff.mpr hf) with hkept | hleft
  · exact ⟨f, hkept, le_refl _⟩
  · obtain ⟨g, hg, -, hle⟩ := hdropped f hleft
    exact ⟨g, hg, hle⟩

theorem deduplicateFindings_deduplicateFindings (fs : List ReviewFinding) (proximity : Nat) :
    deduplicateFindings (deduplicateFindings fs proximity) proximity =
      deduplicateFindings fs proximity := by
  have hsorted := (pairwise_severity_deduplicateFindings fs proximity).insertionSort_eq
  have hfree : (deduplicateFindings fs proximity).Pairwise
      fun f g => clashes proximity f g = false :=
    (pairwise_deduplicateFindings fs proximity).imp clashes_eq_false_iff.mpr
  rw [deduplicateFindings_eq_select (deduplicateFindings fs proximity), hsorted]
  exact select_eq_append [] hfree

/-! ## The verdict -/

theorem clampSeverity_mono {s s' : Int} (h : s ≤ s') : clampSeverity s ≤ clampSeverity s' := by
  unfold clampSeverity
  omega

theorem le_maxSeverity_iff (bound s : Int) (severities : List Int) :
    bound ≤ maxSeverity s severities ↔ ∃ x ∈ s :: severities, bound ≤ clampSeverity x := by
  have hfold : ∀ m : Int, bound ≤ severities.foldl (fun m x => max m (clampSeverity x)) m ↔
      bound ≤ m ∨ ∃ x ∈ severities, bound ≤ clampSeverity x := by
    induction severities with
    | nil => simp
    | cons x severities ih =>
      intro m
      rw [List.foldl_cons, ih, le_max_iff, or_assoc]
      simp
  unfold maxSeverity
  rw [hfold]
  simp

/-- A verdict depends on which bounds a severity of the list reaches. -/
theorem verdictFromSeverities_congr (th : Thresholds) {ss ss' : List Int}
    (h : ∀ bound, (∃ s ∈ ss, bound ≤ clampSeverity s) ↔ ∃ s ∈ ss', bound ≤ clampSeverity s) :
    verdictFromSeverities th ss = verdictFromSeverities th ss' := by
  cases ss with
  | nil =>
    cases ss' with
    | nil => rfl
    | cons s' ss' =>
      obtain ⟨s, hs, -⟩ := (h (clampSeverity s')).mpr ⟨s', List.mem_cons_self .., le_refl _⟩
      exact absurd hs List.not_mem_nil
  | cons s ss =>
    cases ss' with
    | nil =>
      obtain ⟨s', hs', -⟩ := (h (clampSeverity s)).mp ⟨s, List.mem_cons_self .., le_refl _⟩
      exact absurd hs' List.not_mem_nil
    | cons s' ss' =>
      have hmax : maxSeverity s ss = maxSeverity s' ss' := by
        apply le_antisymm
        · exact (le_maxSeverity_iff _ s' ss').mpr
            ((h _).mp ((le_maxSeverity_iff _ s ss).mp (le_refl _)))
        · exact (le_maxSeverity_iff _ s ss).mpr
            ((h _).mpr ((le_maxSeverity_iff _ s' ss').mp (le_refl _)))
      simp only [verdictFromSeverities, hmax]

theorem verdict_deduplicateFindings (th : Thresholds) (fs : List ReviewFinding) (proximity : Nat) :
    verdictFromSeverities th ((deduplicateFindings fs proximity).map ReviewFinding.severity) =
      verdictFromSeverities th (fs.map ReviewFinding.severity) := by
  apply verdictFromSeverities_congr
  intro bound
  simp only [List.mem_map, exists_exists_and_eq_and]
  constructor
  · rintro ⟨f, hf, hle⟩
    exact ⟨f, mem_of_mem_deduplicateFindings hf, hle⟩
  · rintro ⟨f, hf, hle⟩
    obtain ⟨g, hg, hsev⟩ := deduplicateFindings_dominates hf proximity
    exact ⟨g, hg, hle.trans (clampSeverity_mono hsev)⟩

/-- What deduplication does to a list of findings. `findings.diff kept` are the occurrences that it
drops. -/
theorem deduplicateFindings_reduces (findings : List ReviewFinding) (proximity : Nat) :
    let kept := deduplicateFindings findings proximity
    kept.Subperm findings ∧
      kept.Pairwise (fun f g => ¬Duplicates proximity f g) ∧
      (∀ f ∈ findings.diff kept, ∃ g ∈ kept,
        Duplicates proximity f g ∧ f.severity ≤ g.severity) ∧
      deduplicateFindings kept proximity = kept ∧
      ∀ th : Thresholds, verdictFromSeverities th (kept.map ReviewFinding.severity) =
        verdictFromSeverities th (findings.map ReviewFinding.severity) := by
  intro kept
  obtain ⟨dropped, hperm, hdropped⟩ := deduplicateFindings_covers findings proximity
  have hdiff : (findings.diff kept).Perm dropped := diff_perm_of_append_perm hperm
  refine ⟨?_, pairwise_deduplicateFindings findings proximity, ?_,
    deduplicateFindings_deduplicateFindings findings proximity,
    fun th => verdict_deduplicateFindings th findings proximity⟩
  · exact (List.sublist_append_left kept dropped).subperm.trans hperm.subperm
  · intro f hf
    exact hdropped f (hdiff.mem_iff.mp hf)

end Review

/-!
# When a review approves

The verdict of a posted review is an approval exactly when no finding that was read blocks; whether
every chunk was read does not enter into it. `approvesOnlyReviewed_iff` says when an approval rests on
a full review all the same.
-/

namespace Review

open Loops

/-! ## The verdict of a list of findings -/

theorem verdictFromSeverities_eq_approve_iff (th : Thresholds) (severities : List Int) :
    verdictFromSeverities th severities = .approve ↔ ∀ s ∈ severities, ¬th.Blocks s := by
  cases severities with
  | nil => simp [verdictFromSeverities]
  | cons s severities =>
    have hblock := le_maxSeverity_iff th.blockAt s severities
    have hrevise := le_maxSeverity_iff th.reviseAt s severities
    simp only [verdictFromSeverities, ge_iff_le]
    by_cases hb : th.blockAt ≤ maxSeverity s severities
    · rw [if_pos hb]
      obtain ⟨x, hx, hxb⟩ := hblock.mp hb
      exact iff_of_false (by simp) fun hall => hall x hx (.inr hxb)
    · rw [if_neg hb]
      by_cases hr : th.reviseAt ≤ maxSeverity s severities
      · rw [if_pos hr]
        obtain ⟨x, hx, hxr⟩ := hrevise.mp hr
        exact iff_of_false (by simp) fun hall => hall x hx (.inl hxr)
      · rw [if_neg hr]
        refine iff_of_true rfl fun x hx hxb => ?_
        rcases hxb with hxr | hxb
        · exact hr (hrevise.mpr ⟨x, hx, hxr⟩)
        · exact hb (hblock.mpr ⟨x, hx, hxb⟩)

/-- A more severe finding blocks as well. -/
theorem Thresholds.Blocks.mono {th : Thresholds} {s s' : Int} (h : th.Blocks s) (hs : s ≤ s') :
    th.Blocks s' := by
  have hclamp := clampSeverity_mono hs
  exact h.imp (·.trans hclamp) (·.trans hclamp)

/-- A posted body approves exactly when none of its findings blocks. -/
theorem approves_formatFindingsBody_iff (findings : List ReviewFinding) (summary : Text)
    (sha : Option Sha) (th : Thresholds) (keys : List (Text × Int)) :
    Approves (formatFindingsBody findings summary (sha.map Sha.digits) th keys) ↔
      ∀ f ∈ findings, ¬th.Blocks f.severity := by
  have hverdict : verdictFromFindings th (findings.map ReviewFinding.toDict) = .approve ↔
      ∀ f ∈ findings, ¬th.Blocks f.severity := by
    unfold verdictFromFindings
    rw [List.map_map, verdictFromSeverities_eq_approve_iff]
    simp only [List.mem_map, forall_exists_index, and_imp, forall_apply_eq_imp_iff₂]
    rfl
  have hparse := parseVerdictMarker_formatReviewBody
    { findings := findings.map ReviewFinding.toDict
      summary := summary
      thresholds := th
      inlineCommentKeys := keys } sha
  unfold Approves formatFindingsBody
  rw [← hverdict]
  constructor
  · rintro ⟨sha', h⟩
    rw [hparse] at h
    have hname : Text.lower (verdictFromFindings th (findings.map ReviewFinding.toDict)).name =
        "approve".toList :=
      congrArg Prod.fst (Option.some.inj h)
    revert hname
    cases verdictFromFindings th (findings.map ReviewFinding.toDict) with
    | approve => exact fun _ => rfl
    | revise => exact fun hname => absurd hname (by decide)
    | block => exact fun hname => absurd hname (by decide)
  · intro h
    refine ⟨sha.map fun s => Text.lower s.digits, ?_⟩
    rw [hparse]
    show some (Text.lower (verdictFromFindings th (findings.map ReviewFinding.toDict)).name, _) = _
    rw [h]
    rfl

/-! ## Deduplication -/

/-- Whether a finding blocks is the same before and after deduplication. -/
theorem exists_blocks_deduplicateFindings (th : Thresholds) (fs : List ReviewFinding)
    (proximity : Nat) :
    (∃ f ∈ deduplicateFindings fs proximity, th.Blocks f.severity) ↔
      ∃ f ∈ fs, th.Blocks f.severity := by
  constructor
  · rintro ⟨f, hf, hb⟩
    exact ⟨f, mem_of_mem_deduplicateFindings hf, hb⟩
  · rintro ⟨f, hf, hb⟩
    obtain ⟨g, hg, hle⟩ := deduplicateFindings_dominates hf proximity
    exact ⟨g, hg, hb.mono hle⟩

/-! ## The single reviewer -/

def ChunkState.log (st : ChunkState) : Log := ⟨st.turns, st.result.findings, false⟩

/-- Calls for a chunk that have not led to findings so far. -/
def Tries (P : Turn → Prop) (chunk : Nat) (st st' : ChunkState) : Prop :=
  ∃ new, st'.turns = st.turns ++ new ∧ st'.result.findings = st.result.findings ∧
    ∀ t ∈ new, P t ∧ t.chunk = chunk ∧ t.dimension = none ∧ t.findings = []

section Tries

variable {P : Turn → Prop}

theorem Tries.refl (chunk : Nat) (st : ChunkState) : Tries P chunk st st :=
  ⟨[], by simp, rfl, by simp⟩

theorem Tries.trans {chunk : Nat} {st st' st'' : ChunkState} (h : Tries P chunk st st')
    (h' : Tries P chunk st' st'') : Tries P chunk st st'' := by
  obtain ⟨new, hturns, hfindings, hnew⟩ := h
  obtain ⟨new', hturns', hfindings', hnew'⟩ := h'
  refine ⟨new ++ new', ?_, hfindings'.trans hfindings, ?_⟩
  · rw [hturns', hturns, List.append_assoc]
  · intro t ht
    exact (List.mem_append.mp ht).elim (hnew t) (hnew' t)

/-- The turn that ends the tries for a chunk. -/
theorem Tries.took {chunk : Nat} {st st' st'' : ChunkState} (h : Tries P chunk st st') {last : Turn}
    (hlast : P last ∧ last.chunk = chunk ∧ last.dimension = none)
    (hturns : st''.turns = st'.turns ++ [last])
    (hfindings : st''.result.findings = st'.result.findings ++ last.findings) :
    Took P [(chunk, none)] st.log st''.log := by
  obtain ⟨new, hnewTurns, hsame, hnew⟩ := h
  obtain ⟨hstands, hchunk, hdim⟩ := hlast
  have hmem : last ∈ new ++ [last] := by simp
  refine ⟨new ++ [last], ?_, ?_, ?_, ?_, ?_, ?_, .inr ?_⟩
  · show st''.turns = st.turns ++ (new ++ _)
    rw [hturns, hnewTurns, List.append_assoc]
  · intro t ht
    rcases List.mem_append.mp ht with ht | ht
    · exact (hnew t ht).1
    · rwa [List.mem_singleton.mp ht]
  · intro f
    show f ∈ st''.result.findings ↔ f ∈ st.result.findings ∨ _
    rw [hfindings, hsame, List.mem_append]
    refine or_congr_right ⟨fun hf => ⟨_, hmem, hf⟩, ?_⟩
    rintro ⟨t, ht, hf⟩
    rcases List.mem_append.mp ht with ht | ht
    · obtain ⟨-, -, -, hnone⟩ := hnew t ht
      rw [hnone] at hf
      simp at hf
    · rwa [List.mem_singleton.mp ht] at hf
  · intro t ht
    rcases List.mem_append.mp ht with ht | ht
    · obtain ⟨-, hc, hd, -⟩ := hnew t ht
      simp [hc, hd]
    · simp [List.mem_singleton.mp ht, hchunk, hdim]
  · exact fun hs => absurd hs (by simp [ChunkState.log])
  · exact fun hs => absurd hs (by simp [ChunkState.log])
  · intro p hp
    exact ⟨last, hmem, by rw [List.mem_singleton.mp hp, hchunk, hdim]⟩

end Tries

section Single

variable (reader : Reader) (llm : Nat → Outcome) (chunkBudget : ℚ) (chunk : Nat)

/-- The latest answer is the one of the call it is kept with. -/
def ChunkState.Answered (st : ChunkState) : Prop :=
  ∃ r, llm st.lastCall = .returned r ∧ st.lastRetryText = r.text

/-- The state a retry leaves, whether it raised or not. -/
theorem tries_retryReview {st : ChunkState} (hst : st.Answered llm)
    (hinvalid : reader.tryParseAndValidate st.lastRetryText = none) :
    ∃ st', (retryReview llm chunkBudget chunk st = .error st' ∨
        retryReview llm chunkBudget chunk st = .ok st') ∧
      st'.Answered llm ∧ Tries (Turn.Stands reader llm) chunk st st' := by
  unfold retryReview
  by_cases hspent : chunkBudget - st.chunkSpent ≤ 0
  · rw [if_pos hspent]
    exact ⟨st, .inl rfl, hst, Tries.refl ..⟩
  · rw [if_neg hspent]
    cases hcall : llm st.made with
    | raised =>
      refine ⟨_, .inl rfl, hst, [⟨chunk, none, st.made, .raised⟩], rfl, rfl, ?_⟩
      intro t ht
      rw [List.mem_singleton.mp ht]
      exact ⟨hcall, rfl, rfl, rfl⟩
    | returned r =>
      refine ⟨_, .inr rfl, ⟨r, hcall, rfl⟩, [⟨chunk, none, st.lastCall, .unread⟩], rfl, rfl, ?_⟩
      intro t ht
      obtain ⟨r₀, hr₀, htext⟩ := hst
      rw [htext] at hinvalid
      rw [List.mem_singleton.mp ht]
      exact ⟨⟨r₀, hr₀, .inl hinvalid⟩, rfl, rfl, rfl⟩

theorem tries_validateStepOutput (retries : Nat) {st : ChunkState} (hst : st.Answered llm) :
    ∃ st', (validateStepOutput reader llm chunkBudget chunk retries st = .error st' ∨
        ∃ data, reader.tryParseAndValidate st'.lastRetryText = some data ∧
          validateStepOutput reader llm chunkBudget chunk retries st = .ok (data, st')) ∧
      st'.Answered llm ∧ Tries (Turn.Stands reader llm) chunk st st' := by
  induction retries generalizing st with
  | zero =>
    refine ⟨st, ?_, hst, Tries.refl ..⟩
    unfold validateStepOutput
    cases hvalid : reader.tryParseAndValidate st.lastRetryText with
    | some data => exact .inr ⟨data, rfl, rfl⟩
    | none => exact .inl rfl
  | succ retries ih =>
    unfold validateStepOutput
    cases hvalid : reader.tryParseAndValidate st.lastRetryText with
    | some data => exact ⟨st, .inr ⟨data, hvalid, rfl⟩, hst, Tries.refl ..⟩
    | none =>
      obtain ⟨st', hretry, hst', htry⟩ := tries_retryReview reader llm chunkBudget chunk hst hvalid
      rcases hretry with hretry | hretry
      · rw [hretry]
        exact ⟨st', .inl rfl, hst', htry⟩
      · rw [hretry]
        obtain ⟨st'', hv, hst'', hmore⟩ := ih hst'
        exact ⟨st'', hv, hst'', htry.trans hmore⟩

theorem took_singleReviewChunk (st : ChunkState) :
    Took (Turn.Stands reader llm) [(chunk, none)] st.log
      (singleReviewChunk reader llm chunkBudget chunk st).log := by
  unfold singleReviewChunk
  cases hcall : llm st.made with
  | raised =>
    refine (Tries.refl chunk st).took ⟨stands_raised hcall chunk none, rfl, rfl⟩ ?_ ?_
    all_goals
      dsimp only
      split_ifs <;> simp [ChunkState.failCall, Turn.findings]
  | returned r =>
    have hfirst : Tries (Turn.Stands reader llm) chunk st ({ st with chunkSpent := 0 }.charge r) :=
      ⟨[], by simp [ChunkState.charge], rfl, by simp⟩
    have hanswered : ({ st with chunkSpent := 0 }.charge r).Answered llm := ⟨r, hcall, rfl⟩
    obtain ⟨st', hv, ⟨r', hr', htext⟩, htry⟩ :=
      tries_validateStepOutput reader llm chunkBudget chunk 2 hanswered
    dsimp only
    rcases hv with hv | ⟨data, hvalid, hv⟩
    · rw [hv]
      refine (hfirst.trans htry).took ⟨stands_fateOf hr' chunk none, rfl, rfl⟩ ?_ ?_
      · rw [← htext]
        rfl
      · rw [findings_fateOf, ← htext]
        rfl
    · rw [hv]
      have hread : Turn.Stands reader llm
          ⟨chunk, none, st'.lastCall, .read (findingsFromData data)⟩ :=
        ⟨r', hr', .inr ⟨data, htext ▸ hvalid, rfl⟩⟩
      exact (hfirst.trans htry).took ⟨hread, rfl, rfl⟩ rfl rfl

end Single

/-! ## The whole review -/

/-- What the turns of a review account for. -/
structure Accounts (P : Turn → Prop) (cfg : ReviewConfig) (chunks : List Text) (reviewed : Reviewed) :
    Prop where
  stands : ∀ t ∈ reviewed.turns, P t
  blocks : ∀ th : Thresholds, (∃ f ∈ reviewed.result.findings, th.Blocks f.severity) ↔
    ∃ t ∈ reviewed.turns, ∃ f ∈ t.findings, th.Blocks f.severity
  isDue : ∀ t ∈ reviewed.turns, t.chunk < chunks.length ∧ t.dimension ∈ dueDimensions cfg
  covered : ¬CriticalFound reviewed.turns → Covered cfg chunks reviewed.turns

/-- A review that starts from nothing accounts for what it took. -/
theorem accounts_of_took {P : Turn → Prop} {cfg : ReviewConfig} {chunks : List Text}
    {reviewed : Reviewed} {a b : Log} (hstart : a = ⟨[], [], false⟩)
    (h : Took P ((List.range chunks.length).flatMap fun chunk =>
      (dueDimensions cfg).map fun d => (chunk, d)) a b)
    (hturns : reviewed.turns = b.turns)
    (hblocks : ∀ th : Thresholds, (∃ f ∈ reviewed.result.findings, th.Blocks f.severity) ↔
      ∃ f ∈ b.findings, th.Blocks f.severity) : Accounts P cfg chunks reviewed := by
  obtain ⟨new, h⟩ := h
  subst hstart
  have hnew : reviewed.turns = new := by rw [hturns, h.turns, List.nil_append]
  refine ⟨fun t ht => h.stands t (hnew ▸ ht), ?_, ?_, ?_⟩
  · intro th
    rw [hblocks, hnew]
    simp only [h.findings, List.not_mem_nil, false_or]
    constructor
    · rintro ⟨f, ⟨t, ht, hf⟩, hb⟩
      exact ⟨t, ht, f, hf, hb⟩
    · rintro ⟨t, ht, f, hf, hb⟩
      exact ⟨f, ⟨t, ht, hf⟩, hb⟩
  · intro t ht
    rw [hnew] at ht
    obtain ⟨chunk, hchunk, hmem⟩ := List.mem_flatMap.mp (h.isDue t ht)
    obtain ⟨d, hd, hpair⟩ := List.mem_map.mp hmem
    obtain ⟨rfl, rfl⟩ := Prod.mk.inj hpair
    exact ⟨List.mem_range.mp hchunk, hd⟩
  · intro hcrit chunk hchunk d hd
    rw [hnew] at hcrit ⊢
    have hrun : ¬b.stopped = true := by
      intro hs
      rcases h.critical hs with hs | hs
      · exact Bool.noConfusion hs
      · exact hcrit hs
    have hdue : (chunk, d) ∈ (List.range chunks.length).flatMap fun chunk =>
        (dueDimensions cfg).map fun d => (chunk, d) :=
      List.mem_flatMap.mpr ⟨chunk, List.mem_range.mpr hchunk, List.mem_map.mpr ⟨d, hd, rfl⟩⟩
    obtain ⟨t, ht, hpair⟩ := h.covers.resolve_left hrun (chunk, d) hdue
    obtain ⟨hc, hdim⟩ := Prod.mk.inj hpair
    exact ⟨t, ht, hdim, .inl hc⟩

theorem accounts_runReview (reader : Reader) (llm : Nat → Outcome) (cfg : ReviewConfig)
    (ctx : ReviewContext) (chunks : List Text) :
    Accounts (Turn.Stands reader llm) cfg chunks (runReview reader llm cfg ctx chunks) := by
  unfold runReview
  by_cases hpanel : cfg.panel.enabled = true
  · rw [if_pos hpanel]
    have htook := took_reviewChunks reader llm cfg.panel ctx.model
      { budgetRemaining := some (cfg.maxBudget - ctx.costUsd) } (List.range chunks.length)
    have hdue : dueDimensions cfg = cfg.panel.dimensions.map some := if_pos hpanel
    refine accounts_of_took rfl (htook.congr fun p => ?_) rfl fun th => ?_
    · rw [hdue]
      simp [List.map_map]
    · exact exists_blocks_deduplicateFindings th _ cfg.panel.lineProximity
  · rw [if_neg hpanel]
    have htook := foldl_rel
      (R := fun due (st st' : ChunkState) => Took (Turn.Stands reader llm) due st.log st'.log)
      (fun chunk => [(chunk, none)]) (fun st => Took.refl st.log) Took.trans
      (fun chunk _ st => took_singleReviewChunk reader llm (cfg.maxBudget / chunks.length) chunk st)
      {} (l := List.range chunks.length)
    have hdue : dueDimensions cfg = [none] := if_neg hpanel
    refine accounts_of_took rfl (htook.congr fun p => ?_) rfl fun th => Iff.rfl
    rw [hdue]
    simp

/-- The finding for protected paths blocks when there is one and severity 1 blocks. -/
theorem exists_blocks_protectedPathFindings (th : Thresholds) (files protectedPaths : List Text) :
    (∃ f ∈ protectedPathFindings files protectedPaths, th.Blocks f.severity) ↔
      checkProtectedPaths files protectedPaths ≠ [] ∧ th.Blocks 1 := by
  unfold protectedPathFindings
  cases checkProtectedPaths files protectedPaths with
  | nil => simp
  | cons file rest => simp [makeProtectedPathFinding]

/-- Any of the posted bodies approves exactly when nothing that was read blocks. -/
theorem approves_postedBodies_iff (reader : Reader) (llm : Nat → Outcome) (cfg : ReviewConfig)
    (ctx : ReviewContext) (chunks : List Text) (keys : List (Text × Int)) {body : Text}
    (hbody : body ∈ postedBodies cfg ctx keys (runReview reader llm cfg ctx chunks)) :
    Approves body ↔ ¬BlockingFound cfg ctx (runReview reader llm cfg ctx chunks).turns := by
  have haccounts := accounts_runReview reader llm cfg ctx chunks
  generalize runReview reader llm cfg ctx chunks = reviewed at hbody haccounts ⊢
  have hposted : (∃ f ∈ postedFindings cfg ctx reviewed, cfg.thresholds.Blocks f.severity) ↔
      BlockingFound cfg ctx reviewed.turns := by
    unfold BlockingFound postedFindings
    rw [← haccounts.blocks, ← exists_blocks_protectedPathFindings]
    simp only [List.mem_append, or_and_right, exists_or]
  have hnone : (∀ f ∈ postedFindings cfg ctx reviewed, ¬cfg.thresholds.Blocks f.severity) ↔
      ¬BlockingFound cfg ctx reviewed.turns := by
    rw [← hposted]
    simp only [not_exists, not_and]
  rw [← hnone]
  simp only [postedBodies, List.mem_cons, List.not_mem_nil, or_false] at hbody
  rcases hbody with rfl | rfl
  · exact approves_formatFindingsBody_iff _ _ ctx.sha cfg.thresholds keys
  · exact approves_formatFindingsBody_iff _ _ ctx.sha cfg.thresholds []

/-- A turn is skipped, lost or read. -/
theorem Turn.fate_cases (t : Turn) : t.isSkipped = true ∨ t.isLost = true ∨ t.isRead = true := by
  unfold Turn.isSkipped Turn.isLost Turn.isRead
  cases t.fate <;> simp

theorem fullyReviewed_iff {P : Turn → Prop} {cfg : ReviewConfig} {chunks : List Text}
    {reviewed : Reviewed} (h : Accounts P cfg chunks reviewed) :
    FullyReviewed cfg chunks reviewed.turns ↔
      LossesMadeGood reviewed.turns ∧
        (CriticalFound reviewed.turns → Covered cfg chunks reviewed.turns) := by
  constructor
  · intro hfull
    refine ⟨fun t ht _ => hfull _ (h.isDue t ht).1 _ (h.isDue t ht).2, fun _ chunk hchunk d hd => ?_⟩
    obtain ⟨t, ht, hdim, hsettled⟩ := hfull chunk hchunk d hd
    exact ⟨t, ht, hdim, hsettled.imp And.left id⟩
  · rintro ⟨hgood, hcrit⟩ chunk hchunk d hd
    have hcov : Covered cfg chunks reviewed.turns := by
      by_cases hc : CriticalFound reviewed.turns
      · exact hcrit hc
      · exact h.covered hc
    obtain ⟨t, ht, rfl, rfl | hskip⟩ := hcov chunk hchunk d hd
    · rcases t.fate_cases with hskip | hlost | hread
      · exact ⟨t, ht, rfl, .inr ⟨le_refl _, hskip⟩⟩
      · exact hgood t ht hlost
      · exact ⟨t, ht, rfl, .inl ⟨rfl, hread⟩⟩
    · exact ⟨t, ht, rfl, .inr hskip⟩

/-- The verdict sees what was read and not what was left unread. -/
theorem approvesOnlyReviewed_iff_blockingFound_or (reader : Reader) (llm : Nat → Outcome)
    (cfg : ReviewConfig) (ctx : ReviewContext) (chunks : List Text) (keys : List (Text × Int)) :
    ApprovesOnlyReviewed reader llm cfg ctx chunks keys ↔
      BlockingFound cfg ctx (runReview reader llm cfg ctx chunks).turns ∨
        FullyReviewed cfg chunks (runReview reader llm cfg ctx chunks).turns := by
  have happrove := @approves_postedBodies_iff reader llm cfg ctx chunks keys
  unfold ApprovesOnlyReviewed
  dsimp only
  generalize runReview reader llm cfg ctx chunks = reviewed at happrove ⊢
  constructor
  · intro h
    by_cases hb : BlockingFound cfg ctx reviewed.turns
    · exact .inl hb
    · obtain ⟨body, hbody⟩ : ∃ body, body ∈ postedBodies cfg ctx keys reviewed :=
        ⟨_, List.mem_cons_self ..⟩
      exact .inr (h body hbody ((happrove hbody).mpr hb))
  · rintro (hb | hfull) body hbody happ
    · exact absurd hb ((happrove hbody).mp happ)
    · exact hfull

/-- A model that always answers is enough, when severities from 9 on block: then a review that was
ended early does not approve. -/
theorem approvesOnlyReviewed_of_answers {reader : Reader} {llm : Nat → Outcome} {cfg : ReviewConfig}
    (hllm : ∀ n, (llm n).Answers reader)
    (hth : cfg.thresholds.Blocks criticalSeverity) (ctx : ReviewContext) (chunks : List Text)
    (keys : List (Text × Int)) : ApprovesOnlyReviewed reader llm cfg ctx chunks keys := by
  have haccounts := accounts_runReview reader llm cfg ctx chunks
  rw [approvesOnlyReviewed_iff_blockingFound_or, fullyReviewed_iff haccounts]
  by_cases hcrit : CriticalFound (runReview reader llm cfg ctx chunks).turns
  · obtain ⟨t, ht, f, hf, hsev⟩ := hcrit
    exact .inl (.inl ⟨t, ht, f, hf, hth.mono hsev⟩)
  · refine .inr ⟨fun t ht hlost => ?_, fun hc => absurd hc hcrit⟩
    have hstands := haccounts.stands t ht
    have hanswer := hllm t.call
    revert hlost
    unfold Turn.Stands at hstands
    unfold Turn.isLost
    cases hfate : t.fate with
    | skipped => simp
    | read findings => simp
    | raised =>
      rw [hfate] at hstands
      rw [show llm t.call = .raised from hstands] at hanswer
      exact absurd hanswer id
    | unread =>
      rw [hfate] at hstands
      obtain ⟨r, hr, hbad⟩ := hstands
      rw [hr] at hanswer
      exact absurd hbad (not_or.mpr hanswer)

/-- Nothing but failed calls: nothing blocks, and nothing was reviewed. -/
theorem not_blockingFound_or_of_raised {cfg : ReviewConfig} {ctx : ReviewContext}
    {chunks : List Text} {turns : List Turn} (hpaths : cfg.protectedPaths = [])
    (hchunks : chunks ≠ []) (hdue : dueDimensions cfg ≠ []) (hraised : ∀ t ∈ turns, t.fate = .raised) :
    ¬(BlockingFound cfg ctx turns ∨ FullyReviewed cfg chunks turns) := by
  rintro (hblock | hfull)
  · rcases hblock with ⟨t, ht, f, hf, -⟩ | ⟨hpath, -⟩
    · simp [Turn.findings, hraised t ht] at hf
    · simp [checkProtectedPaths, hpaths] at hpath
  · obtain ⟨d, hd⟩ := List.exists_mem_of_ne_nil _ hdue
    obtain ⟨t, ht, -, hsettled⟩ := hfull 0 (List.length_pos_iff.mpr hchunks) d hd
    simp [Turn.isRead, Turn.isSkipped, hraised t ht] at hsettled

end Review

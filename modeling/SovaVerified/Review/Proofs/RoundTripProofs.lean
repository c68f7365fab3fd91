import SovaVerified.Review.Proofs.AddressReviewProofs
import SovaVerified.Shares.Shares

/-!
# The round trip of a review

The findings of a body come back, each with its file, its line and its severity, exactly when each of them
names its file and is located where it says (`parseReviewBody_roundTrips`).
-/

namespace Review

open Text Regex

/-! ## The round trip -/

/-- What is read of a finding as far as the round trip goes. -/
def Finding.readKey (f : Finding) : Option Key :=
  (splitLocation f.loc).map fun location => (some location.1, location.2, clampSeverity f.severityOr5)

theorem map_key_readBack (keys : List (Text × Int)) (f : Finding) :
    (f.readBack keys).map ParsedFinding.key = f.readKey := by
  unfold Finding.readBack Finding.readKey
  rw [Option.map_map]
  rfl

/-- What a finding of a body is read back as: the advisory ones are never collapsed. -/
def ReviewBody.readBack (b : ReviewBody) (f : Finding) : Option ParsedFinding :=
  f.readBack (if b.thresholds.reviseAt ≤ clampSeverity f.severityOr5 then b.inlineCommentKeys else [])

/-- Blocking and advisory findings, each sorted, are the findings. -/
theorem readBacks_perm (b : ReviewBody) : (Finding.readBacks b).Perm (b.findings.map b.readBack) := by
  have hadvisory : advisoryOf b.thresholds b.findings =
      b.findings.filter fun f => !decide (clampSeverity f.severityOr5 ≥ b.thresholds.reviseAt) := by
    unfold advisoryOf
    refine List.filter_congr fun f _ => ?_
    rw [← decide_not]
    exact decide_eq_decide.mpr (by omega)
  have hsorted : ∀ fs : List Finding, (sortBySeverity fs).Perm fs := fun fs => List.perm_insertionSort _ fs
  have hparts : (blockingOf b.thresholds b.findings ++ advisoryOf b.thresholds b.findings).Perm b.findings := by
    rw [hadvisory]
    exact List.filter_append_perm _ b.findings
  have hblocking : (blockingOf b.thresholds b.findings).map (Finding.readBack b.inlineCommentKeys) =
      (blockingOf b.thresholds b.findings).map b.readBack := by
    refine List.map_congr_left fun f hf => ?_
    unfold ReviewBody.readBack
    rw [if_pos (of_decide_eq_true (List.mem_filter.mp hf).2)]
  have hrest : (advisoryOf b.thresholds b.findings).map (Finding.readBack []) =
      (advisoryOf b.thresholds b.findings).map b.readBack := by
    refine List.map_congr_left fun f hf => ?_
    have hlt : clampSeverity f.severityOr5 < b.thresholds.reviseAt := of_decide_eq_true (List.mem_filter.mp hf).2
    unfold ReviewBody.readBack
    rw [if_neg (by omega)]
  unfold Finding.readBacks
  refine (((hsorted _).map _).append ((hsorted _).map _)).trans ?_
  rw [hblocking, hrest, ← List.map_append]
  exact hparts.map _

theorem perm_readBacks (b : ReviewBody) :
    ((Finding.readBacks b).map (Option.map ParsedFinding.key)).Perm (b.findings.map Finding.readKey) := by
  refine ((readBacks_perm b).map _).trans ?_
  rw [List.map_map]
  refine List.Perm.of_eq (List.map_congr_left fun f _ => ?_)
  exact map_key_readBack _ f

/-- When every finding can be read back, each of the parsed ones is what one of them is read as. -/
theorem exists_parsed (A : Alphabet) {b : ReviewBody} (hq : b.Quiet) (hs : ∀ f ∈ b.findings, f.Separate)
    (hread : ∀ f ∈ b.findings, (b.readBack f).isSome = true) :
    ∃ parsed fs, parseReviewBody A (formatReviewBody b) = some parsed ∧ fs.Perm b.findings ∧
      List.Forall₂ (fun f p => b.readBack f = some p) fs parsed := by
  have hall : ∀ r ∈ Finding.readBacks b, r.isSome = true := by
    intro r hr
    obtain ⟨f, hf, rfl⟩ := List.mem_map.mp ((readBacks_perm b).mem_iff.mp hr)
    exact hread f hf
  obtain ⟨found, hfound⟩ := exists_map_some hall
  obtain ⟨parsed, hparse, hperm⟩ := (parseReviewBody_formatReviewBody A hq hs).2 found hfound
  have hback : (parsed.map some).Perm (b.findings.map b.readBack) := by
    refine (hperm.map some).trans ?_
    rw [hfound]
    exact readBacks_perm b
  obtain ⟨fs, hmap, hfs⟩ := exists_map_of_perm hback
  refine ⟨parsed, fs, hparse, hfs, ?_⟩
  have heq : List.Forall₂ Eq (fs.map b.readBack) (parsed.map some) := by
    rw [List.forall₂_eq_eq_eq]
    exact hmap.symm
  exact List.forall₂_map_right_iff.mp (List.forall₂_map_left_iff.mp heq)

theorem roundTrips_iff_perm (A : Alphabet) {b : ReviewBody} (hq : b.Quiet) (hs : ∀ f ∈ b.findings, f.Separate) :
    RoundTrips A b ↔ (b.findings.map Finding.readKey).Perm (b.findings.map fun f => some f.key) := by
  obtain ⟨hreturns, hparses⟩ := parseReviewBody_formatReviewBody A hq hs
  have hread := perm_readBacks b
  have hkeys : ∀ found : List ParsedFinding,
      (found.map some).map (Option.map ParsedFinding.key) = (found.map ParsedFinding.key).map some := by
    intro found
    rw [List.map_map, List.map_map]
    rfl
  have hsome : (b.findings.map fun f => some f.key) = (b.findings.map Finding.key).map some := by
    rw [List.map_map]
    rfl
  rw [hsome]
  constructor
  · rintro ⟨parsed, hparsed, hperm⟩
    have hback := (hreturns parsed hparsed).map (Option.map ParsedFinding.key)
    rw [hkeys] at hback
    exact (hread.symm.trans hback.symm).trans (hperm.map some)
  · intro hperm
    have hall : ∀ r ∈ Finding.readBacks b, r.isSome = true := by
      intro r hr
      have hmem := (hread.trans hperm).mem_iff.mp (List.mem_map_of_mem hr)
      obtain ⟨k, -, hk⟩ := List.mem_map.mp hmem
      cases r with
      | none => cases hk
      | some p => rfl
    obtain ⟨found, hfound⟩ := exists_map_some hall
    obtain ⟨parsed, hparsed, hparsedFound⟩ := hparses found hfound
    refine ⟨parsed, hparsed, (hparsedFound.map _).trans ?_⟩
    rw [← hfound, hkeys] at hread
    exact (List.map_perm_map_iff (Option.some_injective _)).mp (hread.trans hperm)

theorem filePath_ne_nil (f : Finding) : f.filePath ≠ [] := by
  unfold Finding.filePath
  split
  · simp
  · decide

theorem readKey_of_located {f : Finding} (h : f.Located) : f.readKey = some f.key := by
  obtain ⟨hfile, hline⟩ := h
  unfold Finding.readKey Finding.key Finding.loc
  cases hf : f.line with
  | none =>
    rw [hf] at hline
    simp only
    rw [splitLocation_of_file hline, hfile]
    rfl
  | some n =>
    rw [hf] at hline
    obtain ⟨m, rfl⟩ := Int.eq_ofNat_of_zero_le hline
    simp only
    rw [splitLocation_of_line, hfile]
    rfl

/-- How far a location is from one that is read as it was written. -/
def rank : Option Key → Nat
  | some (some file, line, _) =>
    if file = [] then 1
    else if line = none ∧ endsInLine file = true then 2 + file.length
    else 0
  | _ => 0

theorem rank_of_ne_nil {file : Text} (hne : file ≠ []) (line : Option Int) (severity : Int) :
    rank (some (some file, line, severity)) =
      if line = none ∧ endsInLine file = true then 2 + file.length else 0 :=
  if_neg hne

theorem rank_le (file : Text) (line : Option Int) (severity : Int) :
    rank (some (some file, line, severity)) ≤ 2 + file.length := by
  by_cases hne : file = []
  · rw [hne]
    exact Nat.le_add_right 1 1
  · rw [rank_of_ne_nil hne]
    split_ifs
    · exact Nat.le_refl _
    · exact Nat.zero_le _

/-- Reading a location that is not read as it was written brings it closer to one that is. -/
theorem located_or_rank_lt {f : Finding} {file : Text} (hfile : f.file = some file)
    (hline : ∀ n ∈ f.line, 0 ≤ n) : f.Located ∨ rank f.readKey < rank (some f.key) := by
  by_cases hempty : file = []
  · -- a finding without a file is read as one of the file "unknown"
    right
    have hpath : f.filePath = "unknown".toList := by
      unfold Finding.filePath
      rw [hfile, hempty]
    have hread : ∃ line, f.readKey = some (some "unknown".toList, line, clampSeverity f.severityOr5) := by
      unfold Finding.readKey Finding.loc
      rw [hpath]
      cases hl : f.line with
      | none => exact ⟨none, by rw [splitLocation_of_file (by decide)]; rfl⟩
      | some n =>
        obtain ⟨m, rfl⟩ := Int.eq_ofNat_of_zero_le (hline n hl)
        exact ⟨some (m : Int), by simp only; rw [splitLocation_of_line]; rfl⟩
    obtain ⟨line, hread⟩ := hread
    have hplain : ¬ (line = none ∧ endsInLine "unknown".toList = true) := fun h => nomatch h.2
    rw [hread, rank_of_ne_nil (by decide), if_neg hplain]
    unfold Finding.key
    rw [hfile, hempty]
    exact Nat.one_pos
  · have hpath : f.filePath = file := by
      obtain ⟨c, t, rfl⟩ := List.exists_cons_of_ne_nil hempty
      unfold Finding.filePath
      rw [hfile]
    cases hl : f.line with
    | some n =>
      left
      refine ⟨by rw [hfile, hpath], ?_⟩
      rw [hl]
      exact hline n hl
    | none =>
      by_cases hends : endsInLine file = true
      · right
        have hrank : rank (some f.key) = 2 + file.length := by
          unfold Finding.key
          rw [hfile, hl, rank_of_ne_nil hempty, if_pos ⟨rfl, hends⟩]
        have hloc : f.loc = file := by
          unfold Finding.loc
          rw [hl]
          exact hpath
        unfold Finding.readKey
        rw [hrank, hloc]
        cases hread : splitLocation file with
        | none => exact Nat.lt_of_lt_of_le (Nat.zero_lt_two) (Nat.le_add_right 2 _)
        | some location =>
          have hshort := length_of_endsInLine hends hread
          have hle := rank_le location.1 location.2 (clampSeverity f.severityOr5)
          exact Nat.lt_of_le_of_lt hle (by omega)
      · left
        refine ⟨by rw [hfile, hpath], ?_⟩
        rw [hl, hpath]
        exact Bool.eq_false_iff.mpr hends

/-- Where the same findings come back, each one comes back from its own line. -/
theorem located_of_perm {fs : List Finding}
    (h : (fs.map Finding.readKey).Perm (fs.map fun f => some f.key)) : ∀ f ∈ fs, f.Located := by
  have hread : ∀ f ∈ fs, (∃ file, f.file = some file) ∧ ∀ n ∈ f.line, 0 ≤ n := by
    intro f hf
    have hmem := h.mem_iff.mpr (List.mem_map_of_mem hf)
    obtain ⟨g, -, hg⟩ := List.mem_map.mp hmem
    obtain ⟨location, hlocation, hkey⟩ := Option.map_eq_some_iff.mp hg
    obtain ⟨hfile, hrest⟩ := Prod.mk.inj hkey
    obtain ⟨hline, -⟩ := Prod.mk.inj hrest
    refine ⟨⟨location.1, hfile.symm⟩, fun n hn => ?_⟩
    have hlocation' : splitLocation g.loc = some (location.1, some n) := by
      rw [hlocation, ← Option.mem_def.mp hn, ← hline]
    exact line_nonneg_of_splitLocation hlocation'
  have hstep : ∀ f ∈ fs, f.Located ∨ rank f.readKey < rank (some f.key) := by
    intro f hf
    obtain ⟨⟨file, hfile⟩, hline⟩ := hread f hf
    exact located_or_rank_lt hfile hline
  have hle : ∀ f ∈ fs, rank f.readKey ≤ rank (some f.key) := by
    intro f hf
    rcases hstep f hf with hlocated | hlt
    · rw [readKey_of_located hlocated]
    · exact Nat.le_of_lt hlt
  have hsum : (fs.map fun f => rank (some f.key)).sum ≤ (fs.map fun f => rank f.readKey).sum := by
    have hranks := (h.map rank).sum_eq
    rw [List.map_map, List.map_map] at hranks
    exact le_of_eq hranks.symm
  have heq := Shares.eq_of_sum_le hle hsum
  intro f hf
  rcases hstep f hf with hlocated | hlt
  · exact hlocated
  · exact absurd (heq f hf) (Nat.ne_of_lt hlt)

/-- A body is read back as the findings it was written from, when no text around them opens a section, no
text of a finding ends the field it stands in, and each location reads as it was written. Where the
texts stay in their fields, the last condition is exact. -/
theorem parseReviewBody_roundTrips (A : Alphabet) (b : ReviewBody) :
    ((b.Quiet ∧ ∀ f ∈ b.findings, f.Separate ∧ f.Located) → RoundTrips A b) ∧
      (b.Quiet → (∀ f ∈ b.findings, f.Separate) → (RoundTrips A b ↔ ∀ f ∈ b.findings, f.Located)) := by
  have hlocated : (∀ f ∈ b.findings, f.Located) →
      (b.findings.map Finding.readKey).Perm (b.findings.map fun f => some f.key) := by
    intro h
    rw [List.map_congr_left fun f hf => readKey_of_located (h f hf)]
  constructor
  · rintro ⟨hq, hfindings⟩
    rw [roundTrips_iff_perm A hq fun f hf => (hfindings f hf).1]
    exact hlocated fun f hf => (hfindings f hf).2
  · intro hq hs
    rw [roundTrips_iff_perm A hq hs]
    exact ⟨located_of_perm, hlocated⟩

/-- A review with a finding of a line and one of a whole file. -/
def twoFindings : ReviewBody where
  findings :=
    [{ file := some "src/app.py".toList, line := some 42, severity := some 8, category := some "bug".toList,
       description := some "The lock is\nnever released.".toList, suggestion := some "Release it.".toList },
     { file := some "docs/a:b.md".toList, severity := some 12, category := some "docs `style`".toList }]

theorem twoFindings_roundTrips : RoundTrips .asciiOnly twoFindings := by
  refine (parseReviewBody_roundTrips .asciiOnly twoFindings).1 ⟨⟨?_, ?_, ?_⟩, ?_⟩
  · exact fun s hs => nomatch hs
  · decide
  · exact fun p hp => nomatch hp
  · decide

/-- The bracket in a category ends it too early: the line is no finding, and because of its marker the body
counts as a review without findings. -/
def bracketed : ReviewBody where
  findings :=
    [{ file := some "src/app.py".toList, line := some 42, severity := some 8,
       category := some "list[int] misuse".toList, description := some "The list holds strings.".toList }]

set_option maxRecDepth 4000 in
theorem bracketed_not_roundTrips : ¬ RoundTrips .asciiOnly bracketed := by
  rintro ⟨parsed, hparsed, hperm⟩
  have hempty : parseReviewBody .asciiOnly (formatReviewBody bracketed) = some [] := by decide
  rw [hempty, Option.some.injEq] at hparsed
  rw [← hparsed] at hperm
  exact absurd hperm.length_eq (by decide)

end Review

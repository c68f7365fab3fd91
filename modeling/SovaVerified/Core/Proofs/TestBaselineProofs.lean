import SovaVerified.Core.TestBaseline

/-!
# When the regression check fails the gate

The comparison looks at the tests that the current run reports, under the last entry of each. A test that
is not reported any more is not looked at, and nobody compares the exit codes of suites that are known by
nothing else.
-/

namespace Core

/-! ## What a regression is -/

/-- A test that passed in the baseline now fails, errors or is not reported. -/
def TestBroken (baseline current : BaselineSnapshot) : Prop :=
  ∃ base ∈ baseline.tests, base.outcome = passed ∧
    ((∃ cur ∈ current.tests, cur.nodeid = base.nodeid ∧ isFailing cur.outcome = true) ∨
      ∀ cur ∈ current.tests, cur.nodeid ≠ base.nodeid)

/-- The suite exited with zero, and now, known by its exit code alone, it does not. -/
def SuiteBroken (baseline current : BaselineSnapshot) : Prop :=
  baseline.exitCode = 0 ∧ current.mode = .exitCode ∧ current.exitCode ≠ 0

instance (baseline current : BaselineSnapshot) : Decidable (TestBroken baseline current) := by
  unfold TestBroken
  infer_instance

instance (baseline current : BaselineSnapshot) : Decidable (SuiteBroken baseline current) := by
  unfold SuiteBroken
  infer_instance

/-! ## What the comparison sees -/

/-- The last entry of a test. -/
def lastEntry (tests : List SingleTestOutcome) (nodeid : Text) : Option SingleTestOutcome :=
  tests.reverse.find? fun t => t.nodeid = nodeid

/-- Both snapshots report tests, and a test passes by its last entry in the baseline and fails by its last
entry now. -/
def SeenBroken (baseline current : BaselineSnapshot) : Prop :=
  baseline.mode = .perTest ∧ current.mode = .perTest ∧
    ∃ cur ∈ current.tests, lastEntry current.tests cur.nodeid = some cur ∧ isFailing cur.outcome = true ∧
      ∃ base ∈ baseline.tests, lastEntry baseline.tests cur.nodeid = some base ∧ base.outcome = passed

instance (baseline current : BaselineSnapshot) : Decidable (SeenBroken baseline current) := by
  unfold SeenBroken
  infer_instance

theorem get_byId (tests : List SingleTestOutcome) (nodeid : Text) :
    (byId tests).get nodeid = lastEntry tests nodeid := by
  unfold byId lastEntry
  rw [Assoc.get_ofEntries, ← List.map_reverse, List.find?_map, Option.map_map]
  exact Option.map_id'

theorem lastEntry_mem {tests : List SingleTestOutcome} {nodeid : Text} {t : SingleTestOutcome}
    (h : lastEntry tests nodeid = some t) : t ∈ tests ∧ t.nodeid = nodeid := by
  refine ⟨List.mem_reverse.mp (List.mem_of_find?_eq_some h), ?_⟩
  simpa using List.find?_some h

/-- The values of the dict are the last entries. -/
theorem mem_byId_values {tests : List SingleTestOutcome} {t : SingleTestOutcome} :
    t ∈ (byId tests).map Prod.snd ↔ lastEntry tests t.nodeid = some t := by
  have hnodup : ((byId tests).map Prod.fst).Nodup := Assoc.nodup_keys_ofEntries _
  constructor
  · intro h
    obtain ⟨⟨nodeid, t'⟩, hmem, rfl⟩ := List.mem_map.mp h
    have hlast : lastEntry tests nodeid = some t' := by
      rw [← get_byId]
      exact (Assoc.mem_iff_get hnodup).mp hmem
    rw [(lastEntry_mem hlast).2]
    exact hlast
  · intro h
    rw [← get_byId] at h
    exact List.mem_map.mpr ⟨(t.nodeid, t), Assoc.mem_of_get h, rfl⟩

theorem changeOf_regression_iff (base : Option SingleTestOutcome) (cur : SingleTestOutcome) :
    changeOf base cur = .regression ↔
      isFailing cur.outcome = true ∧ ∃ b, base = some b ∧ b.outcome = passed := by
  cases base with
  | none =>
    dsimp only [changeOf]
    split <;> simp
  | some b =>
    dsimp only [changeOf]
    by_cases h : b.outcome = passed ∧ isFailing cur.outcome = true
    · rw [if_pos h]
      exact ⟨fun _ => ⟨h.2, b, rfl, h.1⟩, fun _ => rfl⟩
    · rw [if_neg h]
      constructor
      · intro heq
        split at heq <;> cases heq
      · rintro ⟨hfails, b', hb', hpassed⟩
        cases hb'
        exact absurd ⟨hpassed, hfails⟩ h

theorem hasRegressions_iff (baseline current : BaselineSnapshot) :
    (diffResults baseline current).hasRegressions = true ↔ SeenBroken baseline current := by
  unfold diffResults
  by_cases hmode : baseline.mode ≠ .perTest ∨ current.mode ≠ .perTest
  · rw [if_pos hmode]
    constructor
    · intro h
      cases h
    · rintro ⟨hb, hc, -⟩
      rcases hmode with h | h
      · exact absurd hb h
      · exact absurd hc h
  · rw [if_neg hmode]
    obtain ⟨hb, hc⟩ : baseline.mode = .perTest ∧ current.mode = .perTest := by simpa using hmode
    have hfound (l : List SingleTestOutcome) : (!l.isEmpty) = true ↔ ∃ cur, cur ∈ l := by
      cases l <;> simp
    unfold RegressionReport.hasRegressions
    rw [hfound]
    constructor
    · rintro ⟨cur, hcur⟩
      obtain ⟨hmem, hchange⟩ := List.mem_filter.mp hcur
      have hlast := mem_byId_values.mp hmem
      rw [decide_eq_true_eq, changeOf_regression_iff] at hchange
      obtain ⟨hfails, base, hbase, hpassed⟩ := hchange
      rw [get_byId] at hbase
      exact ⟨hb, hc, cur, (lastEntry_mem hlast).1, hlast, hfails, base, (lastEntry_mem hbase).1, hbase,
        hpassed⟩
    · rintro ⟨-, -, cur, -, hlast, hfails, base, -, hbase, hpassed⟩
      have hchange : changeOf ((byId baseline.tests).get cur.nodeid) cur = .regression := by
        rw [changeOf_regression_iff, get_byId]
        exact ⟨hfails, base, hbase, hpassed⟩
      exact ⟨cur, List.mem_filter.mpr ⟨mem_byId_values.mpr hlast, decide_eq_true hchange⟩⟩

/-! ## The gate -/

section Gate

variable {ctx : RegressionContext} {out : SuiteOutside} {baseline current : BaselineSnapshot}

/-- The gate fails exactly on what the comparison sees. -/
theorem verifyOutput_fails_iff (hpath : ctx.hasBaselinePath = true) (hbaseline : ctx.baseline = some baseline)
    (hcmd : (Text.strip ctx.testCmd).isEmpty = false)
    (hrun : runTestSuite ctx.testCmd out = some current) :
    (verifyOutput ctx out).passed = false ↔ SeenBroken baseline current := by
  rw [← hasRegressions_iff]
  unfold verifyOutput checkRegressions
  rw [hpath, hbaseline, hcmd, hrun]
  dsimp only [Bool.not_true]
  simp only [Bool.false_eq_true, if_false]
  by_cases h : (diffResults baseline current).hasRegressions = true
  · rw [if_pos h]
    exact ⟨fun _ => h, fun _ => rfl⟩
  · rw [if_neg h]
    exact ⟨fun hfails => absurd hfails (by decide), fun hseen => absurd hseen h⟩

/-- The gate fails on every regression exactly when the suite is not broken as a whole, and a broken test is
seen by the comparison. -/
theorem regression_gate_iff (hpath : ctx.hasBaselinePath = true) (hbaseline : ctx.baseline = some baseline)
    (hcmd : (Text.strip ctx.testCmd).isEmpty = false)
    (hrun : runTestSuite ctx.testCmd out = some current) :
    (TestBroken baseline current ∨ SuiteBroken baseline current → (verifyOutput ctx out).passed = false) ↔
      ¬ SuiteBroken baseline current ∧ (TestBroken baseline current → SeenBroken baseline current) := by
  rw [verifyOutput_fails_iff hpath hbaseline hcmd hrun]
  constructor
  · intro h
    refine ⟨fun hsuite => ?_, fun htest => h (.inl htest)⟩
    -- a suite that is known by its exit code alone is not compared
    obtain ⟨-, hmode, -⟩ := h (.inr hsuite)
    rw [hsuite.2.1] at hmode
    cases hmode
  · rintro ⟨hsuite, htest⟩ hbroken
    rcases hbroken with hbroken | hbroken
    · exact htest hbroken
    · exact absurd hbroken hsuite

end Gate

/-- A test that is seen to fail fails the gate. -/
theorem regression_gate_failed_test :
    let test (outcome : String) : SingleTestOutcome := ⟨"tests/test_a.py::test_a".toList, outcome.toList⟩
    let baseline : BaselineSnapshot := ⟨.perTest, 0, [test "passed"]⟩
    let current : BaselineSnapshot := ⟨.perTest, 1, [test "failed"]⟩
    let ctx : RegressionContext := { baseline := some baseline, testCmd := "pytest".toList }
    let out : SuiteOutside := { enriched := some 1, report := .tests [test "failed"], plain := some 1 }
    runTestSuite ctx.testCmd out = some current ∧
      (TestBroken baseline current ∨ SuiteBroken baseline current → (verifyOutput ctx out).passed = false) := by
  intro test baseline current ctx out
  have hbaseline : ctx.baseline = some baseline := rfl
  have hrun : runTestSuite ctx.testCmd out = some current := rfl
  exact ⟨hrun, (regression_gate_iff rfl hbaseline rfl hrun).mpr (by decide)⟩

/-- A suite that is known by its exit code passed and now fails, and the gate passes. -/
theorem regression_gate_passes_broken_suite :
    let baseline : BaselineSnapshot := ⟨.exitCode, 0, []⟩
    let current : BaselineSnapshot := ⟨.exitCode, 1, []⟩
    let ctx : RegressionContext := { baseline := some baseline, testCmd := "npm test".toList }
    let out : SuiteOutside := { enriched := none, report := .absent, plain := some 1 }
    runTestSuite ctx.testCmd out = some current ∧ SuiteBroken baseline current ∧
      (verifyOutput ctx out).passed = true := by
  decide

end Core

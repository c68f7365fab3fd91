import SovaVerified.Assoc.Assoc
import SovaVerified.Core.Workflow

/-!
# The regression check of the validate step

`sova/core/test_baseline.py` keeps what the test suite said before the agent changed anything, and the
validate step (`sova/core/steps/validate.py`) compares the suite with it afterwards. The commands, the
report of pytest and the files are answers of the outside.
-/

namespace Core

/-! ## Snapshots -/

/-- The outcome of one test, as pytest spells it. -/
structure SingleTestOutcome where
  nodeid : Text
  outcome : Text
  deriving DecidableEq

inductive SnapshotMode where
  | perTest
  | exitCode
  deriving DecidableEq, Repr

/-- `BaselineSnapshot`. -/
structure BaselineSnapshot where
  mode : SnapshotMode
  exitCode : Int
  tests : List SingleTestOutcome
  deriving DecidableEq

/-- The file that pytest-json-report leaves. `malformed` is a report of a shape that raises something else
than what is caught. -/
inductive ReportFile where
  | absent
  | unreadable
  | malformed
  | tests (tests : List SingleTestOutcome)
  deriving DecidableEq

/-- What a run of the suite meets: `none` for a command that cannot be started. -/
structure SuiteOutside where
  cwdExists : Bool := true
  makesDir : Bool := true
  /-- The exit code of the command with the flags of the report. -/
  enriched : Option Int
  report : ReportFile
  /-- Whether the report is removed, at the first and at the second attempt. -/
  unlinked : Bool := true
  unlinkedAgain : Bool := true
  /-- The exit code of the command as it is. -/
  plain : Option Int

/-- `_is_pytest_cmd`. -/
def isPytestCmd (testCmd : Text) : Bool := Text.isIn "pytest".toList testCmd

/-- `_run_exit_code_only`; `none` when it raises. -/
def runExitCodeOnly (out : SuiteOutside) : Option BaselineSnapshot :=
  out.plain.map fun code => { mode := .exitCode, exitCode := code, tests := [] }

/-- `run_test_suite`; `none` when it raises. -/
def runTestSuite (testCmd : Text) (out : SuiteOutside) : Option BaselineSnapshot :=
  if !out.cwdExists then none
  else if !isPytestCmd testCmd then runExitCodeOnly out
  else if !out.makesDir then none
  else
    match out.enriched, out.report with
    | none, _ => none
    | some _, .absent => runExitCodeOnly out
    | some _, .malformed => none
    | some _, .unreadable => if out.unlinkedAgain then runExitCodeOnly out else none
    | some code, .tests tests =>
      if out.unlinked then some { mode := .perTest, exitCode := code, tests := tests }
      else if out.unlinkedAgain then runExitCodeOnly out
      else none

/-! ## The comparison -/

structure RegressionReport where
  regressions : List SingleTestOutcome
  fixed : List SingleTestOutcome
  newFailures : List SingleTestOutcome
  deriving DecidableEq

/-- `has_regressions`. -/
def RegressionReport.hasRegressions (r : RegressionReport) : Bool := !r.regressions.isEmpty

/-- `summary`. -/
def RegressionReport.summary (r : RegressionReport) : Text :=
  let part (found : List SingleTestOutcome) (what : Text) : List Text :=
    if found.isEmpty then [] else [Text.ofInt found.length ++ what]
  let parts := part r.regressions " regression(s)".toList ++ part r.fixed " fixed".toList ++
    part r.newFailures " new failure(s)".toList
  if parts.isEmpty then "no regressions".toList else Text.join ", ".toList parts

def passed : Text := "passed".toList

/-- The outcomes that the comparison calls a failure. -/
def isFailing (outcome : Text) : Bool := outcome == "failed".toList || outcome == "error".toList

/-- `{t.nodeid: t for t in tests}`. -/
def byId (tests : List SingleTestOutcome) : Assoc Text SingleTestOutcome :=
  Assoc.ofEntries (tests.map fun t => (t.nodeid, t))

/-- What a test of the current run is to the report, next to its entry in the baseline. -/
inductive Change where
  | none
  | regression
  | fixed
  | newFailure
  deriving DecidableEq, Repr

def changeOf (base : Option SingleTestOutcome) (cur : SingleTestOutcome) : Change :=
  match base with
  | .none => if isFailing cur.outcome then .newFailure else .none
  | some base =>
    if base.outcome = passed ∧ isFailing cur.outcome then .regression
    else if isFailing base.outcome ∧ cur.outcome = passed then .fixed
    else .none

/-- `diff_results`. -/
def diffResults (baseline current : BaselineSnapshot) : RegressionReport :=
  if baseline.mode ≠ .perTest ∨ current.mode ≠ .perTest then
    { regressions := [], fixed := [], newFailures := [] }
  else
    let baselineById := byId baseline.tests
    let currentTests := (byId current.tests).map Prod.snd
    let withChange (change : Change) : List SingleTestOutcome :=
      currentTests.filter fun cur => changeOf (baselineById.get cur.nodeid) cur = change
    { regressions := withChange .regression, fixed := withChange .fixed,
      newFailures := withChange .newFailure }

/-! ## The gate -/

/-- What the check reads of its context: whether a baseline was captured, what `load_baseline` finds in its
file, and the command of the suite. -/
structure RegressionContext where
  hasBaselinePath : Bool := true
  baseline : Option BaselineSnapshot
  testCmd : Text

/-- The result of a gate that found regressions. -/
def regressionsDetected (report : RegressionReport) : GateCheckResult :=
  let names := (report.regressions.take 10).map SingleTestOutcome.nodeid
  { passed := false,
    reason := some ("Test regressions detected: ".toList ++ report.summary ++ ". First: ".toList ++
      Text.join ", ".toList (names.take 3)) }

/-- `_check_regressions`: `none` where there is nothing to say. -/
def checkRegressions (ctx : RegressionContext) (out : SuiteOutside) : Option GateCheckResult :=
  if !ctx.hasBaselinePath then none
  else
    match ctx.baseline with
    | none => none
    | some baseline =>
      if (Text.strip ctx.testCmd).isEmpty then none
      else
        match runTestSuite ctx.testCmd out with
        | none => none
        | some current =>
          let report := diffResults baseline current
          if report.hasRegressions then some (regressionsDetected report) else none

/-- `verify_output`. -/
def verifyOutput (ctx : RegressionContext) (out : SuiteOutside) : GateCheckResult :=
  (checkRegressions ctx out).getD { passed := true }

end Core

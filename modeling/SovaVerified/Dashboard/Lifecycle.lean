import SovaVerified.Tables.Tables
import SovaVerified.Text.Text

/-!
# Issue lifecycles

`sova/dashboard/services/lifecycle_service.py`: the journey of an issue through its phases. A lifecycle
has a row of its own, with the phase it is in, and one record for each attempt at a phase. Every
operation reads both tables, writes them and returns, in one transaction.

Decimals are rationals, and a time is a number. The operations that only read, the reconstruction of a
lifecycle from its runs, and the columns that no operation reads or writes (the pull request, the branch
and the metadata of a lifecycle) are left out.
-/

namespace Dashboard

/-- `PHASE_ORDER`. -/
def phaseOrder : List Text :=
  ["development".toList, "post_pr".toList, "review".toList, "address_review".toList,
   "integrate".toList, "post_merge".toList]

/-- `PHASE_TRANSITIONS`. -/
def phaseTransitions : List (Text × List Text) :=
  [("development".toList, ["post_pr".toList]),
   ("post_pr".toList, ["review".toList]),
   ("review".toList, ["address_review".toList, "integrate".toList]),
   ("address_review".toList, ["integrate".toList]),
   ("integrate".toList, ["post_merge".toList]),
   ("post_merge".toList, [])]

inductive PhaseStatus where
  | pending
  | active
  | completed
  | failed
  | skipped
  | stopped
  deriving DecidableEq, Repr

structure IssueLifecycle where
  id : Nat
  issueNumber : Text
  projectSlug : Text := []
  currentPhase : Text := "development".toList
  phaseStatus : PhaseStatus := .pending
  totalCostUsd : ℚ := 0
  createdAt : Nat
  updatedAt : Nat
  completedAt : Option Nat := none
  deriving DecidableEq

structure LifecyclePhaseRecord where
  id : Nat
  lifecycleId : Nat
  phase : Text
  status : PhaseStatus := .pending
  taskRunId : Option Nat := none
  errorMessage : Option Text := none
  costUsd : ℚ := 0
  attempt : Nat := 1
  startedAt : Option Nat := none
  completedAt : Option Nat := none
  deriving DecidableEq

/-- The two tables, each in the order of its ids. -/
structure LifecycleDb where
  lifecycles : List IssueLifecycle := []
  phases : List LifecyclePhaseRecord := []
  deriving DecidableEq

namespace LifecycleDb

/-- `session.get`. -/
def lifecycle (db : LifecycleDb) (id : Nat) : Option IssueLifecycle :=
  Tables.get IssueLifecycle.id id db.lifecycles

def setLifecycle (db : LifecycleDb) (id : Nat) (f : IssueLifecycle → IssueLifecycle) : LifecycleDb :=
  { db with lifecycles := Tables.updateWhere (fun l => l.id == id) f db.lifecycles }

def updatePhases (db : LifecycleDb) (cond : LifecyclePhaseRecord → Bool)
    (f : LifecyclePhaseRecord → LifecyclePhaseRecord) : LifecycleDb :=
  { db with phases := Tables.updateWhere cond f db.phases }

def addPhase (db : LifecycleDb) (record : LifecyclePhaseRecord) : LifecycleDb :=
  { db with phases := db.phases ++ [record] }

def nextPhaseId (db : LifecycleDb) : Nat := db.phases.length + 1

end LifecycleDb

/-- `_LIFECYCLE_TERMINAL`. -/
def lifecycleTerminal : List Text := ["done".toList, "abandoned".toList]

def IssueLifecycle.isTerminal (l : IssueLifecycle) : Bool := lifecycleTerminal.contains l.currentPhase

/-- The number of an issue, without the `#` in front of it. -/
def normalizeIssueNumber (number : Text) : Text := Text.strip (number.dropWhile (· == '#'))

/-- `get_or_create_lifecycle`. A new row normalises its number once more. -/
def getOrCreateLifecycle (db : LifecycleDb) (issueNumber projectSlug : Text) (now : Nat) :
    IssueLifecycle × LifecycleDb :=
  let number := normalizeIssueNumber issueNumber
  let found := db.lifecycles.filter fun l =>
    l.issueNumber == number && l.projectSlug == projectSlug && !l.isTerminal
  match found.getLast? with
  | some l => (l, db)
  | none =>
    let l : IssueLifecycle :=
      { id := db.lifecycles.length + 1
        issueNumber := normalizeIssueNumber number
        projectSlug := projectSlug
        createdAt := now
        updatedAt := now }
    (l, { db with lifecycles := db.lifecycles ++ [l] })

/-- `_find_phase_records`. -/
def findPhaseRecords (db : LifecycleDb) (lifecycleId : Nat) (phase : Text)
    (status : Option PhaseStatus) : List LifecyclePhaseRecord :=
  db.phases.filter fun r =>
    r.lifecycleId == lifecycleId && r.phase == phase && status.all fun s => r.status == s

/-- `_max_attempt`. -/
def maxAttempt (db : LifecycleDb) (lifecycleId : Nat) (phase : Text) : Nat :=
  ((findPhaseRecords db lifecycleId phase none).map LifecyclePhaseRecord.attempt).foldl max 0

/-- The phase that a lifecycle goes to after another, when there is one. -/
def nextPhase (fromPhase : Text) : Option Text :=
  let transitions := (phaseTransitions.lookup fromPhase).getD []
  phaseOrder.find? fun p => transitions.contains p

/-- `_advance_lifecycle`. -/
def advanceLifecycle (l : IssueLifecycle) (fromPhase : Text) (now : Nat) : IssueLifecycle :=
  let transitions := (phaseTransitions.lookup fromPhase).getD []
  if transitions.isEmpty then
    { l with
      currentPhase := "done".toList
      phaseStatus := .completed
      completedAt := some now }
  else
    match nextPhase fromPhase with
    | some p => { l with currentPhase := p, phaseStatus := .pending }
    | none => l

/-- An id that is present and not 0. -/
def truthyId (id : Option Nat) : Bool := id.any fun n => n != 0

def startPhase (db : LifecycleDb) (lifecycleId : Nat) (phase : Text) (taskRunId : Option Nat)
    (now : Nat) : Option LifecyclePhaseRecord × LifecycleDb :=
  match db.lifecycle lifecycleId with
  | none => (none, db)
  | some _ =>
    match findPhaseRecords db lifecycleId phase (some .active) with
    | record :: _ =>
      if truthyId taskRunId && !truthyId record.taskRunId then
        (some { record with taskRunId := taskRunId },
          db.updatePhases (fun r => r.id == record.id) fun r => { r with taskRunId := taskRunId })
      else (some record, db)
    | [] =>
      let record : LifecyclePhaseRecord :=
        { id := db.nextPhaseId
          lifecycleId := lifecycleId
          phase := phase
          status := .active
          taskRunId := taskRunId
          attempt := maxAttempt db lifecycleId phase + 1
          startedAt := some now }
      (some record, (db.addPhase record).setLifecycle lifecycleId fun l =>
        { l with currentPhase := phase, phaseStatus := .active, updatedAt := now })

def LifecyclePhaseRecord.complete (cost : ℚ) (now : Nat) (r : LifecyclePhaseRecord) :
    LifecyclePhaseRecord :=
  { r with status := .completed, completedAt := some now, costUsd := cost }

def completePhase (db : LifecycleDb) (lifecycleId : Nat) (phase : Text) (cost : ℚ) (now : Nat) :
    Bool × LifecycleDb :=
  match db.lifecycle lifecycleId with
  | none => (false, db)
  | some _ =>
    match findPhaseRecords db lifecycleId phase (some .active) with
    | [] => (false, db)
    | record :: _ =>
      let db := db.updatePhases (fun r => r.id == record.id) (LifecyclePhaseRecord.complete cost now)
      (true, db.setLifecycle lifecycleId fun l =>
        advanceLifecycle { l with
          totalCostUsd := l.totalCostUsd + cost
          phaseStatus := .completed
          updatedAt := now } phase now)

/-- The active record of a phase is closed without completing the phase. -/
def closePhase (status : PhaseStatus) (db : LifecycleDb) (lifecycleId : Nat) (phase : Text)
    (error : Option Text) (now : Nat) : Bool × LifecycleDb :=
  match db.lifecycle lifecycleId with
  | none => (false, db)
  | some _ =>
    match findPhaseRecords db lifecycleId phase (some .active) with
    | [] => (false, db)
    | record :: _ =>
      let db := db.updatePhases (fun r => r.id == record.id) fun r =>
        { r with status := status, errorMessage := error, completedAt := some now }
      (true, db.setLifecycle lifecycleId fun l => { l with phaseStatus := status, updatedAt := now })

def failPhase : LifecycleDb → Nat → Text → Option Text → Nat → Bool × LifecycleDb := closePhase .failed

def stopPhase : LifecycleDb → Nat → Text → Option Text → Nat → Bool × LifecycleDb := closePhase .stopped

def LifecyclePhaseRecord.isOpen (r : LifecyclePhaseRecord) : Bool :=
  r.status == .pending || r.status == .active

def LifecyclePhaseRecord.skip (now : Nat) (r : LifecyclePhaseRecord) : LifecyclePhaseRecord :=
  { r with status := .skipped, completedAt := some now }

/-- The pending and active records of a phase become skipped. -/
def skipOpen (db : LifecycleDb) (lifecycleId : Nat) (phase : Text) (now : Nat) : LifecycleDb :=
  db.updatePhases (fun r => r.lifecycleId == lifecycleId && r.phase == phase && r.isOpen)
    (LifecyclePhaseRecord.skip now)

def skipPhase (db : LifecycleDb) (lifecycleId : Nat) (phase : Text) (now : Nat) : Bool × LifecycleDb :=
  match db.lifecycle lifecycleId with
  | none => (false, db)
  | some _ =>
    let hasRecord := !(findPhaseRecords db lifecycleId phase none).isEmpty
    let db := skipOpen db lifecycleId phase now
    let db :=
      if hasRecord then db
      else db.addPhase
        { id := db.nextPhaseId
          lifecycleId := lifecycleId
          phase := phase
          status := .skipped
          completedAt := some now }
    (true, db.setLifecycle lifecycleId fun l => { advanceLifecycle l phase now with updatedAt := now })

/-- The records of a phase that allow its restart. -/
def failedRecords (db : LifecycleDb) (lifecycleId : Nat) (phase : Text) : List LifecyclePhaseRecord :=
  db.phases.filter fun r =>
    r.lifecycleId == lifecycleId && r.phase == phase && (r.status == .failed || r.status == .stopped)

def restartPhase (db : LifecycleDb) (lifecycleId : Nat) (phase : Text) (now : Nat) :
    Option LifecyclePhaseRecord × LifecycleDb :=
  match db.lifecycle lifecycleId with
  | none => (none, db)
  | some _ =>
    match (failedRecords db lifecycleId phase).getLast? with
    | none => (none, db)
    | some record =>
      (some record, db.setLifecycle lifecycleId fun l =>
        { l with currentPhase := phase, phaseStatus := .pending, updatedAt := now })

/-- The phases that `force_advance` passes over: from the current one up to the target. -/
def passedPhases (current toPhase : Text) : List Text :=
  match phaseOrder.idxOf? current with
  | none => []
  | some currentIdx =>
    (phaseOrder.take ((phaseOrder.idxOf? toPhase).getD phaseOrder.length)).drop currentIdx

def forceAdvance (db : LifecycleDb) (lifecycleId : Nat) (toPhase : Text) (now : Nat) :
    Bool × LifecycleDb :=
  match db.lifecycle lifecycleId with
  | none => (false, db)
  | some lifecycle =>
    if !(phaseOrder ++ ["done".toList]).contains toPhase then (false, db)
    else
      let db := (passedPhases lifecycle.currentPhase toPhase).foldl
        (fun db phase => skipOpen db lifecycleId phase now) db
      (true, db.setLifecycle lifecycleId fun l =>
        if toPhase = "done".toList then
          { l with
            currentPhase := "done".toList
            phaseStatus := .completed
            completedAt := some now
            updatedAt := now }
        else { l with currentPhase := toPhase, phaseStatus := .pending, updatedAt := now })

def abandonLifecycle (db : LifecycleDb) (lifecycleId : Nat) (now : Nat) : Bool × LifecycleDb :=
  match db.lifecycle lifecycleId with
  | none => (false, db)
  | some _ =>
    let db := db.setLifecycle lifecycleId fun l =>
      { l with
        currentPhase := "abandoned".toList
        phaseStatus := .failed
        completedAt := some now
        updatedAt := now }
    (true, db.updatePhases (fun r => r.lifecycleId == lifecycleId && r.isOpen)
      (LifecyclePhaseRecord.skip now))

/-! ## Runs -/

inductive LifecycleOp where
  | getOrCreate (issueNumber projectSlug : Text) (now : Nat)
  | start (lifecycleId : Nat) (phase : Text) (taskRunId : Option Nat) (now : Nat)
  | complete (lifecycleId : Nat) (phase : Text) (cost : ℚ) (now : Nat)
  | fail (lifecycleId : Nat) (phase : Text) (error : Option Text) (now : Nat)
  | stop (lifecycleId : Nat) (phase : Text) (error : Option Text) (now : Nat)
  | skip (lifecycleId : Nat) (phase : Text) (now : Nat)
  | restart (lifecycleId : Nat) (phase : Text) (now : Nat)
  | forceAdvance (lifecycleId : Nat) (toPhase : Text) (now : Nat)
  | abandon (lifecycleId : Nat) (now : Nat)
  deriving DecidableEq

def LifecycleDb.apply (db : LifecycleDb) : LifecycleOp → LifecycleDb
  | .getOrCreate issueNumber projectSlug now => (getOrCreateLifecycle db issueNumber projectSlug now).2
  | .start id phase taskRunId now => (startPhase db id phase taskRunId now).2
  | .complete id phase cost now => (completePhase db id phase cost now).2
  | .fail id phase error now => (failPhase db id phase error now).2
  | .stop id phase error now => (stopPhase db id phase error now).2
  | .skip id phase now => (skipPhase db id phase now).2
  | .restart id phase now => (restartPhase db id phase now).2
  | .forceAdvance id toPhase now => (forceAdvance db id toPhase now).2
  | .abandon id now => (abandonLifecycle db id now).2

/-- No operation is ever refused: a call that finds nothing to do leaves the tables as they are. -/
def lifecycleStep (db : LifecycleDb) (op : LifecycleOp) : Option LifecycleDb := some (db.apply op)

end Dashboard

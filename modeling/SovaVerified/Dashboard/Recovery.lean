import SovaVerified.Dashboard.AgentRuns
import SovaVerified.Runs.Runs

/-!
# Recovering stale runs

`recover_stale_runs` of `sova/dashboard/services/agent_recovery.py`, next to the starts of agents and
commands that it interleaves with. A sweep reads the runs that are not finished, judges each of them by
its process and by the pool, asks for merged pull requests, and writes the runs that it took for dead.
A start creates the row of its run, spawns the process, stores the pid and registers the agent. Between
any two of these steps anything else may happen.

Times are in microseconds. The signals that a sweep sends to orphans are only noted: whether and when a
process ends is up to the machine. The entries of the merge queue and the tracker states that a sweep
writes after the runs are left out.
-/

namespace Dashboard

/-! ## The processes of the machine -/

/-- A process, as `psutil` shows it, and the start that spawned it. -/
structure Process where
  createTime : Nat
  -- the variable `SOVA_AGENT_RUN` of its environment
  agentMarker : Option Text := none
  ppid : Int := 1
  cmdline : List Text := []
  spawnedBy : Option Nat := none
  deriving DecidableEq

abbrev Machine := Int → Option Process

/-- `os.kill(pid, 0)`. -/
def Machine.kill (m : Machine) (pid : Int) : Signalled :=
  if (m pid).isSome then .sent else .failed

/-- The five minutes that a process may be younger than its row. -/
def recycleMargin : Nat := 5 * 60 * 1000000

/-- `_is_zombie_process`: the pid still belongs to the process of the run. Without `psutil`, and for a
process that `psutil` does not find, only the pid is checked. -/
def isZombieProcess (m : Machine) (psutilFails : Bool) (pid : Int) (startedAt : Nat) : Bool :=
  match if psutilFails then none else m pid with
  | some p => !decide (startedAt + recycleMargin < p.createTime)
  | none => isProcessAlive m.kill pid

/-- `os.path.basename`. -/
def basename (path : Text) : Text := (path.reverse.takeWhile (· != '/')).reverse

/-- `_is_sova_cmdline`. -/
def isSovaCmdline (cmdline : List Text) : Bool :=
  ((cmdline.take 2).any fun token => basename token == "sova".toList) ||
    ((cmdline.zip cmdline.tail).any fun (flag, module) =>
      flag == "-m".toList && (module == "sova".toList || "sova.".toList.isPrefixOf module))

/-- `_is_orphaned_process`, for a dashboard with the pid `self`. -/
def isOrphanedProcess (m : Machine) (self : Int) (psutilFails : Bool) (pid : Int) : Bool :=
  if pid == self || psutilFails then false
  else
    match m pid with
    | none => false
    | some p =>
      if p.agentMarker != some "1".toList then false
      else if p.ppid ≤ 1 || p.ppid == self then true
      else
        match m p.ppid with
        | none => false
        | some parent => !isSovaCmdline parent.cmdline

/-! ## Judging a run -/

/-- The handoff file of an issue. A time or a cost that cannot be read is absent. -/
structure Handoff where
  status : Text
  createdAt : Option Nat := none
  costUsd : Option ℚ := none
  deriving DecidableEq

/-- What a sweep reads while it judges the runs. -/
structure SweepOutside where
  psutilFails : Int → Bool := fun _ => false
  -- the pools of the other projects
  otherManaged : List Nat := []
  poolLoaded : Bool := true
  -- `handoff_service.get_handoff`
  handoff : Text → Option Handoff := fun _ => none

/-- `_get_managed_run_ids`. -/
def managedRunIds (w : SweepOutside) (c : Control) : List Nat :=
  if w.poolLoaded then c.managedIds ++ w.otherManaged else []

inductive Verdict where
  | alive
  | orphan
  | dead
  deriving DecidableEq, Repr

/-- The first checks of the loop over the runs. A pid of 0 counts as none. -/
def judgeRun (m : Machine) (self : Int) (w : SweepOutside) (managed : List Nat) (run : TaskRun) : Verdict :=
  match run.pid with
  | none => .dead
  | some pid =>
    if pid != 0 && isZombieProcess m (w.psutilFails pid) pid run.startedAt then
      if managed.contains run.id then .alive
      else if !w.poolLoaded then .alive
      else if !isOrphanedProcess m self (w.psutilFails pid) pid then .alive
      else .orphan
    else .dead

/-- A run that the sweep is going to write. -/
structure DeadRun where
  runId : Nat
  prNumber : Option Nat
  wasStatus : RunStatus
  finalStatus : RunStatus
  costOverride : Option ℚ := none
  errorMsg : Option Text := none
  needsMergeCheck : Bool := false
  deriving DecidableEq

/-- The handoff that shows that the run was completed. -/
def completedHandoff (w : SweepOutside) (run : TaskRun) : Option Handoff :=
  match run.issueNumber with
  | none => none
  | some issue =>
    if issue.isEmpty then none
    else
      (w.handoff issue).filter fun hf =>
        hf.status == "awaiting_action".toList && hf.createdAt.any fun t => run.startedAt ≤ t

/-- `_MERGE_ROLES`. -/
def mergeRoles : List Text := ["integrate-pr".toList]

/-- `role.removeprefix("command:").removeprefix("/").split()`. -/
def roleParts (role : Text) : List Text :=
  Text.split (Text.withoutFront "/".toList (Text.withoutFront "command:".toList role))

def deadRun (w : SweepOutside) (run : TaskRun) : DeadRun :=
  match completedHandoff w run with
  | some hf =>
    { runId := run.id
      prNumber := run.prNumber
      wasStatus := run.status
      finalStatus := .done
      costOverride := hf.costUsd }
  | none =>
    { runId := run.id
      prNumber := run.prNumber
      wasStatus := run.status
      finalStatus := .interrupted
      needsMergeCheck := run.prNumber.isSome && (roleParts run.role).head?.any mergeRoles.contains }

/-- The runs that are not alive. -/
def judgeRuns (m : Machine) (self : Int) (w : SweepOutside) (c : Control) (runs : List TaskRun) :
    List DeadRun :=
  (runs.filter fun r => judgeRun m self w (managedRunIds w c) r != .alive).map (deadRun w)

/-- The pids that are signalled. -/
def orphanPids (m : Machine) (self : Int) (w : SweepOutside) (c : Control) (runs : List TaskRun) :
    List Int :=
  (runs.filter fun r => judgeRun m self w (managedRunIds w c) r == .orphan).filterMap TaskRun.pid

/-! ## The merge checks and the write -/

inductive MergeCheck where
  | merged
  | inQueue
  | unknown
  deriving DecidableEq, Repr

def applyMergeCheck (answer : Nat → MergeCheck) (rec : DeadRun) : DeadRun :=
  let pr := Text.ofInt (rec.prNumber.getD 0)
  if rec.needsMergeCheck then
    match answer rec.runId with
    | .merged =>
      { rec with
        finalStatus := .done
        errorMsg := some ("Agent process died but PR #".toList ++ pr ++
          " was merged successfully".toList) }
    | .inQueue =>
      { rec with
        finalStatus := .done
        errorMsg := some ("PR #".toList ++ pr ++
          " is in merge queue, tracked for post-merge cleanup".toList) }
    | .unknown => rec
  else rec

def recoverRun (now : Nat) (rec : DeadRun) (run : TaskRun) : TaskRun :=
  if rec.finalStatus = .interrupted then
    { run with
      status := .interrupted
      endedAt := some now
      errorMessage := some ("Stale run recovered on startup (was '".toList ++ rec.wasStatus.value ++
        "')".toList) }
  else
    { run with
      status := rec.finalStatus
      endedAt := some now
      errorMessage := rec.errorMsg
      totalCostUsd := rec.costOverride.getD run.totalCostUsd }

/-- The write of one run: a run that has been finished in the meantime is left alone. The ids of the
interrupted runs are collected. -/
def writeDeadRun (now : Nat) (acc : Control × List Nat) (rec : DeadRun) : Control × List Nat :=
  match acc.1.run rec.runId with
  | none => acc
  | some run =>
    if run.isTerminal then acc
    else
      (acc.1.setRun rec.runId (recoverRun now rec),
        if rec.finalStatus = .interrupted then acc.2 ++ [rec.runId] else acc.2)

/-- The write transaction. -/
def writeDeadRuns (now : Nat) (c : Control) (dead : List DeadRun) : Control × List Nat :=
  dead.foldl (writeDeadRun now) (c, [])

/-! ## Starts and sweeps together -/

/-- How far a start has come. -/
inductive StartStage where
  | created
  | spawned (pid : Int)
  | stored (pid : Int)
  | registered (pid : Int)
  | failed
  deriving DecidableEq

def StartStage.pid : StartStage → Option Int
  | spawned pid | stored pid | registered pid => some pid
  | created | failed => none

/-- A start of `start_agent` or `start_command`, from the creation of its row on. -/
structure Start where
  runId : Nat
  issue : Text
  stage : StartStage
  deriving DecidableEq

/-- How far a sweep has come. -/
inductive Sweep where
  | read (runs : List TaskRun)
  | judged (dead : List DeadRun) (signalled : List Int)
  | checked (dead : List DeadRun)
  | ended
  deriving DecidableEq

structure Recovery where
  control : Control
  machine : Machine
  -- the pid of the dashboard
  self : Int
  starts : List Start := []
  sweeps : List Sweep := []
  -- the runs that the sweeps have marked as interrupted
  interrupted : List Nat := []

inductive RecoveryAction where
  | create (issue : Option Text) (role : Text) (prNumber : Option Nat) (check : Option Text) (now : Nat)
  | spawn (start : Nat) (pid : Int) (process : Process)
  | spawnFails (start : Nat) (dbFails : Bool) (now : Nat)
  | storePid (start : Nat) (dbFails : Bool)
  | register (start : Nat)
  | release (start : Nat)
  | appear (pid : Int) (process : Process)
  | exit (pid : Int)
  | checkConflict (dbFails : Bool) (issue : Text) (force : Bool) (now : Nat)
  | write (runId : Nat) (status : RunStatus)
  | sweepRead
  | sweepJudge (sweep : Nat) (outside : SweepOutside)
  | sweepMerge (sweep : Nat) (timedOut : Bool) (answer : Nat → MergeCheck)
  | sweepWrite (sweep : Nat) (now : Nat)
  | sweepFails (sweep : Nat)

namespace Recovery

def start (s : Recovery) (i : Nat) : Option Start := s.starts[i]?

def sweep (s : Recovery) (j : Nat) : Option Sweep := s.sweeps[j]?

def setStage (s : Recovery) (i : Nat) (st : Start) (stage : StartStage) : Recovery :=
  { s with starts := s.starts.set i { st with stage := stage } }

def setSweep (s : Recovery) (j : Nat) (sweep : Sweep) : Recovery :=
  { s with sweeps := s.sweeps.set j sweep }

/-- The process that the start spawned is there. -/
def processAlive (s : Recovery) (i : Nat) (pid : Int) : Bool :=
  (s.machine pid).any fun p => p.spawnedBy == some i

/-- A step of a start. -/
def stepStart (s : Recovery) (i : Nat) (st : Start) : RecoveryAction → Option Recovery
  | .spawn _ pid process =>
    match st.stage with
    | .created =>
      -- the machine gives out a pid that is not in use
      if 0 < pid ∧ s.machine pid = none then
        some { s.setStage i st (.spawned pid) with
          machine := Function.update s.machine pid (some { process with spawnedBy := some i }) }
      else none
    | _ => none
  | .spawnFails _ dbFails now =>
    match st.stage with
    | .created =>
      some { s.setStage i st .failed with
        control := if dbFails then s.control else finalizeOrphanedRun s.control st.runId now }
    | _ => none
  | .storePid _ dbFails =>
    match st.stage with
    | .spawned pid =>
      some { s.setStage i st (.stored pid) with
        control := if dbFails then s.control else updateTaskRunPid s.control st.runId pid }
    | _ => none
  | .register _ =>
    match st.stage with
    | .stored pid =>
      some { s.setStage i st (.registered pid) with
        control := s.control.register { runId := st.runId, issue := st.issue } }
    | _ => none
  | .release _ =>
    match st.stage with
    | .registered pid =>
      -- an agent leaves the pool after its process has ended
      if s.processAlive i pid then none
      else
        some { s with
          control := { s.control with pool := { s.control.pool with
            agents := s.control.pool.agents.filter fun a => a.runId != st.runId } } }
    | _ => none
  | _ => none

/-- A step of a sweep. -/
def stepSweep (s : Recovery) (j : Nat) (sweep : Sweep) : RecoveryAction → Option Recovery
  | .sweepJudge _ w =>
    match sweep with
    | .read runs =>
      some (s.setSweep j (.judged (judgeRuns s.machine s.self w s.control runs)
        (orphanPids s.machine s.self w s.control runs)))
    | _ => none
  | .sweepMerge _ timedOut answer =>
    match sweep with
    | .judged dead _ =>
      some (s.setSweep j (.checked (if timedOut then dead else dead.map (applyMergeCheck answer))))
    | _ => none
  | .sweepWrite _ now =>
    match sweep with
    | .checked dead =>
      let written := writeDeadRuns now s.control dead
      some { s.setSweep j .ended with
        control := written.1
        interrupted := s.interrupted ++ written.2 }
    | _ => none
  | .sweepFails _ => some (s.setSweep j .ended)
  | _ => none

def step (s : Recovery) (a : RecoveryAction) : Option Recovery :=
  match a with
  | .create issue role prNumber check now =>
    let created := createTaskRun s.control issue role prNumber check now
    some { s with
      control := created.2
      starts := s.starts ++ [{ runId := created.1, issue := issue.getD [], stage := .created }] }
  | .spawn i _ _ | .spawnFails i _ _ | .storePid i _ | .register i | .release i =>
    (s.start i).bind fun st => s.stepStart i st a
  | .appear pid process =>
    if s.machine pid = none then
      some { s with machine := Function.update s.machine pid (some { process with spawnedBy := none }) }
    else none
  | .exit pid => some { s with machine := Function.update s.machine pid none }
  | .checkConflict dbFails issue force now =>
    some { s with
      control := (checkIssueConflict s.machine.kill dbFails now issue force s.control).2 }
  | .write runId status =>
    some { s with control := s.control.setRun runId fun r => { r with status := status } }
  | .sweepRead =>
    some { s with sweeps := s.sweeps ++ [.read (s.control.runs.filter fun r => !r.isTerminal)] }
  | .sweepJudge j _ | .sweepMerge j _ _ | .sweepWrite j _ | .sweepFails j =>
    (s.sweep j).bind fun sweep => s.stepSweep j sweep a

end Recovery

end Dashboard

import SovaVerified.Dashboard.StartAgent

/-!
# The pool of a project

The tasks that work on the pool of one project: starts of agents and of commands, stops and finalizations, in
any order. The pool is written inside its lock only. A start holds the lock from its first check to the
registration of its agent, with calls in between during which any other task may run, as far as it does not
need the lock; the table of the runs may be written at any time.
-/

namespace Dashboard

/-- A start whose request is complete. -/
inductive PreparedStart where
  | agent (o : StartOutside) (req : StartRequest)
  | command (o : CommandOutside) (start : CommandStart)

namespace PreparedStart

def issue : PreparedStart → Text
  | agent _ req => req.issue
  | command _ start => start.issue

/-- A command cannot be forced. -/
def force : PreparedStart → Bool
  | agent _ req => req.force
  | command _ _ => false

def admitStart : PreparedStart → Control → Option AgentError × Control
  | agent o req => Dashboard.admitStart o req
  | command o start => admitCommand o start

def launch : PreparedStart → Control → StartResult × Control
  | agent o req => launchStart o req
  | command o start => launchCommand o start

end PreparedStart

/-- Who holds the lock, and how far it has come. -/
inductive LockHolder where
  | checking (start : PreparedStart)
  | admitted (start : PreparedStart)
  | stopping

/-- An agent of the pool, and whether it was started with force. -/
structure PoolEntry where
  agent : AgentState
  forced : Bool
  deriving DecidableEq

/-- The table, the pool in the order of registration, the starts that wait for the lock, and the lock. -/
structure PoolSystem where
  runs : List TaskRun := []
  entries : List PoolEntry := []
  maxConcurrent : Nat := 2
  waiting : List PreparedStart := []
  lock : Option LockHolder := none

/-- What the operations on the pool see. -/
def PoolSystem.control (s : PoolSystem) : Control :=
  { runs := s.runs
    pool := { agents := s.entries.map PoolEntry.agent, maxConcurrent := s.maxConcurrent } }

/-- The system after an operation of the lock holder; the agents that it registered are new entries. -/
def PoolSystem.withControl (s : PoolSystem) (c : Control) (forced : Bool) : PoolSystem :=
  { s with
    runs := c.runs
    entries := s.entries ++ (c.pool.agents.drop s.entries.length).map fun a => { agent := a, forced := forced } }

inductive PoolAction where
  /-- `start_agent` or `start_command` up to the lock. -/
  | prepareAgent (o : StartOutside) (req : StartRequest)
  | prepareCommand (o : CommandOutside) (req : CommandRequest)
  /-- A waiting start gets the lock, passes its checks or not, and launches its agent. -/
  | acquire (i : Nat)
  | admitStart
  | launch
  /-- `stop_agent` gets the lock and leaves it; the agent stays in the pool. -/
  | beginStop
  | endStop
  /-- The task that holds the lock is cancelled. -/
  | cancel
  /-- `_wait_and_finalize` takes its agent out of the pool. -/
  | finalize (runId : Nat)
  /-- Another service writes the table. -/
  | write (runs : List TaskRun)

def PoolSystem.step (s : PoolSystem) : PoolAction → Option PoolSystem
  | .prepareAgent o req =>
    if o.prepareRaises then some s
    else
      match prepareStart o req s.control with
      | .error _ => some s
      | .ok req => some { s with waiting := s.waiting ++ [.agent o req] }
  | .prepareCommand o req =>
    if o.prepareRaises then some s
    else
      match Dashboard.prepareCommand o req with
      | .error _ => some s
      | .ok start => some { s with waiting := s.waiting ++ [.command o start] }
  | .acquire i =>
    match s.lock, s.waiting[i]? with
    | none, some start => some { s with waiting := s.waiting.eraseIdx i, lock := some (.checking start) }
    | _, _ => none
  | .admitStart =>
    match s.lock with
    | some (.checking start) =>
      match start.admitStart s.control with
      | (some _, c) => some { s.withControl c start.force with lock := none }
      | (none, c) => some { s.withControl c start.force with lock := some (.admitted start) }
    | _ => none
  | .launch =>
    match s.lock with
    | some (.admitted start) =>
      some { s.withControl (start.launch s.control).2 start.force with lock := none }
    | _ => none
  | .beginStop => if s.lock.isNone then some { s with lock := some .stopping } else none
  | .endStop =>
    match s.lock with
    | some .stopping => some { s with lock := none }
    | _ => none
  | .cancel => some { s with lock := none }
  | .finalize runId =>
    if s.lock.isNone then some { s with entries := s.entries.filter fun e => e.agent.runId != runId }
    else none
  | .write runs => some { s with runs := runs }

end Dashboard

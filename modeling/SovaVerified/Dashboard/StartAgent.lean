import SovaVerified.Dashboard.AgentRuns

/-!
# Starting an agent

`start_agent` of `sova/dashboard/services/agent_lifecycle.py`: a request to start an agent is completed
from what is known about its issue and its pull request, checked, given a row, spawned and registered in
the pool. What the services, the file system and the other processes answer is ranged over: a
`StartOutside` holds the answer of every call of one start.

The environment of the process, its model, the handoff files, the link to the lifecycle of the issue and
the record of a budget override are left out: none of them decides what a start returns or writes to the
runs.
-/

namespace Dashboard

/-- The number that `#(\d+)` matched in the body of a pull request: digits of any script, none of which
is a `#` or white space. -/
structure IssueRef where
  digits : Text
  nonempty : digits ≠ []
  plain : ∀ c ∈ digits, c ≠ '#' ∧ Text.isSpace c = false

/-- Where an agent is going to work. -/
inductive WorktreeAnswer where
  | worktree
  | projectDir
  | raised
  deriving DecidableEq, Repr

/-- What the calls of one start answer. -/
structure StartOutside where
  now : Nat
  -- `_resolve_issue_from_pr`
  issueFromPr : Option IssueRef := none
  -- `_load_suitability_check` reads the row of the resumed run
  suitabilityCheckFails : Bool := false
  -- `pin_override_role`: the role, or why there is none
  pinnedRole : Except Text (Option Text) := .ok none
  -- `_first_open_pr` of the requested pull request, and `_recover_last_pr_number`
  requestedOpen : Bool := true
  recoveredPr : Option Nat := none
  -- `check_memory_pressure` and `check_network_connectivity`
  memoryBlock : Option AgentError := none
  networkBlock : Option AgentError := none
  -- a call before the lock raises
  prepareRaises : Bool := false
  -- `_check_issue_conflict`
  kill : Int → Signalled
  conflictFails : Bool := false
  -- `check_issue_suitability`
  suitability : Option AgentError := none
  -- `_resolve_issue_worktree`
  worktree : WorktreeAnswer := .worktree
  -- `_check_issue_budget`
  budget : Option AgentError := none
  -- `_create_task_run`
  createFails : Bool := false
  -- the environment of the process
  environmentRaises : Bool := false
  -- the process, or the text of the exception
  spawn : Except Text Int
  orphanFails : Bool := false
  pidFails : Bool := false

structure StartRequest where
  issue : Text
  role : Option Text := none
  force : Bool := false
  budgetOverride : Bool := false
  enforceSuitability : Bool := false
  overrideSuitability : Bool := false
  resumeRunId : Option Nat := none
  prNumber : Option Nat := none
  llmModelOverride : Option Text := none
  deriving DecidableEq

inductive StartResult where
  | started (pid : Int) (runId : Nat)
  | error (e : AgentError)
  | raised
  deriving DecidableEq

/-- A text that is present and not empty. -/
def truthyText (t : Option Text) : Bool := t.any fun s => !s.isEmpty

/-- `_DIRECT_SPAWN_ROLES`, in order. -/
def llmModelOverrideRoles : List Text :=
  ["developer".toList, "planner".toList, "researcher".toList, "reviewer".toList]

/-- `llm_model_override_role_error`. -/
def llmModelOverrideRoleError (role : Option Text) : Option Text :=
  let effective := role.getD "developer".toList
  if llmModelOverrideRoles.contains effective then none
  else some ("The ".toList ++ effective ++
    " role cannot honor a per-run internal LLM model override; supported roles: ".toList ++
    Text.join ", ".toList llmModelOverrideRoles)

/-- `SUITABILITY_OVERRIDDEN`. -/
def suitabilityOverridden : Text := "overridden".toList

/-- `SUITABILITY_SKIPPED`. -/
def suitabilitySkipped : Text := "skipped".toList

/-- `_load_suitability_check`. -/
def loadSuitabilityCheck (o : StartOutside) (c : Control) (runId : Nat) : Option Text :=
  if o.suitabilityCheckFails then none else (c.run runId).bind TaskRun.suitabilityCheck

/-- The number of the issue, from the pull request when the request has none. -/
def resolveIssue (o : StartOutside) (req : StartRequest) : StartRequest :=
  let issue := normalizeIssueNumber req.issue
  if issue.isEmpty && truthyId req.prNumber then
    { req with issue := (o.issueFromPr.map IssueRef.digits).getD [] }
  else { req with issue := issue }

/-- A resume inherits how the check of the suitability went for the run it continues. -/
def inheritSuitability (o : StartOutside) (req : StartRequest) (c : Control) : StartRequest :=
  if !req.issue.isEmpty && truthyId req.resumeRunId && req.enforceSuitability &&
      !req.overrideSuitability then
    match loadSuitabilityCheck o c (req.resumeRunId.getD 0) with
    | none => req
    | some prior =>
      if prior == suitabilityOverridden || prior == suitabilitySkipped then
        { req with
          enforceSuitability := prior != suitabilitySkipped
          overrideSuitability := prior == suitabilityOverridden }
      else req
  else req

/-- An override without a role is given one. -/
def pinRole (o : StartOutside) (req : StartRequest) : Except AgentError StartRequest :=
  if req.overrideSuitability && !truthyId req.resumeRunId then
    if truthyText req.role || req.issue.isEmpty then .ok req
    else
      match o.pinnedRole with
      | .ok role => .ok { req with role := role }
      | .error why => .error { error := why, code := some "suitability_role_unresolved".toList }
  else .ok req

/-- `_developer_pr_number`. -/
def developerPrNumber (o : StartOutside) (requested : Option Nat) (resuming : Bool) : Option Nat :=
  if truthyId requested then
    if o.requestedOpen then requested
    else if resuming then none
    else o.recoveredPr
  else o.recoveredPr

/-- The pull request that the run continues. -/
def resolvePr (o : StartOutside) (req : StartRequest) : StartRequest :=
  if !req.issue.isEmpty && req.role == some "developer".toList then
    { req with prNumber := developerPrNumber o req.prNumber (truthyId req.resumeRunId) }
  else if !req.issue.isEmpty && req.role.isNone && !truthyId req.prNumber then
    { req with prNumber := o.recoveredPr }
  else req

/-- The checks of the machine, which a forced start skips. -/
def machineBlock (o : StartOutside) (req : StartRequest) : Option AgentError :=
  if req.force then none else o.memoryBlock.or o.networkBlock

/-- `start_agent` before the lock of the pool: the request as it is going to be started. Nothing is
written. -/
def prepareStart (o : StartOutside) (req : StartRequest) (c : Control) :
    Except AgentError StartRequest :=
  match if truthyText req.llmModelOverride then llmModelOverrideRoleError req.role else none with
  | some why => .error { error := why, code := some "llm_model_override_unsupported".toList }
  | none =>
    match pinRole o (inheritSuitability o (resolveIssue o req) c) with
    | .error e => .error e
    | .ok req =>
      let req := resolvePr o req
      match machineBlock o req with
      | some e => .error e
      | none => .ok req

/-- The checks of the issue: its conflicts, and its suitability when that is enforced. -/
def checkIssue (o : StartOutside) (req : StartRequest) (c : Control) : Option AgentError × Control :=
  if req.issue.isEmpty then (none, c)
  else
    match checkIssueConflict o.kill o.conflictFails o.now req.issue req.force c with
    | (some e, c) => (some e, c)
    | (none, c) =>
      (if req.enforceSuitability && !req.overrideSuitability then o.suitability else none, c)

/-- The first part of `start_agent` inside the lock: the room in the pool and the checks of the issue. -/
def admitStart (o : StartOutside) (req : StartRequest) (c : Control) : Option AgentError × Control :=
  if c.pool.agents.length ≥ c.pool.maxConcurrent then
    (some
      { error := "Maximum concurrent agents reached (".toList ++ Text.ofInt c.pool.maxConcurrent ++
          ")".toList
        running := some c.pool.agents.length }, c)
  else checkIssue o req c

/-- The worktree and the budget: why the start ends here, if it does. -/
def placeStart (o : StartOutside) (req : StartRequest) : Option StartResult :=
  if o.worktree = .raised then some .raised
  else if truthyId req.prNumber && o.worktree = .projectDir then
    some (.error
      { error := "Cannot start PR-based run: worktree isolation failed for PR ".toList ++
          Text.ofInt (req.prNumber.getD 0) })
  else if req.issue.isEmpty || req.budgetOverride then none
  else o.budget.map StartResult.error

/-- How the check of the suitability went, for the row. -/
def suitabilityCheckOf (req : StartRequest) : Option Text :=
  if req.overrideSuitability then some suitabilityOverridden
  else if !req.issue.isEmpty && !req.enforceSuitability then some suitabilitySkipped
  else none

/-- `role or "developer"`. -/
def orDeveloper (role : Option Text) : Text :=
  match role with
  | some (ch :: rest) => ch :: rest
  | _ => "developer".toList

/-- The row of the run that is started. -/
def createStart (o : StartOutside) (req : StartRequest) (c : Control) : Nat × Control :=
  createTaskRun c (if req.issue.isEmpty then none else some req.issue)
    (orDeveloper req.role) req.prNumber (suitabilityCheckOf req) o.now

/-- The process of a run that has its row: it is spawned, its pid stored and its agent registered. -/
def spawnStart (o : StartOutside) (req : StartRequest) (runId : Nat) (c : Control) :
    StartResult × Control :=
  match o.spawn with
  | .error exc =>
    (.error { error := "Failed to spawn agent process: ".toList ++ exc },
      if o.orphanFails then c else finalizeOrphanedRun c runId o.now)
  | .ok pid =>
    let c := if o.pidFails then c else updateTaskRunPid c runId pid
    (.started pid runId, c.register { runId := runId, issue := req.issue })

/-- The second part of `start_agent` inside the lock: from the worktree to the registered agent. -/
def launchStart (o : StartOutside) (req : StartRequest) (c : Control) : StartResult × Control :=
  match placeStart o req with
  | some result => (result, c)
  | none =>
    if o.createFails then (.error { error := "Failed to create task run record".toList }, c)
    else
      let created := createStart o req c
      if o.environmentRaises then (.raised, created.2)
      else spawnStart o req created.1 created.2

/-- `start_agent`. -/
def startAgent (o : StartOutside) (req : StartRequest) (c : Control) : StartResult × Control :=
  if o.prepareRaises then (.raised, c)
  else
    match prepareStart o req c with
    | .error e => (.error e, c)
    | .ok req =>
      match admitStart o req c with
      | (some e, c) => (.error e, c)
      | (none, c) => launchStart o req c

end Dashboard

/-!
# Starting a command

`start_command` of `sova/dashboard/services/agent_lifecycle.py`: a command of the command line tool is started
as an agent of the pool. It shares its checks with `start_agent`, but it cannot be forced, it has no check of
the suitability or of the budget, and it takes the number of its issue from its arguments as it is.
-/

namespace Dashboard

/-- The arguments of a command: `pr` when it is a number, and the text of `issue`. -/
structure CommandRequest where
  command : Text
  pr : Option Int := none
  issue : Text := []
  deriving DecidableEq

/-- What the calls of one start of a command answer. -/
structure CommandOutside where
  now : Nat
  -- `_resolve_issue_from_pr`
  issueFromPr : Option IssueRef := none
  -- `check_memory_pressure`, `check_network_connectivity` and `check_stale_command`
  memoryBlock : Option AgentError := none
  networkBlock : Option AgentError := none
  staleBlock : Option AgentError := none
  -- a call before the lock raises
  prepareRaises : Bool := false
  -- `_check_issue_conflict`
  kill : Int → Signalled
  conflictFails : Bool := false
  -- `_resolve_issue_worktree`, and `check_stale_command` for the worktree
  worktree : WorktreeAnswer := .worktree
  staleBranchBlock : Option AgentError := none
  -- the head of the worktree, the prompt or the environment
  setupRaises : Bool := false
  -- `_create_task_run`
  createFails : Bool := false
  environmentRaises : Bool := false
  -- the process, or the text of the exception
  spawn : Except Text Int
  orphanFails : Bool := false
  pidFails : Bool := false

/-- A command with the pull request and the issue that it is for. -/
structure CommandStart where
  command : Text
  prNumber : Option Int
  issue : Text
  deriving DecidableEq

/-- `_resolve_command_context`. -/
def resolveCommandContext (o : CommandOutside) (req : CommandRequest) : CommandStart :=
  let issue := Text.strip req.issue
  { command := req.command
    prNumber := req.pr
    issue := if issue.isEmpty && req.pr.isSome then (o.issueFromPr.map IssueRef.digits).getD [] else issue }

/-- `start_command` before the lock of the pool. -/
def prepareCommand (o : CommandOutside) (req : CommandRequest) : Except AgentError CommandStart :=
  match (o.memoryBlock.or o.networkBlock).or o.staleBlock with
  | some e => .error e
  | none => .ok (resolveCommandContext o req)

/-- The first part of `start_command` inside the lock. -/
def admitCommand (o : CommandOutside) (start : CommandStart) (c : Control) : Option AgentError × Control :=
  if c.pool.agents.length ≥ c.pool.maxConcurrent then
    (some
      { error := "Maximum concurrent agents reached (".toList ++ Text.ofInt c.pool.maxConcurrent ++
          ")".toList
        running := some c.pool.agents.length }, c)
  else if start.issue.isEmpty then (none, c)
  else checkIssueConflict o.kill o.conflictFails o.now start.issue false c

/-- `if pr_number`. -/
def truthyPr (prNumber : Option Int) : Bool := prNumber.any (· != 0)

/-- The worktree and the command in it: why the start ends here, if it does. -/
def placeCommand (o : CommandOutside) (start : CommandStart) : Option StartResult :=
  match o.worktree with
  | .raised => some .raised
  | .projectDir =>
    if truthyPr start.prNumber then
      some (.error
        { error := "Cannot start PR-based command: worktree isolation failed for PR ".toList ++
            Text.ofInt (start.prNumber.getD 0) })
    else none
  | .worktree => o.staleBranchBlock.map StartResult.error

/-- The process of a command that has its row. -/
def spawnCommand (o : CommandOutside) (start : CommandStart) (runId : Nat) (c : Control) :
    StartResult × Control :=
  match o.spawn with
  | .error exc =>
    (.error { error := "Failed to spawn runtime: ".toList ++ exc },
      if o.orphanFails then c else finalizeOrphanedRun c runId o.now)
  | .ok pid =>
    let c := if o.pidFails then c else updateTaskRunPid c runId pid
    (.started pid runId, c.register { runId := runId, issue := start.issue })

/-- The second part of `start_command` inside the lock. -/
def launchCommand (o : CommandOutside) (start : CommandStart) (c : Control) : StartResult × Control :=
  match placeCommand o start with
  | some result => (result, c)
  | none =>
    if o.setupRaises then (.raised, c)
    else if o.createFails then (.error { error := "Failed to create task run record".toList }, c)
    else
      let created := createTaskRun c (if start.issue.isEmpty then none else some start.issue)
        ("command:".toList ++ start.command) (start.prNumber.map Int.toNat) none o.now
      if o.environmentRaises then (.raised, created.2)
      else spawnCommand o start created.1 created.2

end Dashboard

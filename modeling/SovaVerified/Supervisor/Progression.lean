import Mathlib.Data.Prod.Lex
import SovaVerified.Adapters.GitHub
import SovaVerified.Dashboard.WorkState
import SovaVerified.Precedence.Walk
import SovaVerified.Regex.Regex
import SovaVerified.Supervisor.DependencyGraph
import SovaVerified.Supervisor.Suitability
import SovaVerified.Text.Reading

/-!
# The progression engine

`TaskProgressionEngine.evaluate_all` of `sova/supervisor/progression.py`: the queued issues are visited in
order, the state of each gives a candidate action, and gates block it or let it through. What the gates, the
tracker and GitHub answer is an input: one record for the whole cycle and one for each visit of an issue.

The parameters that `evaluate_all` precomputes are always given here; the variants of the gates that
`evaluate_task` computes on demand are left out, and so is the staleness watchdog, which only reports.
-/

namespace Supervisor

open Adapters Dashboard

/-! ## Actions and decisions -/

/-- `ProgressionAction`. -/
inductive ProgressionAction where
  | spawnTriage
  | spawnResearcher
  | spawnDeveloper
  | spawnIntegrate
  | spawnAddressReview
  | spawnReviewer
  | spawnAddressPr
  | wait
  | blocked
  | spawnRebase
  | checkpointNeeded
  | resetStaleState
  | repairToInReview
  deriving DecidableEq, Repr

def ProgressionAction.value : ProgressionAction → Text
  | .spawnTriage => "spawn_triage".toList
  | .spawnResearcher => "spawn_researcher".toList
  | .spawnDeveloper => "spawn_developer".toList
  | .spawnIntegrate => "spawn_integrate".toList
  | .spawnAddressReview => "spawn_address_review".toList
  | .spawnReviewer => "spawn_reviewer".toList
  | .spawnAddressPr => "spawn_address_pr".toList
  | .wait => "wait".toList
  | .blocked => "blocked".toList
  | .spawnRebase => "spawn_rebase".toList
  | .checkpointNeeded => "checkpoint_needed".toList
  | .resetStaleState => "reset_stale_state".toList
  | .repairToInReview => "repair_to_in_review".toList

/-- Not in `NON_ACTIONABLE_ACTIONS`. -/
def ProgressionAction.isActionable : ProgressionAction → Bool
  | .wait | .blocked | .checkpointNeeded => false
  | _ => true

/-- The actions that `_update_remaining_capacity` counts: each starts an agent. -/
def ProgressionAction.consumesSlot : ProgressionAction → Bool
  | .wait | .blocked | .checkpointNeeded | .spawnRebase | .resetStaleState | .repairToInReview => false
  | _ => true

/-- `_ACTION_TO_ROLE`. -/
def actionToRole : ProgressionAction → Option Text
  | .spawnTriage => some "triage".toList
  | .spawnResearcher => some "researcher".toList
  | .spawnDeveloper => some "developer".toList
  | .spawnIntegrate => some "command:integrate-pr".toList
  | .spawnAddressReview => some "developer".toList
  | .spawnReviewer => some "reviewer".toList
  | .spawnAddressPr => some "command:address-pr".toList
  | _ => none

/-- `_ACTION_TO_COMMAND`. -/
def actionToCommand : ProgressionAction → Option Text
  | .spawnIntegrate => some "integrate-pr".toList
  | .spawnAddressPr => some "address-pr".toList
  | _ => none

structure BlockReason where
  gate : Text
  detail : Text
  deriving DecidableEq

structure ProgressionDecision where
  issueNumber : Int
  action : ProgressionAction
  role : Option Text := none
  reason : Text := []
  blockedBy : List BlockReason := []
  prNumber : Option Int := none
  deriving DecidableEq

/-! ## Inputs -/

/-- The part of the configuration and of the adapter that the engine reads. -/
structure ProgressionConfig where
  autoTriage : Bool := false
  autoResearch : Bool := false
  autoDevelop : Bool := false
  autoAddressReview : Bool := false
  autoReview : Bool := false
  autoIntegrate : Bool := false
  autoRebase : Bool := false
  respectDependencies : Bool := true
  fileOverlapGate : Bool := false
  taskQueue : List Int := []
  maxParallelAgents : Int := 2
  externalReviewsEnabled : Bool := false
  maxAddressReviewCycles : Int := 0
  /-- The adapter has a repository. -/
  hasRepo : Bool := true
  deriving DecidableEq

/-- What the engine learns once in a cycle. -/
structure CycleOutcomes where
  connectivity : Option BlockReason := none
  rateLimit : Option BlockReason := none
  memory : Option BlockReason := none
  quota : Option BlockReason := none
  ciBudget : Option BlockReason := none
  /-- The branches in flight could be fetched. -/
  fileSets : Bool := false
  /-- `get_alive_count`; `none` when the query failed. -/
  aliveCount : Option Nat := some 0
  deriving DecidableEq

/-- `find_pr_for_issue_checked`. -/
inductive PRLookup where
  | raised
  | noPr
  | found (number : Int)
  deriving DecidableEq

/-- What the engine learns at one visit of an issue. -/
structure VisitOutcomes where
  /-- The check of the rate limit in the loop. -/
  rateLimit : Option BlockReason := none
  alreadyRunning : Option BlockReason := none
  checkedPr : PRLookup := .noPr
  /-- `_find_pr_for_issue`. -/
  pr : Option Int := none
  /-- `resolve_sova_verdict`; `none` when it raises. -/
  verdict : Option SovaVerdict := none
  /-- `_fetch_enriched_pr`. -/
  enrichedPr : Option PRData := none
  dependency : Option BlockReason := none
  humanInvolvement : Option BlockReason := none
  budget : Option BlockReason := none
  ownership : Option BlockReason := none
  /-- The pull request that the ownership gate came across. -/
  discoveredPr : Option Int := none
  repeatedFailures : Option BlockReason := none
  staleCommands : Option BlockReason := none
  reviewCompleted : Option BlockReason := none
  fileOverlap : Option BlockReason := none
  deriving DecidableEq

/-! ## One issue -/

/-- `TaskState.value`. -/
def stateValue : TaskState → Text
  | .backlog => "backlog".toList
  | .triaged => "triaged".toList
  | .researched => "researched".toList
  | .inProgress => "in_progress".toList
  | .inReview => "in_review".toList
  | .onQa => "on_qa".toList
  | .done => "done".toList
  | .needsSpec => "needs_spec".toList
  | .humanOnly => "human_only".toList

/-- `_determine_transition`. -/
def determineTransition (cfg : ProgressionConfig) : TaskState → Option ProgressionAction
  | .triaged => some (if cfg.autoResearch then .spawnResearcher else .checkpointNeeded)
  | .researched => some (if cfg.autoDevelop then .spawnDeveloper else .checkpointNeeded)
  | .inReview =>
    some (if cfg.autoIntegrate || cfg.autoAddressReview || cfg.autoReview then .spawnIntegrate
      else .checkpointNeeded)
  | .backlog => some (if cfg.autoTriage then .spawnTriage else .checkpointNeeded)
  | .inProgress => some .resetStaleState
  | _ => none

/-- `_ACTION_ID_TO_PROGRESSION`, with the flag looked up. -/
def actionIdToProgression (cfg : ProgressionConfig) : ActionId → ProgressionAction × Bool
  | .integrate => (.spawnIntegrate, cfg.autoIntegrate)
  | .addressReview => (.spawnAddressReview, cfg.autoAddressReview)
  | .addressPr => (.spawnAddressPr, cfg.autoAddressReview)
  | .reviewPr => (.spawnReviewer, cfg.autoReview)
  | .rebase => (.spawnRebase, cfg.autoRebase)

/-- `_refine_in_review_action`. -/
def refineInReviewAction (cfg : ProgressionConfig) (o : VisitOutcomes) : ProgressionAction × Option Int :=
  match (if cfg.hasRepo then o.pr else none) with
  | none => (.wait, none)
  | some pr =>
    match o.verdict, o.enrichedPr with
    | some verdict, some enriched =>
      let facts := buildPRFacts enriched (some verdict) cfg.externalReviewsEnabled cfg.maxAddressReviewCycles
      match (resolveNextAction facts).actionId with
      | none => (.checkpointNeeded, some pr)
      | some actionId =>
        let mapped := actionIdToProgression cfg actionId
        (if mapped.2 then mapped.1 else .checkpointNeeded, some pr)
    | _, _ => (.checkpointNeeded, some pr)

/-- The gates of `evaluate_all` as one visit sees them: the slots and the quota of the cycle, with what the
decisions before it took. -/
structure EffectiveGates where
  quota : Option BlockReason
  slots : Option BlockReason

/-- `_resolve_global_gates`. -/
def resolveGlobalGates (candidate : ProgressionAction) (cycle : CycleOutcomes) (effective : EffectiveGates) :
    List BlockReason :=
  let isDeveloper := candidate == .spawnDeveloper
  cycle.rateLimit.toList ++ (if isDeveloper then effective.quota.toList else []) ++
    (if isDeveloper then cycle.ciBudget.toList else []) ++ effective.slots.toList ++ cycle.memory.toList

/-- `_collect_gate_blockers`, without the discovered pull request. -/
def collectGateBlockers (cfg : ProgressionConfig) (candidate : ProgressionAction) (cycle : CycleOutcomes)
    (effective : EffectiveGates) (o : VisitOutcomes) : List BlockReason :=
  match cycle.rateLimit with
  | some block => [block]
  | none =>
    (if cfg.respectDependencies then o.dependency.toList else []) ++ o.humanInvolvement.toList ++
      o.alreadyRunning.toList ++ o.budget.toList ++ o.ownership.toList ++
      (if candidate = .spawnResearcher ∨ candidate = .spawnDeveloper then o.repeatedFailures.toList else []) ++
      (if (actionToCommand candidate).isSome then o.staleCommands.toList else []) ++
      (if candidate = .spawnIntegrate then o.reviewCompleted.toList else []) ++
      (if cfg.fileOverlapGate && cycle.fileSets then o.fileOverlap.toList else []) ++
      resolveGlobalGates candidate cycle effective

/-- The part of `_evaluate_single` for an issue in progress: a live agent is left alone, an open pull request is
carried forward, and anything else is reset. -/
def evaluateInProgress (cfg : ProgressionConfig) (issue : Int) (cycle : CycleOutcomes) (o : VisitOutcomes) :
    ProgressionDecision :=
  let number := Text.ofInt issue
  let reset : ProgressionDecision :=
    { issueNumber := issue
      action := .resetStaleState
      reason := "Stale IN_PROGRESS: no agent running for #".toList ++ number }
  match o.alreadyRunning with
  | some alive =>
    { issueNumber := issue
      action := .wait
      reason := "Agent still active for IN_PROGRESS #".toList ++ number ++ ": ".toList ++ alive.detail }
  | none =>
    match cycle.rateLimit with
    | some block =>
      { issueNumber := issue
        action := .blocked
        reason := "Rate limited: ".toList ++ block.detail
        blockedBy := [block] }
    | none =>
      if cfg.hasRepo then
        match o.checkedPr with
        | .raised =>
          { issueNumber := issue
            action := .wait
            reason := "Could not confirm PR status for IN_PROGRESS #".toList ++ number }
        | .found pr =>
          { issueNumber := issue
            action := .repairToInReview
            reason := "IN_PROGRESS #".toList ++ number ++ " has open PR #".toList ++ Text.ofInt pr ++
              ": repairing to IN_REVIEW".toList
            prNumber := some pr }
        | .noPr => reset
      else reset

/-- The end of `_evaluate_single`: the gates for a candidate. -/
def evaluateGated (cfg : ProgressionConfig) (issue : Int) (candidate : ProgressionAction) (refinedPr : Option Int)
    (cycle : CycleOutcomes) (effective : EffectiveGates) (o : VisitOutcomes) : ProgressionDecision :=
  let blockers := collectGateBlockers cfg candidate cycle effective o
  if blockers ≠ [] then
    { issueNumber := issue
      action := .blocked
      role := actionToRole candidate
      reason := "Blocked: ".toList ++ Text.join "; ".toList (blockers.map BlockReason.detail)
      blockedBy := blockers }
  else
    { issueNumber := issue
      action := candidate
      role := actionToRole candidate
      reason := "Ready to ".toList ++ candidate.value
      prNumber := refinedPr.or o.discoveredPr }

def checkpointDecision (issue : Int) (state : TaskState) : ProgressionDecision where
  issueNumber := issue
  action := .checkpointNeeded
  reason := "Automation disabled for state '".toList ++ stateValue state ++ "': requires human approval".toList

/-- The part of `_evaluate_single` for an issue in review. -/
def evaluateInReview (cfg : ProgressionConfig) (issue : Int) (cycle : CycleOutcomes) (effective : EffectiveGates)
    (o : VisitOutcomes) : ProgressionDecision :=
  let refined := refineInReviewAction cfg o
  if refined.1 = .wait then
    { issueNumber := issue
      action := .wait
      reason := "No PR found for IN_REVIEW issue".toList }
  else if refined.1 = .checkpointNeeded then checkpointDecision issue .inReview
  else evaluateGated cfg issue refined.1 refined.2 cycle effective o

/-- `_evaluate_single`. -/
def evaluateSingle (cfg : ProgressionConfig) (issue : Int) (state : TaskState) (cycle : CycleOutcomes)
    (effective : EffectiveGates) (o : VisitOutcomes) : ProgressionDecision :=
  match determineTransition cfg state with
  | none =>
    { issueNumber := issue
      action := .wait
      reason := "No transition available from state '".toList ++ stateValue state ++ "'".toList }
  | some candidate =>
    if candidate = .checkpointNeeded then checkpointDecision issue state
    else if candidate = .resetStaleState then evaluateInProgress cfg issue cycle o
    else if state = .inReview ∧ candidate = .spawnIntegrate then evaluateInReview cfg issue cycle effective o
    else evaluateGated cfg issue candidate none cycle effective o

/-! ## The cycle -/

/-- `_resolve_task_ids`, with the task of each issue. -/
def resolveTasks (cfg : ProgressionConfig) (graph : DependencyGraph) : List (Int × Task) :=
  cfg.taskQueue.filterMap fun issue => (graph.getTask issue).map fun task => (issue, task)

/-- `_effective_gate`. -/
def effectiveGate (globalBlocker : Option BlockReason) (exhausted : Bool) (gate detailPrefix : String) :
    Option BlockReason :=
  match globalBlocker with
  | some block => some block
  | none =>
    if exhausted then
      some ⟨gate.toList, detailPrefix.toList ++ " (".toList ++ gate.toList ++ " capacity exhausted)".toList⟩
    else none

/-- `_update_remaining_capacity`. -/
def updateRemainingCapacity (decision : ProgressionDecision) (remainingSlots : Int) (remainingQuota : Bool) :
    Int × Bool :=
  if decision.action.consumesSlot then
    (remainingSlots - 1, if decision.action = .spawnDeveloper then false else remainingQuota)
  else (remainingSlots, remainingQuota)

/-- `alive_count`: an unknown occupancy never blocks. -/
def CycleOutcomes.alive (cycle : CycleOutcomes) : Int := cycle.aliveCount.getD 0

/-- `global_slots`. -/
def globalSlots (cfg : ProgressionConfig) (cycle : CycleOutcomes) : Option BlockReason :=
  if cycle.alive ≥ cfg.maxParallelAgents then
    some ⟨"slots".toList, "All agent slots occupied (".toList ++ Text.ofInt cycle.alive ++ "/".toList ++
      Text.ofInt cfg.maxParallelAgents ++ ")".toList⟩
  else none

/-- The gates of a visit. -/
def effectiveGates (cfg : ProgressionConfig) (cycle : CycleOutcomes) (remainingSlots : Int) (remainingQuota : Bool) :
    EffectiveGates where
  quota := effectiveGate cycle.quota (!remainingQuota) "quota" "CodeRabbit quota would be exhausted"
  slots := effectiveGate (globalSlots cfg cycle) (remainingSlots ≤ 0) "slots" "All agent slots would be occupied"

/-- The loop of `evaluate_all`. `visits` gives the outcomes of the gates at the visit of that number. -/
def evaluateTasks (cfg : ProgressionConfig) (cycle : CycleOutcomes) (visits : Nat → Int → VisitOutcomes) :
    Nat → Int → Bool → List (Int × Task) → List ProgressionDecision
  | _, _, _, [] => []
  | visit, remainingSlots, remainingQuota, (issue, task) :: rest =>
    let o := visits visit issue
    if o.rateLimit.isSome then []
    else
      let decision := evaluateSingle cfg issue task.state cycle
        (effectiveGates cfg cycle remainingSlots remainingQuota) o
      let remaining := updateRemainingCapacity decision remainingSlots remainingQuota
      decision :: evaluateTasks cfg cycle visits (visit + 1) remaining.1 remaining.2 rest

/-- `PlannedAction`, as `apply_plan` reads it. -/
structure PlannedAction where
  action : Text
  issue : Int
  deriving DecidableEq

/-- `apply_plan`. -/
def applyPlan (decisions : List ProgressionDecision) (actions : List PlannedAction) : List ProgressionDecision :=
  let actionable := decisions.filter fun d => d.action.isActionable
  if actions ≠ [] ∧ actionable ≠ [] ∧ (actions.all fun a => actionable.all fun d => d.issueNumber ≠ a.issue) then
    decisions
  else
    decisions.map fun d =>
      if !d.action.isActionable then d
      else if ⟨d.action.value, d.issueNumber⟩ ∈ actions then d
      else
        { issueNumber := d.issueNumber
          action := .wait
          reason := "not in LLM plan (deterministic: ".toList ++ d.action.value ++ ")".toList
          blockedBy := d.blockedBy
          prNumber := d.prNumber }

/-- `evaluate_all`; the graph is `none` when it could not be built. -/
def evaluateAll (cfg : ProgressionConfig) (graph : Option DependencyGraph) (cycle : CycleOutcomes)
    (visits : Nat → Int → VisitOutcomes) (plan : Option (List PlannedAction)) : List ProgressionDecision :=
  if cycle.connectivity.isSome ∨ cycle.rateLimit.isSome then []
  else
    match graph with
    | none => []
    | some graph =>
      let decisions := evaluateTasks cfg cycle visits 0 (cfg.maxParallelAgents - cycle.alive)
        (!cycle.quota.isSome) (resolveTasks cfg graph)
      match plan with
      | none => decisions
      | some actions => applyPlan decisions actions

end Supervisor

/-!
# Ranking of the next tasks

The second half of `sova/supervisor/suitability.py`, with `sova/adapters/milestone.py`: the issues that
could be picked up next, and the ranking of the autonomous ones among them by priority, by how many issues
they unblock, by the phase of their milestone and by their number.
-/

namespace Supervisor

open Adapters

/-- A task with the title of its milestone, which is empty without one. -/
structure MilestoneTask extends Task where
  milestone : Text := []
  deriving DecidableEq

/-! ## Phases -/

/-- `UNPHASED`. -/
def unphased : Nat := 99

/-- `_PHASE_RE`. -/
def phaseRe : Regex :=
  .seq (.alt (.seq (Regex.lit "phase") Regex.spaces) (Regex.lit "p")) (.cap 1 (.rep 1 none Text.isDecimal))

def extractPhaseOrder (milestone : Text) : Nat :=
  if milestone = [] then unphased
  else
    match phaseRe.matchPrefix (Text.strip milestone) with
    | some m => ((m.get 1).map Text.toNat).getD unphased
    | none => unphased

/-! ## The candidates -/

/-- `_NEXT_TASK_STATES`. -/
def nextTaskStates : TaskState → Bool
  | .triaged | .researched => true
  | _ => false

structure Candidate where
  issue : Int
  task : MilestoneTask
  suitability : Suitability

/-- The turn of `_candidates` for a task. -/
def candidate (g : BuiltGraph) (running openPrs : List Int) (task : MilestoneTask) :
    Option Candidate :=
  match task.number with
  | none => none
  | some issue =>
    if !nextTaskStates task.state || issue ∈ running || issue ∈ openPrs then none
    else some { issue, task, suitability := g.suitability task.toTask }

/-- `_candidates`. -/
def candidates (tasks : List MilestoneTask) (g : BuiltGraph) (running openPrs : List Int) :
    List Candidate :=
  tasks.filterMap (candidate g running openPrs)

/-! ## The ranking -/

structure RankedTask where
  task : MilestoneTask
  rank : Nat
  unblocks : Nat
  phase : Nat
  mode : SuitabilityMode
  why : List Text
  deriving DecidableEq

/-- The test of `_unblock_count`: the graph knows the dependent, and it is neither done nor an epic. -/
def BuiltGraph.isOpenWork (g : BuiltGraph) (dependent : Int) : Bool :=
  match g.getTask dependent with
  | none => false
  | some task => !(task.state == .done || isEpic task.labels)

/-- The walk of `_unblock_count`. A dependent is one of the tasks, so the walk ends within as many turns as
there are tasks and one for the issue. -/
def BuiltGraph.unblockWalk (g : BuiltGraph) (issue : Int) : Walk.State Int :=
  Walk.go g.rdeps g.isOpenWork (g.tasks.length + 1) (Walk.start issue)

/-- `_unblock_count`. -/
def BuiltGraph.unblockCount (g : BuiltGraph) (issue : Int) : Nat := (g.unblockWalk issue).count

/-- `_why`. -/
def why (task : MilestoneTask) (unblocks phase : Nat) : List Text :=
  ["priority:".toList ++ task.priority.value] ++
    (if 0 < unblocks then ["unblocks:".toList ++ Text.ofInt unblocks] else []) ++
    (if phase ≠ unphased then ["phase:".toList ++ Text.ofInt phase] else []) ++
    ["state:".toList ++ stateValue task.state]

/-- The turn of `_rank_candidates` for a candidate. -/
def unranked (g : BuiltGraph) (c : Candidate) : Option RankedTask :=
  if c.suitability.mode ≠ .autonomous then none
  else
    let unblocks := g.unblockCount c.issue
    let phase := extractPhaseOrder c.task.milestone
    some
      { task := c.task
        rank := 0
        unblocks
        phase
        mode := c.suitability.mode
        why := why c.task unblocks phase }

/-- The key that is sorted by. Every ranked task has a number. -/
def RankedTask.key (r : RankedTask) : Nat ×ₗ Int ×ₗ Nat ×ₗ Int :=
  toLex (r.task.priority.rank, toLex (-(r.unblocks : Int), toLex (r.phase, r.task.number.getD 0)))

/-- `ranked[:limit]`: a negative limit counts from the end. -/
def upTo {α : Type} (ranked : List α) (limit : Int) : List α :=
  if 0 ≤ limit then ranked.take limit.toNat else ranked.take (ranked.length - limit.natAbs)

/-- `enumerate(unranked, start=1)`. -/
def withRanks (sorted : List RankedTask) : List RankedTask :=
  sorted.mapIdx fun i r => { r with rank := i + 1 }

/-- `_rank_candidates`. -/
def rankCandidates (candidates : List Candidate) (g : BuiltGraph) (limit : Option Int) : List RankedTask :=
  let sorted := (candidates.filterMap (unranked g)).insertionSort fun a b => a.key ≤ b.key
  let ranked := withRanks sorted
  match limit with
  | none => ranked
  | some limit => upTo ranked limit

/-- `_count_unclassified`. -/
def countUnclassified (candidates : List Candidate) : Nat :=
  candidates.countP fun c => c.suitability.mode == .unclassified

def rankNextTasks (tasks : List MilestoneTask) (g : BuiltGraph) (running openPrs : List Int)
    (limit : Option Int) : List RankedTask :=
  rankCandidates (candidates tasks g running openPrs) g limit

def rankAndCountNextTasks (tasks : List MilestoneTask) (g : BuiltGraph) (running openPrs : List Int)
    (limit : Option Int) : List RankedTask × Nat :=
  let candidates := candidates tasks g running openPrs
  (rankCandidates candidates g limit, countUnclassified candidates)

end Supervisor

import Mathlib.Data.List.Sort
import Mathlib.Logic.Function.Basic
import SovaVerified.Adapters.Task
import SovaVerified.Assoc.Assoc
import SovaVerified.Generations.Generations
import SovaVerified.Runs.Runs

/-!
# Suitability of an issue for autonomous work

`sova/supervisor/labels.py` and the classifier of `sova/supervisor/suitability.py`: tracker labels, a
local assessment and the dependency graph decide in which mode an issue may be picked up.
-/

namespace Supervisor

open Adapters

/-! ## Labels -/

/-- A label of this name is present, whatever its case and the white space around it. -/
def hasLabel (name : String) (labels : List Text) : Bool :=
  labels.any fun label => Text.strip (Text.lower label) == name.toList

def isEpic : List Text → Bool := hasLabel "type: epic"

def isHumanOnly : List Text → Bool := hasLabel "agent:human-only"

def isInteractiveRecommended : List Text → Bool := hasLabel "agent:interactive-recommended"

def isOnHold : List Text → Bool := hasLabel "agent:on-hold"

def isReady : List Text → Bool := hasLabel "agent:ready"

def pastPreDevelopmentLabels : List String :=
  ["agent:triaged", "agent:researched", "agent:in-progress", "agent:in-review", "agent:on-qa"]

def isPastPreDevelopment (labels : List Text) : Bool :=
  pastPreDevelopmentLabels.any fun name => hasLabel name labels

/-- Whether a local record could still change the classification of an issue with these labels. -/
def localAssessmentApplies (labels : List Text) : Bool :=
  !isReady labels && !isPastPreDevelopment labels && !isHumanOnly labels &&
    !isInteractiveRecommended labels && !isOnHold labels && !isEpic labels

/-! ## Dependencies -/

/-- A built `DependencyGraph`: the known tasks and the direct dependencies. -/
structure DependencyGraph where
  tasks : Assoc Int Task
  deps : Assoc Int (List Int)
  deriving DecidableEq

def DependencyGraph.getTask (graph : DependencyGraph) (issue : Int) : Option Task :=
  Assoc.get graph.tasks issue

def DependencyGraph.hasTask (graph : DependencyGraph) (issue : Int) : Bool :=
  (graph.getTask issue).isSome

def DependencyGraph.getDependencies (graph : DependencyGraph) (issue : Int) : List Int :=
  (Assoc.get graph.deps issue).getD []

/-- A dependency blocks unless it is an epic or done; one that the graph does not know blocks. -/
def DependencyGraph.blocks (graph : DependencyGraph) (dep : Int) : Bool :=
  match graph.getTask dep with
  | none => true
  | some depTask => !isEpic depTask.labels && depTask.state != .done

/-- `none` when there is no dependency data for the issue. -/
def unsatisfiedDependencies (issue : Int) (graph : Option DependencyGraph) : Option (List Int) :=
  match graph with
  | none => none
  | some graph =>
    if graph.hasTask issue then
      some (((graph.getDependencies issue).eraseDups.insertionSort (· ≤ ·)).filter graph.blocks)
    else none

/-! ## The classifier -/

inductive SuitabilityMode where
  | epic
  | human
  | blocked
  | interactive
  | autonomous
  | unclassified
  deriving DecidableEq, Repr

/-- A `reasons` entry: its source with its value. -/
inductive Reason where
  | label (value : String)
  | localAssessment (value : String)
  | graphUnavailable
  | dependency (issue : Int)
  deriving DecidableEq

structure Suitability where
  mode : SuitabilityMode
  reasons : List Reason := []
  blockedBy : List Int := []
  deriving DecidableEq

/-- The mode is in `AGENT_ELIGIBLE_MODES`. -/
def SuitabilityMode.agentEligible : SuitabilityMode → Bool
  | .autonomous | .unclassified => true
  | _ => false

/-- `_unsatisfied_dependencies` of a task: one without a number is no node of the graph. -/
def taskDependencies (task : Task) (graph : Option DependencyGraph) : Option (List Int) :=
  task.number.bind fun tid => unsatisfiedDependencies tid graph

/-- What the dependency branch of `assess_suitability` reports, when it decides. -/
def dependencyBlock (task : Task) (graph : Option DependencyGraph) : Option Suitability :=
  match taskDependencies task graph with
  | none => some { mode := .blocked, reasons := [.graphUnavailable] }
  | some [] => none
  | some blockedBy => some { mode := .blocked, reasons := blockedBy.map .dependency, blockedBy }

/-- Precedence: epic, human, blocked, interactive, autonomous, unclassified. -/
def assessSuitability (task : Task) (graph : Option DependencyGraph) (localAssessment : Option Text)
    (considerDependencies : Bool) : Suitability :=
  let labels := task.labels
  let readyLabel := isReady labels
  if isEpic labels then { mode := .epic, reasons := [.label "type: epic"] }
  else if isHumanOnly labels then { mode := .human, reasons := [.label "agent:human-only"] }
  else if !readyLabel && localAssessment == some "human_only".toList then
    { mode := .human, reasons := [.localAssessment "human_only"] }
  else if isOnHold labels then { mode := .blocked, reasons := [.label "agent:on-hold"] }
  else
    match if considerDependencies then dependencyBlock task graph else none with
    | some blocked => blocked
    | none =>
      if isInteractiveRecommended labels then
        { mode := .interactive, reasons := [.label "agent:interactive-recommended"] }
      else if !readyLabel && localAssessment == some "interactive_recommended".toList then
        { mode := .interactive, reasons := [.localAssessment "interactive_recommended"] }
      else if readyLabel then { mode := .autonomous, reasons := [.label "agent:ready"] }
      else if localAssessment == some "ready".toList then
        { mode := .autonomous, reasons := [.localAssessment "ready"] }
      else { mode := .unclassified }

end Supervisor

/-!
# The cached dependency graph

`build_dependency_graph` and `invalidate_graph_cache` of `sova/supervisor/dependency_graph.py` on one event
loop. Between its lookup and its end a build awaits a number of listings and touches nothing of the module,
so a step of the system is the start of a build, its end, or an invalidation.
-/

namespace Supervisor

open Generations

/-- A value of `_graph_cache`, and the number of invalidations when the build behind it began. The code keeps
no such number, and no step depends on it. -/
structure GraphEntry where
  storedAt : Int
  graph : DependencyGraph
  began : Nat
  deriving DecidableEq

/-- The state of the module. `invalidations` lists the arguments of the invalidations so far. -/
structure GraphCache where
  /-- `_graph_cache`. -/
  cache : Text → Option GraphEntry := fun _ => none
  /-- `_graph_cache_generation`. -/
  generation : Text → Option Nat := fun _ => none
  /-- The builds on their way that may store what they come back with. -/
  flights : List (Fetch Text Nat) := []
  invalidations : List Text := []

/-- `_GRAPH_CACHE_TTL`, in microseconds. -/
def graphCacheTtl : Int := 180000000

/-- What a build reads of its adapter, empty where the adapter has no such attribute. -/
structure GraphAdapter where
  repo : Text
  projectKey : Text
  deriving DecidableEq

/-- `repo_key`. -/
def GraphAdapter.key (adapter : GraphAdapter) : Text :=
  if adapter.repo.isEmpty then adapter.projectKey else adapter.repo

/-- `cacheable`. -/
def GraphAdapter.cacheable (adapter : GraphAdapter) (milestone : Text) : Bool :=
  milestone.isEmpty && !adapter.key.isEmpty

/-- The invalidation covers the repository: it names it, or names none. -/
def repoCovers (repo key : Text) : Prop := repo = [] ∨ repo = key

instance (repo key : Text) : Decidable (repoCovers repo key) :=
  inferInstanceAs (Decidable (repo = [] ∨ repo = key))

namespace GraphCache

/-- The cached graph that a build returns at the time `now`. -/
def lookup (s : GraphCache) (key : Text) (now : Int) : Option GraphEntry :=
  (s.cache key).filter fun e => now - e.storedAt < graphCacheTtl

/-- `_graph_cache_generation.setdefault(repo_key, 0)`. -/
def register (s : GraphCache) (key : Text) : GraphCache :=
  { s with generation := Function.update s.generation key (some ((s.generation key).getD 0)) }

/-- `build_dependency_graph` up to its first `await`, with its result when it does not get there. -/
def startBuild (s : GraphCache) (adapter : GraphAdapter) (milestone : Text) (now : Int) :
    Option DependencyGraph × GraphCache :=
  if adapter.cacheable milestone then
    let s := s.register adapter.key
    match s.lookup adapter.key now with
    | some e => (some e.graph, s)
    | none =>
      (none, { s with
        flights := ⟨adapter.key, (s.generation adapter.key).getD 0, s.invalidations.length⟩ :: s.flights })
  else (none, s)

/-- The end of a build; `none` when one of its listings raised. -/
def finishBuild (s : GraphCache) (fetch : Fetch Text Nat) (now : Int) : Option DependencyGraph → GraphCache
  | none => s
  | some graph =>
    if (s.generation fetch.key).getD 0 = fetch.generation then
      { s with cache := Function.update s.cache fetch.key (some ⟨now, graph, fetch.began⟩) }
    else s

/-- The keys that an invalidation visits. -/
def visited (s : GraphCache) (repo key : Text) : Bool :=
  if repo.isEmpty then (s.cache key).isSome || (s.generation key).isSome else key == repo

/-- `invalidate_graph_cache`. -/
def invalidate (s : GraphCache) (repo : Text) : GraphCache :=
  { s with
    cache := fun key => if s.visited repo key then none else s.cache key
    generation := fun key => if s.visited repo key then some ((s.generation key).getD 0 + 1) else s.generation key
    invalidations := s.invalidations ++ [repo] }

end GraphCache

inductive GraphCacheAction where
  /-- A build starts, and runs up to its first `await`. -/
  | build (adapter : GraphAdapter) (milestone : Text) (now : Int)
  /-- A build runs to its end, with its graph or an error. -/
  | finished (fetch : Fetch Text Nat) (now : Int) (graph : Option DependencyGraph)
  /-- One repository, or all of them when the name is empty. -/
  | invalidate (repo : Text)

/-- One step of the system; `none` when the named build is not on its way. -/
def graphCacheStep (s : GraphCache) : GraphCacheAction → Option GraphCache
  | .build adapter milestone now => some (s.startBuild adapter milestone now).2
  | .finished fetch now graph =>
    if fetch ∈ s.flights then
      let s' := s.finishBuild fetch now graph
      some { s' with flights := s'.flights.erase fetch }
    else none
  | .invalidate repo => some (s.invalidate repo)

end Supervisor

import Mathlib.Algebra.Order.Ring.Rat
import SovaVerified.Assoc.Assoc
import SovaVerified.Exceptions.Exceptions
import SovaVerified.Precedence.Components
import SovaVerified.Precedence.Kahn
import SovaVerified.Review.Findings

/-!
# Workflow graphs

`sova/core/dag.py`: a workflow is a graph of commands. It is validated, its nodes are put in an order by
Kahn's algorithm, and they run one after the other; a node whose incoming edges do not hold is skipped.

The node ids are a set, and the order in which a set is gone through is none that the program chooses:
it is the argument `order`, which holds every id once. What a command comes to is the argument
`runCommand`. Labels, parameters, timings and the recorded steps are left out.
-/

namespace Dag

structure Node where
  id : Text
  command : Option Text := none
  deriving DecidableEq

/-- An edge. A key that it lacks is `none`. -/
structure Edge where
  source : Option Text
  target : Option Text
  condition : Option Text := none
  deriving DecidableEq

structure Graph where
  nodes : List Node
  edges : List Edge
  deriving DecidableEq

/-! ## Validation -/

/-- The edges between known nodes. -/
def Graph.links (g : Graph) (order : List Text) : List (Text × Text) :=
  g.edges.filterMap fun e =>
    match e.source, e.target with
    | some source, some target =>
      if source ∈ order ∧ target ∈ order then some (source, target) else none
    | _, _ => none

/-- `adj_undirected[node]`. -/
def neighbors (links : List (Text × Text)) (node : Text) : List Text :=
  ((links.filter (·.1 = node)).map Prod.snd ++ (links.filter (·.2 = node)).map Prod.fst).dedup

/-- `edge["source"], edge["target"]`. -/
def Edge.hasEnds (e : Edge) : Bool := e.source.isSome && e.target.isSome

/-- The nodes that Kahn's algorithm puts out. -/
def Graph.sorted (g : Graph) (order : List Text) : List Text :=
  Kahn.sort (Kahn.adjacency (g.links order)) (Kahn.inDegree (g.links order)) order

/-- `_topological_sort`: the ids in order, or the text of the `ValueError`. -/
def topologicalSort (g : Graph) (order : List Text) : Except PyException (Except Text (List Text)) :=
  if g.edges.all Edge.hasEnds then
    let result := g.sorted order
    if result.length ≠ order.length then
      .ok (.error ("DAG contains a cycle involving nodes: ".toList ++
        Text.join ", ".toList (Review.sortTexts (order.filter (· ∉ result)))))
    else .ok (.ok result)
  else .error .keyError

/-- The error for an end of an edge that is no node. -/
def unknownNode (role : Text) (order : List Text) : Option Text → List Text
  | some id =>
    if id ∈ order then []
    else ["Edge references unknown ".toList ++ role ++ " node: ".toList ++ id]
  | none => ["Edge references unknown ".toList ++ role ++ " node: None".toList]

def edgeErrors (order : List Text) (e : Edge) : List Text :=
  unknownNode "source".toList order e.source ++ unknownNode "target".toList order e.target

/-- `not node.get("command")`. -/
def Node.hasCommand (node : Node) : Bool := !(node.command.getD []).isEmpty

def commandErrors (node : Node) : List Text :=
  if node.hasCommand then [] else ["Node ".toList ++ node.id ++ " has no command".toList]

/-- `max(components, key=len)`: the first one of the greatest size. -/
def largest (components : List (List Text)) : List Text :=
  components.foldl (fun best c => if best.length < c.length then c else best) []

def componentErrors (g : Graph) (order : List Text) : List Text :=
  let components := Components.components (neighbors (g.links order)) order
  if 1 < components.length then
    ["Unreachable nodes: ".toList ++
      Text.join ", ".toList (Review.sortTexts (order.filter (· ∉ largest components)))]
  else []

/-- `validate_dag`: the errors and the ids in order. -/
def validateDag (g : Graph) (order : List Text) : Except PyException (List Text × List Text) :=
  if g.nodes = [] then .ok (["DAG has no nodes".toList], [])
  else do
    let sorted ← topologicalSort g order
    let cycleErrors := match sorted with
      | .ok _ => []
      | .error text => [text]
    let sortedIds := match sorted with
      | .ok ids => ids
      | .error _ => []
    .ok (g.edges.flatMap (edgeErrors order) ++ g.nodes.flatMap commandErrors ++ cycleErrors ++
      (if 1 < g.nodes.length then componentErrors g order else []), sortedIds)

/-! ## Conditions -/

/-- The two parts of `condition.split(op, 1)`, stripped. -/
def splitCondition (op condition : Text) : Text × Text :=
  let key := Text.before op condition
  (Text.strip key, Text.strip (condition.drop (key.length + op.length)))

/-- `_evaluate_condition`. -/
def evaluateCondition (condition : Text) (contextKeys : Assoc Text Text) : Bool :=
  if Text.isIn "!=".toList condition then
    let parts := splitCondition "!=".toList condition
    (contextKeys.get parts.1).getD [] ≠ parts.2
  else if Text.isIn "==".toList condition then
    let parts := splitCondition "==".toList condition
    (contextKeys.get parts.1).getD [] = parts.2
  else false

/-- `f"{node_id}.done"`. -/
def doneKey (id : Text) : Text := id ++ ".done".toList

/-- `_incoming.get(node_id, [])`. -/
def Graph.incoming (g : Graph) (nodeId : Text) : List Edge :=
  g.edges.filter fun e => e.target = some nodeId

/-- The loop of `_should_execute`. -/
def edgesHold (contextKeys : Assoc Text Text) (skipped : List Text) :
    Bool → List Edge → Except PyException Bool
  | hasCompletedSource, [] => .ok hasCompletedSource
  | hasCompletedSource, e :: rest =>
    match e.source with
    | none => .error .keyError
    | some source =>
      if source ∈ skipped then edgesHold contextKeys skipped hasCompletedSource rest
      else if (contextKeys.get (doneKey source)).isNone then .ok false
      else
        match e.condition with
        | none => edgesHold contextKeys skipped true rest
        | some condition =>
          if evaluateCondition condition contextKeys then edgesHold contextKeys skipped true rest
          else .ok false

/-- `_should_execute`. -/
def shouldExecute (g : Graph) (nodeId : Text) (contextKeys : Assoc Text Text)
    (skipped : List Text) : Except PyException Bool :=
  match g.incoming nodeId with
  | [] => .ok true
  | incoming => edgesHold contextKeys skipped false incoming

/-! ## Execution -/

/-- What a command comes to. -/
structure Outcome where
  success : Bool
  summary : Text := []
  error : Option Text := none
  costUsd : ℚ := 0

structure NodeResult where
  nodeId : Text
  command : Text
  outcome : Outcome

structure DAGResult where
  success : Bool
  summary : Text
  error : Option Text := none
  nodeResults : List NodeResult := []
  totalCostUsd : ℚ := 0

/-- The local variables of `execute`. -/
structure Progress where
  results : List NodeResult := []
  totalCost : ℚ := 0
  contextKeys : Assoc Text Text := []
  skipped : List Text := []

/-- What an execution leaves: its result, and the nodes that were skipped. -/
structure Execution where
  result : DAGResult
  skipped : List Text

/-- A node ran. -/
def Execution.Ran (x : Execution) (id : Text) : Prop := ∃ r ∈ x.result.nodeResults, r.nodeId = id

/-- `nodes[node_id]`: of two entries with one id, the later one. -/
def Graph.node (g : Graph) (id : Text) : Option Node := g.nodes.reverse.find? (·.id = id)

/-- `_execute_node`. -/
def executeNode (runCommand : Node → Outcome) (node : Node) : NodeResult where
  nodeId := node.id
  command := node.command.getD []
  outcome := runCommand node

def Progress.record (p : Progress) (result : NodeResult) : Progress :=
  { p with
    results := p.results ++ [result]
    totalCost := p.totalCost + result.outcome.costUsd }

def Progress.complete (p : Progress) (id : Text) : Progress :=
  { p with
    contextKeys := p.contextKeys.put (doneKey id) "true".toList }

def Progress.skip (p : Progress) (id : Text) : Progress :=
  { p with
    skipped := p.skipped ++ [id] }

def Progress.completed (p : Progress) : Execution where
  result :=
    { success := true
      summary := "DAG completed: ".toList ++ Text.ofInt p.results.length ++ " nodes executed".toList
      nodeResults := p.results
      totalCostUsd := p.totalCost }
  skipped := p.skipped

def Progress.failedAt (p : Progress) (node : Node) (error : Option Text) : Execution where
  result :=
    { success := false
      summary := "DAG failed at node ".toList ++ node.id ++ " (".toList ++ node.command.getD [] ++
        ")".toList
      error := error
      nodeResults := p.results
      totalCostUsd := p.totalCost }
  skipped := p.skipped

/-- The loop of `execute`. -/
def executeFrom (g : Graph) (runCommand : Node → Outcome) :
    Progress → List Text → Except PyException Execution
  | p, [] => .ok p.completed
  | p, nodeId :: rest =>
    match g.node nodeId with
    | none => .error .keyError
    | some node => do
      if ← shouldExecute g nodeId p.contextKeys p.skipped then
        let result := executeNode runCommand node
        let p := p.record result
        if !result.outcome.success then .ok (p.failedAt node result.outcome.error)
        else executeFrom g runCommand (p.complete nodeId) rest
      else executeFrom g runCommand (p.skip nodeId) rest

/-- A `DAGExecutor` is built for the graph, and executed. -/
def execute (g : Graph) (order : List Text) (runCommand : Node → Outcome) :
    Except PyException Execution :=
  if g.edges.all fun e => e.target.isSome then do
    let (errors, sortedIds) ← validateDag g order
    if errors ≠ [] then
      .ok
        { result :=
            { success := false
              summary := "DAG validation failed".toList
              error := some (Text.join "; ".toList errors) }
          skipped := [] }
    else executeFrom g runCommand {} sortedIds
  else .error .keyError

end Dag

import AgentStudio.Library.Json

/-!
# Agent graphs

The data model of `agent_runtime/graph.py`: a graph is a dictionary of node configurations,
with distinct keys, and a list of labelled edges. Node types are an enumeration with one more
case for the names that the runtime does not know (`NodeType.unknown`), which `validate`
reports.

`getNextNode` selects the outgoing edge of a node: a single edge is followed whatever the
result, several edges are told apart by the label, then by the truth value of the label, then
the first edge without label is taken, then the first edge.
-/

namespace AgentStudio.Graph

open PyText PyJson

/-! ### Node types -/

/-- `AgentGraph._VALID_NODE_TYPES`, sorted. -/
def validNodeTypes : List Str :=
  ["acp", "condition", "end", "error_handler", "human_input", "iteration", "llm", "loop",
    "parallel", "planner", "rag", "start", "sub_flow", "tool", "variable_aggregator",
    "verify"].map String.toList

/-- A node type; the name of an unknown type is not one of the valid ones. -/
inductive NodeType where
  | acp
  | condition
  | end_
  | errorHandler
  | humanInput
  | iteration
  | llm
  | loop
  | parallel
  | planner
  | rag
  | start
  | subFlow
  | tool
  | variableAggregator
  | verify
  | unknown (name : Str) (notValid : name ∉ validNodeTypes)
deriving DecidableEq

namespace NodeType

/-- The valid types, in the order of their names. -/
def valid : List NodeType :=
  [acp, condition, end_, errorHandler, humanInput, iteration, llm, loop, parallel, planner, rag,
    start, subFlow, tool, variableAggregator, verify]

def toStr : NodeType → Str
  | acp => "acp"
  | condition => "condition"
  | end_ => "end"
  | errorHandler => "error_handler"
  | humanInput => "human_input"
  | iteration => "iteration"
  | llm => "llm"
  | loop => "loop"
  | parallel => "parallel"
  | planner => "planner"
  | rag => "rag"
  | start => "start"
  | subFlow => "sub_flow"
  | tool => "tool"
  | variableAggregator => "variable_aggregator"
  | verify => "verify"
  | unknown name _ => name

def ofStr (s : Str) : NodeType :=
  if h : s ∈ validNodeTypes then (valid.find? fun t => t.toStr = s).getD start else unknown s h

@[simp] theorem ofStr_toStr (t : NodeType) : ofStr t.toStr = t := by
  cases t with
  | unknown name h => exact dif_neg h
  | _ => decide

def IsValid (t : NodeType) : Prop := t.toStr ∈ validNodeTypes

instance : DecidablePred IsValid := fun t => inferInstanceAs (Decidable (t.toStr ∈ _))

end NodeType

/-! ### Nodes and edges -/

/-- `tool_choice`: a mode name or a specification. -/
inductive ToolChoice where
  | mode (s : Str)
  | spec (d : Dict)

def Number.pointSeven : Number := ⟨7, 1, Or.inr (by decide)⟩

/-- `NodeConfig`, the configuration of a node. -/
structure NodeConfig where
  type : NodeType
  label : Str := []
  model : Str := []
  systemPrompt : Str := []
  temperature : Number := Number.pointSeven
  maxTokens : ℤ := 4096
  toolName : Str := []
  toolParams : Dict := Dict.empty
  conditionExpr : Str := []
  maxIterations : ℤ := 10
  maxRetries : ℤ := 3
  retryDelay : Number := 1
  retryOnError : Bool := false
  allowDynamicTools : Bool := false
  disableTools : Bool := false
  effort : Str := []
  toolChoice : ToolChoice := .mode []
  parallelToolCalls : Bool := false
  loopMode : Str := []
  maxLoopIterations : ℤ := 0
  stopSequences : Items := Items.empty
  x : Number := 0
  y : Number := 0
  parent : Str := []
  modelRouter : Str := []
  postActionCapture : Bool := false
  assertion : Dict := Dict.empty

/-- `Edge`, a directed edge between two nodes. -/
structure Edge where
  sourceId : Str
  targetId : Str
  label : Str := []
deriving DecidableEq

/-- `AgentGraph`, an agent workflow. -/
structure AgentGraph where
  id : Str
  name : Str := []
  description : Str := []
  nodes : List (Str × NodeConfig)
  edges : List Edge
  startNodeId : Str
  version : Str := "1.0"
  agentId : Str := []
  planMode : Bool := false
  stopOnToolError : Bool := false
  confirmationPolicy : Option Dict := none
  nodup : (nodes.map Prod.fst).Nodup

namespace AgentGraph

variable (g : AgentGraph)

def nodeIds : List Str := g.nodes.map Prod.fst

/-- `get_node`. -/
def getNode (nodeId : Str) : Option NodeConfig := g.nodes.lookup nodeId

/-- `get_outgoing_edges`. -/
def getOutgoingEdges (nodeId : Str) : List Edge := g.edges.filter (·.sourceId = nodeId)

/-! ### Routing -/

/-- `s.lower()` on ASCII letters: no other character becomes an ASCII letter of the words below. -/
def lower (s : Str) : Str := s.map Char.toLower

def truthyLabels : List Str := ["true", "yes", "1"]

def falsyLabels : List Str := ["false", "no", "0"]

/-- The edge that `get_next_node` selects among several. -/
def selectEdge (edges : List Edge) (conditionResult : Str) : Option Edge :=
  (edges.find? (·.label = conditionResult)).or <|
    (if lower conditionResult ∈ truthyLabels then edges.find? (lower ·.label ∈ truthyLabels)
      else if lower conditionResult ∈ falsyLabels then edges.find? (lower ·.label ∈ falsyLabels)
      else none).or <|
    (edges.find? (·.label = [])).or edges.head?

/-- `get_next_node(current_id, condition_result)`. -/
def getNextNode (currentId conditionResult : Str) : Option Str :=
  match g.getOutgoingEdges currentId with
  | [] => none
  | [e] => some e.targetId
  | edges => (selectEdge edges conditionResult).map Edge.targetId

/-- `find_llm_model`: the model of the first LLM node that has one. -/
def findLlmModel : Str :=
  match g.nodes.find? fun n => n.2.type = .llm && n.2.model ≠ [] with
  | some n => n.2.model
  | none => []

end AgentGraph

end AgentStudio.Graph

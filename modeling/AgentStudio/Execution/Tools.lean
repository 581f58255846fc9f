import AgentStudio.Execution.Step
import AgentStudio.Graph.Serialize

/-!
# Tools and sub-graphs

The parts of `agent_runtime/_runtime_nodes.py` that the executors of LLM nodes and tool nodes
share: the admission of a call and its approval, the call itself, and `_execute_sub_graph`. The
gates are those of `Runtime/Gates.lean`; here they are asked for what they need
(`admitInteractive`, `admitOnce`), and their events are emitted (`pass`).

A sub-graph runs in a runtime of its own, with a context of its own. `Nested` is how such a run is
started; its result is what the run that starts it sees.
-/

namespace AgentStudio.Execution

open PyText PyJson PyDict AgentStudio.Graph Programs

/-- How a run in another runtime is started: the runtime, the graph, the input, the context, the
flag `plan_mode` of the context that starts it, and where its `ERROR` events end a run. -/
abbrev Nested : Type :=
  AgentRuntime → AgentGraph → Str → AgentContext → Option Bool → Option ℕ →
    Program Step.Answer (Except Stop Unit × Run)

/-- `"Error:"`. -/
def isError (result : Str) : Bool := "Error:".toList.isPrefixOf result

def ToolAnswer.text (toolName : Str) : ToolAnswer Str → Str
  | .keyError => "Error: Tool '" ++ toolName ++ "' not found"
  | .failed error => "Error: " ++ error
  | .ok result => result

namespace Exec

/-! ### Admission -/

/-- The admissions of a call that can wait for an approval: the outcome, the outcome after an
approval, and what the operator does. -/
def admitInteractive (toolName : Str) (params : Dict) (nodeLabel : Str) :
    Exec (Runtime.FunnelOutcome × Runtime.FunnelOutcome × Runtime.Ask) := do
  let o ← ask (.admission toolName params true false)
  match if o.needsApproval then o.safetyResult.or o.escalation else none with
  | none => return (o, o, { freshId := [] })
  | some v => do
    let reaction ← ask (.awaitApproval Runtime.toolCallCategory)
    let p := Runtime.awaitSafetyApproval (← scope).rt.process.isAlnum (← policy) toolName params v
      Runtime.toolCallCategory nodeLabel reaction
    if Runtime.orText p.error (← ctx).error ≠ [] then return (o, o, reaction)
    else return (o, ← ask (.admission toolName params true true), reaction)

def pass {α : Type} (gate : Runtime.Gate α) : Exec Unit := do
  setError gate.error
  each gate.events fun e => emit (.ofGate e)

/-! ### Calls -/

/-- A call of a tool that is admitted: the tool is looked up, the arguments are checked and
completed, and `execute` is called. -/
def callTool (site : ToolSite) (toolName : Str) (args : Dict) : Exec (ToolAnswer Str) := do
  if ← ask (.getTool toolName) then
    match ← ask (.prepareArgs toolName args) with
    | .keyError => return .keyError
    | .failed error => return .failed error
    | .ok args => ask (.execute site toolName args)
  else return .keyError

/-- `_escalate_repeat_tool_error`. -/
def escalateRepeatToolError (toolName result : Str) : Exec Str := do
  let key := toolName ++ "::" ++ result.take 160
  let count := ((← ctx).repeatToolErrors.lookup key).getD 0 + 1
  modify fun ctx => { ctx with repeatToolErrors := setItem key count ctx.repeatToolErrors }
  if count < 2 then return result
  else return result ++ " (hint: this tool failed identically " ++ Nat.toDigits 10 count ++
    (" times in this session and is likely unavailable in this runtime; stop retrying it and use " ++
      "an alternative such as file_write)").toList

def answerCall (result toolCallId : Str) : Exec Unit := do
  addMessage { role := .tool, content := result, toolCallId }
  emit ⟨.toolResult, result⟩

/-- The node that is executed may not call the tool: `plan_mode` is on, and the tool is not one of
those that only read. -/
def planBlocks (toolName : Str) : Exec Bool := do
  return (← ctx).planMode && toolName ≠ "exit_plan_mode" && toolName ∉ planReadonlyTools

/-! ### Sub-graphs -/

/-- The mapping of a sub-graph: names to names. -/
def mapping (key : String) (params : Vars) : Option (List (Str × Str)) :=
  match params.lookup key.toList with
  | none => some []
  | some (.obj members) =>
    members.mapM fun m => (decodeStr m.2).map fun name => (m.1, name)
  | some _ => none

/-- The graph of a sub-graph, or the text of an error. The text of the exception that reading the
graph raises is left out. -/
def subGraphOf (uuid : Str) (params : Vars) : Except Str AgentGraph :=
  let graphJson := (params.lookup "graph_json".toList).getD (.str [])
  if graphJson.truthy = false then .error "Sub-graph: no graph_json provided"
  else
    match (decodeStr graphJson).bind (AgentGraph.fromJson uuid) with
    | some g => .ok g
    | none => .error "Sub-graph parse error"

def depthText (depth maxDepth : ℕ) : Str :=
  "Sub-graph recursion depth limit reached (" ++ Nat.toDigits 10 depth ++ " >= " ++
    Nat.toDigits 10 maxDepth ++ ("). Possible circular sub-graph reference. Set " ++
      "FUSION_SUB_GRAPH_MAX_DEPTH higher if intentional.").toList

/-- A variable, `""` if it is not there. -/
def varOrEmpty (vars : Vars) (name : Str) : Json := (vars.get name).getD (.str [])

/-- The input of a sub-graph: a name that is mapped to `"input"` gives its text, any other is set
in the variables of the run that starts the sub-graph. -/
def mapInput (input : Str) (m : Str × Str) : Exec Str := do
  let value := varOrEmpty (← vars) m.1
  if m.2 = "input" then return (← scope).rt.process.str value
  else do
    setVar m.2 value
    return input

/-- `AgentRuntime(...)` of a sub-graph or a branch. -/
def subRuntime (rt : AgentRuntime) (vars : Vars) : AgentRuntime where
  process := rt.process
  maxIterations := rt.maxIterations
  vars := vars
  subGraphDepth := rt.subGraphDepth + 1
  defaultTokenBudget := rt.defaultTokenBudget
  safetyGateway := rt.safetyGateway
  store := rt.store
  memoryEngine := rt.memoryEngine
  artifactManager := rt.artifactManager

/-- The run of a sub-graph: an exception, or an `ERROR` event that ends this run or one around it,
ends the executor. -/
def runNested (p : Program Step.Answer (Except Stop Unit × Run)) : Exec Run := fun _ s =>
  p.bind fun
    | (.ok _, sub) => .ret (.ok sub, s)
    | (.error e, _) => .ret (.error e, s)

/-- The events of another run, under a tag. -/
def relabel (tag : Str) (events : List AgentEvent) : List AgentEvent :=
  events.map fun e => { e with content := tag ++ e.content }

/-- Events of another run that have been emitted. -/
def absorb (events : List AgentEvent) : Exec Unit :=
  fun _ s => .ret (.ok (), { s with events := s.events ++ events })

/-- The value of an output of a sub-graph: of the run, or else of the variables it started with. -/
def outputValue (sub : AgentContext) (subVars : Vars) (name : Str) : Json :=
  match sub.vars.map fun vars => varOrEmpty vars name with
  | none => varOrEmpty subVars name
  | some (.str []) => varOrEmpty subVars name
  | some value => value

/-- `_execute_sub_graph`: the events that its consumer sees. -/
def executeSubGraph (nested : Nested) (params : Vars) : Exec (List AgentEvent) := do
  let rt := (← scope).rt
  let refused (text : Str) : Exec (List AgentEvent) := do
    emit ⟨.error, text⟩
    return [⟨.error, text⟩]
  if rt.process.maxSubGraphDepth ≤ rt.subGraphDepth then
    refused (depthText rt.subGraphDepth rt.process.maxSubGraphDepth)
  else
    match subGraphOf rt.process.uuid params with
    | .error text => refused text
    | .ok g =>
      match mapping "input_mapping" params, mapping "output_mapping" params with
      | some inputs, some outputs => do
        let subInput ← foldl mapInput [] inputs
        let subVars ← vars
        let planMode := (← ctx).planMode
        let sub ← runNested
          (nested (subRuntime rt subVars) g subInput { planMode } (some planMode)
            (← scope).errorStops)
        let events := relabel ("[sub:" ++ g.name ++ "] ") sub.events
        absorb events
        each outputs fun m => setVar m.2 (outputValue sub.ctx subVars m.1)
        return events
      | _, _ => stop .raised

end Exec

end AgentStudio.Execution

import AgentStudio.Execution.Tools

/-!
# LLM nodes

`_execute_llm_node` of `agent_runtime/_runtime_nodes.py`. The node asks the gateway for an answer
(`requestAnswer`, which falls back to a plain call when a stream breaks off inside a tool call),
stores it with its usage (`storeAnswer`), and goes through the tool calls of the answer, one after
the other (`executeToolCall`) or all at once (`executeParallel`). Calls that failed can be repaired
by further calls of the gateway (`selfRepair`).

The prompt that is put together for the gateway, the schemas of the tools, telemetry and hooks do
not reach the context and are left out, and so is `model_router`, a callable that a graph from
JSON cannot have.
-/

namespace AgentStudio.Execution

open PyText PyJson PyDict AgentStudio.Graph Programs

namespace Exec

/-! ### Before the answer -/

/-- What the artifact manager does to the context: a summary every fifth turn, and a
compaction. -/
def prepareArtifacts : Exec Unit := do
  if (← scope).rt.artifactManager then
    modify fun ctx => { ctx with artifactTurnCount := ctx.artifactTurnCount + 1 }
    let turn := (← ctx).artifactTurnCount
    if turn % 5 = 0 ∧ 0 < turn then
      let summary ← ask .artifactSummary
      if summary ≠ [] then addMessage { role := .system, content := summary }
    match ← ask .artifactCompaction with
    | none => pure ()
    | some compaction => do
      modify ({ · with messages := compaction.messages })
      emit ⟨.think, "Proactive compaction triggered"⟩

/-- The safety gate of an LLM call: its events, as far as an error. -/
def safetyGate (gate : Runtime.SafetyVerdict → Runtime.Ask → Str →
    Option Runtime.ConfirmationPolicy →
    Runtime.Gate Unit) : Exec Unit := do
  if (← scope).rt.safetyGateway then
    let v ← ask .evaluateAction
    let reaction ← ask (.awaitApproval Runtime.llmCallCategory)
    let gate := gate v reaction (← ctx).error (← policy)
    setError gate.error
    each gate.events fun e => do
      emit (.ofGate e)
      if e.isError then stop .returned

/-- The answers in place of a stream that broke off inside the arguments of a tool call: each such
call asks again. -/
def streamFallback (model : Str) (r : LLMResponse) (call : ToolCall) : Exec LLMResponse := do
  if call.incomplete then
    match ← ask (.chat (.streamFallback r.usage) model) with
    | .failed _ _ => return r
    | .answered r' => return { r with
        content := r'.content, toolCalls := r'.toolCalls, usage := r'.usage.or r.usage }
  else return r

/-- The answer of the gateway, or the text of an error. -/
def requestAnswer (model : Str) (stream : Bool) : Exec (Except Str LLMResponse) := do
  match ← ask (.chat (.answer stream) model) with
  | .failed error _ => return .error error
  | .answered r =>
    if stream then return .ok (← foldl (streamFallback model) r r.toolCalls)
    else return r.checked

/-! ### The answer -/

/-- The content of an answer: under a schema, the part of it that meets the schema. -/
def structuredContent (node : NodeConfig) (content : Str) : Exec Str := do
  if (node.toolParams.members.lookup "output_schema".toList).any Json.truthy ∧ content ≠ [] then
    match ← ask (.structuredOutput content) with
    | none => return content
    | some (text, value) => do
      setVar "structured_output" value
      return text
  else return content

/-- The messages about artifacts that an answer has opened and not closed. -/
def truncationRecovery (content : Str) : Exec Unit := do
  if content ≠ [] ∧ (← scope).rt.artifactManager then
    each (← ask (.detectUnclosedArtifacts content)) fun id =>
      addMessage { role := .system, content := "[Truncation Recovery] artifact(id:" ++ id }

/-- The answer becomes a message with its usage; the usage is stored again on the last message. -/
def storeAnswer (node : NodeConfig) (r : LLMResponse) : Exec Unit := do
  let content ← structuredContent node r.content
  addMessage { role := .assistant, content, toolCalls := r.toolCalls, usage := r.usage }
  truncationRecovery content
  match r.usage with
  | none => pure ()
  | some usage =>
    if usage.promptTokens ≠ 0 ∨ usage.completionTokens ≠ 0 then
      ask (.storeUsage usage)
      modifyLast ({ · with usage := some usage })
  emit ⟨.think, content⟩

/-! ### Tool calls, one after the other -/

/-- `EXIT_PLAN_MODE_SENTINEL`. -/
def exitPlanModeSentinel : Str := "__EXIT_PLAN_MODE__"

def controlFlowTools : List Str :=
  ["__sub_graph__", "register_tool", "unregister_tool",
    "exit_plan_mode"]

/-- `register_tool` and `unregister_tool`. -/
def executeRegistration (node : NodeConfig) (toolName : Str) (args : Dict) (id : Str) :
    Exec Unit := do
  let o ← ask (.admission toolName args false false)
  let gate := Runtime.registerToolGate node.label (← ctx).error toolName args o
  match gate.passed with
  | none => do
    addMessage { role := .tool, content := gate.denial, toolCallId := id }
    pass gate
  | some args => do
    let result ←
      if toolName = "register_tool" then ask (.registerTool args)
      else ask (.unregisterTool args)
    answerCall result id

/-- The result of a tool call: `exit_plan_mode` ends the mode with its sentinel, and an error is
told apart. The answer is what failed. -/
def storeResult (node : NodeConfig) (toolName id : Str) (answer : ToolAnswer Str) :
    Exec (List Str) := do
  let result := answer.text toolName
  if toolName = "exit_plan_mode" ∧ exitPlanModeSentinel.isPrefixOf result then
    let plan := result.drop exitPlanModeSentinel.length
    modify ({ · with planMode := false })
    addMessage {
      role := .tool
      content := "Plan approved. Transitioning to execution.\n" ++ plan
      toolCallId := id }
    modifyLast ({ · with nodeId := node.label })
    emit ⟨.planModeExit, plan⟩
    return []
  else
    let result ← if isError result then escalateRepeatToolError toolName result else pure result
    addMessage { role := .tool, content := result, toolCallId := id }
    modifyLast ({ · with nodeId := node.label })
    emit ⟨.toolResult, result⟩
    return if isError result then [toolName ++ ": " ++ result] else []

/-- A call of a registered tool: its admission, and the call. -/
def executeFunction (node : NodeConfig) (toolName : Str) (args : Dict) (id : Str) :
    Exec (List Str) := do
  emit ⟨.toolCall, []⟩
  let (o, readmission, reaction) ← admitInteractive toolName args node.label
  let gate := Runtime.toolCallGate (← scope).rt.process.isAlnum (← policy) node.label (← ctx).error
    toolName args o readmission reaction
  match gate.passed with
  | some args => do
    pass gate
    storeResult node toolName id (← callTool .functionCall toolName args)
  | none => do
    -- without a text the approval has failed, and nothing is stored
    if gate.denial ≠ [] then
      addMessage { role := .tool, content := gate.denial, toolCallId := id }
    pass gate
    return if o.needsApproval ∧ (o.safetyResult.or o.escalation).isNone
      then [toolName ++ ": " ++ gate.denial] else []

/-- The text of a tool call that `plan_mode` blocks. -/
def planBlockedText (toolName : Str) : Str :=
  "Blocked: plan_mode is active (read-only explore). Tool '" ++ toolName ++
    ("' writes state. Present your plan, then call exit_plan_mode to transition to " ++
      "execution.").toList

/-- A tool call of an answer: what failed before and what fails here. -/
def executeToolCall (nested : Nested) (node : NodeConfig) (errors : List Str) (call : ToolCall) :
    Exec (List Str) := do
  match call.call with
  | .error text => do
    setError ("Invalid tool call: " ++ text)
    fail text
  | .ok (toolName, args) =>
    if ← planBlocks toolName then
      answerCall (planBlockedText toolName) call.id
      return errors
    else if toolName = "__sub_graph__" then
      let _ ← executeSubGraph nested args.members
      return errors
    else if toolName = "register_tool" ∨ toolName = "unregister_tool" then
      executeRegistration node toolName args call.id
      return errors
    else return errors ++ (← executeFunction node toolName args call.id)

/-! ### Tool calls at the same time -/

/-- `_exec_parallel_tool`: the text of the result, and whether it is an error. -/
def execParallelTool (call : Str × Dict × Str) : Exec (Str × Bool) := do
  let (toolName, args, _) := call
  let o ← ask (.admission toolName args false false)
  let gate := Runtime.parallelToolGate (← scope).rt.process.isAlnum (← policy) (← ctx).error
    toolName
    args o
  match gate.passed with
  | none => return (gate.denial, true)
  | some args => do
    let result := (← callTool .parallelCall toolName args).text toolName
    return (result, isError result)

/-- The calls of an answer, as far as a call that is part of the runtime; there is none of them if
the calls can be made at the same time. -/
def parseCalls : List ToolCall → Except Str (Option (List (Str × Dict × Str)))
  | [] => .ok (some [])
  | call :: calls =>
    match call.call with
    | .error text => .error text
    | .ok (toolName, args) =>
      if toolName ∈ controlFlowTools then .ok none
      else (parseCalls calls).map fun rest => rest.map fun cs => (toolName, args, call.id) :: cs

/-- The result of a call that was made at the same time as others. -/
def storeParallel (node : NodeConfig) (errors : List Str)
    (r : (Str × Dict × Str) × (Str × Bool)) : Exec (List Str) := do
  let ((toolName, _, id), result, failed) := r
  let result ← if failed then escalateRepeatToolError toolName result else pure result
  addMessage { role := .tool, content := result, toolCallId := id }
  modifyLast ({ · with nodeId := node.label })
  emit ⟨.toolResult, result⟩
  return if failed then errors ++ [toolName ++ ": " ++ result] else errors

/-- The calls of an answer at the same time. -/
def executeParallel (node : NodeConfig) (calls : List (Str × Dict × Str)) : Exec (List Str) := do
  each calls fun _ => emit ⟨.toolCall, []⟩
  let results ← gatherAll (calls.map execParallelTool)
  foldl (storeParallel node) [] (calls.zip results)

/-- The tool calls of an answer: what failed. They are made at the same time if the node says so,
`plan_mode` is off, and none of them is part of the runtime. -/
def executeToolCalls (nested : Nested) (node : NodeConfig) (calls : List ToolCall) :
    Exec (List Str) := do
  if node.parallelToolCalls ∧ (← ctx).planMode = false then
    match parseCalls calls with
    | .error text => do
      setError ("Invalid tool call: " ++ text)
      fail text
    | .ok (some parsed) => executeParallel node parsed
    | .ok none => foldl (executeToolCall nested node) [] calls
  else foldl (executeToolCall nested node) [] calls

/-! ### Self-repair -/

/-- The text of a tool call of a self-repair that `plan_mode` blocks. -/
def repairBlockedText : Str :=
  ("Blocked: plan_mode active (read-only explore). Tool writes state; call exit_plan_mode " ++
    "first.").toList

/-- A tool call of a self-repair: what failed before and what fails here. -/
def executeRepairCall (node : NodeConfig) (errors : List Str) (call : ToolCall) :
    Exec (List Str) := do
  match call.call with
  | .error _ => return errors
  | .ok (toolName, args) =>
    emit ⟨.toolCall, []⟩
    let failed (text : Str) : List Str := errors ++ [toolName ++ ": " ++ text]
    if ← planBlocks toolName then
      answerCall repairBlockedText call.id
      return failed repairBlockedText
    else
      let o ← ask (.admission toolName args false false)
      let reaction ← ask (.awaitApproval Runtime.toolCallCategory)
      let gate := Runtime.selfRepairToolGate (← scope).rt.process.isAlnum (← policy) node.label
        (← ctx).error toolName args o reaction
      match gate.passed with
      | some args => do
        pass gate
        let result := match ← callTool .selfRepair toolName args with
          | .keyError => "Error: " ++ toolName
          | .failed error => "Error: " ++ error
          | .ok result => result
        answerCall result call.id
        return if isError result then failed result else errors
      | none => do
        if gate.denial ≠ [] then
          addMessage { role := .tool, content := gate.denial, toolCallId := call.id }
        pass gate
        if gate.denial = [] then stop .returned
        return failed gate.denial

/-- The gateway is asked again, about what failed; `none` if it does not answer. -/
def requestRepair (node : NodeConfig) (model : Str) (errors : List Str) :
    Exec (Option LLMResponse) := do
  emit ⟨.retry, []⟩
  addMessage {
    role := .system
    content := "[Self-repair] The previous tool calls failed:\n" ++
      ['\n'].intercalate (errors.map ("- " ++ ·)) ++
      "\n\nPlease try again with corrected arguments or a different approach." }
  let isAlnum := (← scope).rt.process.isAlnum
  safetyGate fun v reaction error policy =>
    Runtime.selfRepairLlmGate isAlnum policy node.label error v reaction
  match ← ask .preLlm with
  | some reason => abort reason
  | none =>
    match ← ask (.chat .selfRepair model) with
    | .failed _ _ => return none
    | .answered r => return some r

/-- The self-repair: as many attempts as are left, and what failed so far. An answer without tool
calls, or one whose calls all succeed, ends it. -/
def selfRepair (node : NodeConfig) (model : Str) : ℕ → List Str → Exec Unit
  | 0, _ => pure ()
  | attempts + 1, errors => do
    match ← requestRepair node model errors with
    | none => selfRepair node model attempts errors
    | some r => do
      -- the usage of this answer is not stored
      addMessage { role := .assistant, content := r.content, toolCalls := r.toolCalls }
      if r.toolCalls.isEmpty then emit ⟨.retrySuccess, []⟩
      else
        let errors ← foldl (executeRepairCall node) [] r.toolCalls
        if errors.isEmpty then emit ⟨.retrySuccess, []⟩
        else selfRepair node model attempts errors

/-! ### The node -/

/-- `_MAX_TOOL_CALL_CHAIN`. -/
def maxToolCallChain : ℕ := 10

def followAnswer (nested : Nested) (node : NodeConfig) (g : AgentGraph) (model : Str)
    (r : LLMResponse) : Exec Unit := do
  storeAnswer node r
  if r.toolCalls.isEmpty then pure ()
  else
    modify fun ctx => { ctx with toolCallChainCount := ctx.toolCallChainCount + 1 }
    if maxToolCallChain < (← ctx).toolCallChainCount then
      abort "Tool call chain exceeded 10"
    else
      let errors ← executeToolCalls nested node r.toolCalls
      if errors.isEmpty then pure ()
      else if g.stopOnToolError then
        abort ("Tool errors in LLM node '" ++ node.label ++ "': " ++
          "; ".toList.intercalate errors)
      else if node.retryOnError ∧ 0 < node.maxRetries then
        selfRepair node model (min node.maxRetries 5).toNat errors

/-- After an answer the dispatch loop is to record it. -/
def answeredHop (hop : Hop) : Hop := if hop = .dispatched then .answered else hop

/-- What follows an answer, and the mark if the run ends before the answer is recorded. -/
def afterAnswer (x : Exec Unit) : Exec Unit := fun c s =>
  (x { c with hop := answeredHop c.hop } s).bind fun
    | (.ok a, s') => .ret (.ok a, s')
    | (.error .returned, s') => .ret (.error .returned, s')
    | (.error e, s') =>
      .ask ⟨{ c with hop := answeredHop c.hop }, s'.ctx, .leave⟩ fun _ => .ret (.error e, s')

/-- `_execute_llm_node`. -/
def executeLlmNode (nested : Nested) (node : NodeConfig) (g : AgentGraph) (graphModel : Str)
    (stream : Bool) : Exec Unit := body do
  let model := if node.model = [] then graphModel else node.model
  prepareArtifacts
  let isAlnum := (← scope).rt.process.isAlnum
  safetyGate fun v reaction error policy =>
    Runtime.llmCallGate isAlnum policy node.label error v reaction
  match ← ask .preLlm with
  | some reason => abort reason
  | none =>
    match ← requestAnswer model stream with
    | .error text => abort ("LLM call failed: " ++ text)
    | .ok r => afterAnswer (followAnswer nested node g model r)

end Exec

end AgentStudio.Execution

import AgentStudio.Execution.LlmNode
import AgentStudio.Graph.Parallel

/-!
# The other nodes

The executors of `agent_runtime/_runtime_nodes.py` for all nodes but LLM nodes. An
`error_handler` node executes the node that failed before it again (`executeFailed`); its consumer
does not stop at an `ERROR` event. A `parallel` node runs its branches at the same time, each in a
runtime of its own, and emits their events afterwards.

Texts that Python makes of a number with decimals, and the texts of exceptions, are left out of
the events, as are the checkpoints that nodes save.
-/

namespace AgentStudio.Execution

open PyText PyJson PyDict AgentStudio.Graph Programs

/-! ### Parameters -/

def param (node : NodeConfig) (key : String) : Option Json :=
  node.toolParams.members.lookup key.toList

/-- A parameter that is a text, `""` if it is not there. -/
def paramStr (node : NodeConfig) (key : String) : Str := ((param node key).bind decodeStr).getD []

/-- A name: a parameter, the label of the node, or a default. -/
def nameOf (node : NodeConfig) (key default : String) : Str :=
  Runtime.orText (paramStr node key) (Runtime.orText node.label default.toList)

/-- The parameters of a tool node, with the variables in their texts. -/
def interpolateParams (f : Str → Str) (d : Dict) : Dict where
  members := d.members.map fun m =>
    (m.1, match m.2 with
      | .str s => .str (f s)
      | v => v)
  nodup := by
    rw [List.map_map]
    exact d.nodup
  wf := by
    intro m hm
    obtain ⟨m, hm', rfl⟩ := List.mem_map.mp hm
    have := d.wf m hm'
    dsimp only
    split
    · exact trivial
    · exact this

def lastContent (role : Role) (messages : List Message) : Str :=
  ((messages.reverse.find? (·.role = role)).map Message.content).getD []

namespace Exec

/-! ### Tool nodes -/

/-- The error of a tool node whose command would take in variables. -/
def interpolationText : Str :=
  ("Blocked: terminal 'command' contains variable interpolation (\x7b\x7b...\x7d\x7d); passing " ++
    "user-controlled input to a shell is an RCE vector. Use a non-shell tool, or set " ++
    "FUSION_TERMINAL_ALLOW_INTERP=1 for controlled environments.").toList

/-- The error of a tool node that `plan_mode` blocks. -/
def nodeBlockedText (toolName : Str) : Str :=
  "Blocked: plan_mode active, tool '" ++ toolName ++
    "' writes state. Call exit_plan_mode to transition to execution."

/-- The result of a tool node is an error: by its text, or as an object with the key `"error"`. -/
def isToolError (result : Str) : Bool :=
  isError result ||
    match loads (strip result) with
    | some (.obj members) => (members.lookup "error".toList).isSome
    | _ => false

/-- `_apply_tool_output_mapping`. -/
def applyToolOutputMapping (result : Str) (m : Str × Str) : Exec Unit := do
  if m.2 = [] then pure ()
  else if m.1 = [] ∨ m.1 = "result" then setVar m.2 (.str result)
  else
    match (loads result).bind fun value => (decodeObj value).bind fun ms => ms.lookup m.1 with
    | some value => setVar m.2 value
    | none => setVar m.2 (.str result)

/-- The picture that `_post_action_assert` captures, `""` if there is none. -/
def captureFrame : Exec Str := do
  if ← ask (.getTool "screenshot") then
    match ← ask (.execute .postActionCapture "screenshot" Dict.empty) with
    | .ok capture => ask (.readFrame capture)
    | _ => return []
  else return []

/-- `_post_action_assert`. -/
def postActionAssert (node : NodeConfig) : Exec Unit := do
  let frame ← captureFrame
  emit ⟨.toolResult, Runtime.orText (frame.take 80) "captured"⟩
  if (← scope).rt.postActionAssertionFn ∧ node.assertion.members ≠ [] then
    let verdict ← ask .assertionFn
    if verdict ≠ [] then
      emit ⟨.error, "Post-action assertion failed: " ++ verdict⟩

def followToolNode (node : NodeConfig) (g : AgentGraph) (answer : ToolAnswer Str) :
    Exec Unit := do
  let result := answer.text node.toolName
  addMessage { role := .tool, content := result, toolCallId := "tool_" ++ node.toolName }
  modifyLast ({ · with nodeId := node.label })
  emit ⟨.toolResult, result⟩
  if isToolError result ∧ g.stopOnToolError then
    abort ("Tool '" ++ node.toolName ++ "' (node '" ++ node.label ++
      "') failed: " ++ result)
  else
    match mapping "output_mapping" node.toolParams.members with
    | none => stop .raised
    | some outputs => do
      each outputs (applyToolOutputMapping result)
      if node.postActionCapture then postActionAssert node

/-- `_execute_tool_node`. -/
def executeToolNode (nested : Nested) (node : NodeConfig) (g : AgentGraph) : Exec Unit := body do
  if node.toolName = "__sub_graph__" then
    let _ ← executeSubGraph nested node.toolParams.members
  else
    let values ← vars
    let process := (← scope).rt.process
    if node.toolName = "terminal" ∧ process.terminalAllowInterp = false ∧
        "\x7b\x7b" <:+: paramStr node "command" then
      abort interpolationText
    else
      let params := interpolateParams (process.interpolate values) node.toolParams
      if ← planBlocks node.toolName then abort (nodeBlockedText node.toolName)
      else
        let (o, readmission, reaction) ← admitInteractive node.toolName params node.label
        let gate := Runtime.toolNodeGate process.isAlnum (← policy) node.label (← ctx).error
          node.toolName params o readmission reaction
        pass gate
        match gate.passed with
        | none => pure ()
        | some args => do
          followToolNode node g (← callTool .toolNode node.toolName args)

/-! ### Loops and iterations -/

/-- `_execute_loop_node`: whether the loop goes on. -/
def executeLoopNode (node : NodeConfig) : Exec Bool := do
  let loopVar := ((param node "loop_var").bind decodeStr).getD "loop_count"
  let value := ((← vars).get loopVar).getD (.num 0)
  let current := ((← scope).rt.process.int value).getD (← ctx).iterationCount
  if current < node.maxIterations then
    setVar loopVar (.num (Number.ofInt (current + 1)))
    emit ⟨.think, "loop_continue"⟩
    return true
  else
    emit ⟨.think, "loop_exit"⟩
    return false

/-- The text after the first `"] "`. -/
def afterBracket : Str → Option Str
  | ']' :: ' ' :: rest => some rest
  | _ :: rest => afterBracket rest
  | [] => none

/-- The content of an event of a sub-graph without its tag. -/
def untagged (content : Str) : Str :=
  if "[sub:".toList.isPrefixOf content then (afterBracket content).getD content else content

/-- What an item comes to: the last result of its run, or else the last answer. -/
def itemResult (events : List AgentEvent) : Str :=
  let last (p : AgentEvent → Bool) := ((events.reverse.find? p).map AgentEvent.content).getD []
  let final := untagged (last (·.type = .result))
  if final = [] then untagged (last fun e => e.type = .think && e.content ≠ []) else final

/-- The items of an `iteration` node from one on: the results so far are in the output variable. -/
def executeItems (nested : Nested) (node : NodeConfig) (outputVar : Str) (results : List Json) :
    ℕ → List Json → Exec (List Json)
  | _, [] => return results
  | index, item :: items => do
    setVar "item" item
    setVar "item_index" (.num (Number.ofInt index))
    let events ← executeSubGraph nested node.toolParams.members
    if events.any (·.type = .error) then
      setVar outputVar (.arr results)
      stop .returned
    else
      let results := results ++ [.str (itemResult events)]
      setVar outputVar (.arr results)
      executeItems nested node outputVar results (index + 1) items

/-- `_execute_iteration_node`. -/
def executeIterationNode (nested : Nested) (node : NodeConfig) : Exec Unit := body do
  let process := (← scope).rt.process
  let itemsVar := ((param node "items_var").bind decodeStr).getD "items"
  match process.int ((param node "max_items").getD (.num (Number.ofInt 100))) with
  | none => stop .raised
  | some maxItems =>
    match varOrEmpty (← vars) itemsVar with
    | .null | .str [] =>
      fail ("iteration: items variable '" ++ itemsVar ++ "' not found")
    | .arr items =>
      if maxItems < items.length then
        fail ("iteration: " ++ Nat.toDigits 10 items.length ++ " items exceeds cap")
      else
        let outputVar := nameOf node "output_var" "iteration_results"
        let results ← executeItems nested node outputVar [] 0 items
        emit ⟨.result, process.dumps (.arr results)⟩
    | _ => fail ("iteration: variable '" ++ itemsVar ++ "' is no list")

/-! ### Variables and decisions -/

/-- `_execute_variable_aggregator_node`. -/
def executeVariableAggregatorNode (node : NodeConfig) : Exec Unit := body do
  let inputVars := match param node "input_vars" with
    | some (.arr items) => items.filterMap decodeStr
    | _ => []
  let vars ← vars
  match inputVars with
  | [] => fail "variable_aggregator: tool_params.input_vars is empty"
  | _ => do
    let merged := match inputVars with
      | [name] => varOrEmpty vars name
      | names => .obj (names.map fun name => (name, varOrEmpty vars name))
    setVar (nameOf node "output_var" "aggregated") merged
    emit ⟨.result, (← scope).rt.process.dumps merged⟩

/-- `_execute_human_input_node`: whether the run pauses. -/
def executeHumanInputNode (node : NodeConfig) : Exec Bool := do
  let inputVar := nameOf node "input_var" "human_input"
  let dumps := (← scope).rt.process.dumps
  match varOrEmpty (← vars) inputVar with
  | .null | .str [] => do
    emit ⟨.safetyApproval, paramStr node "prompt"⟩
    match ← ask .humanInput with
    | .timeout => do
      emit ⟨.checkpoint, "Paused awaiting human input at '" ++ node.label⟩
      return true
    | .rejected reason => do
      emit ⟨.error, "human_input rejected at '" ++ node.label ++ "': " ++ reason⟩
      return false
    | .approved value => do
      setVar inputVar value
      emit ⟨.result, dumps (.obj [(inputVar, value)])⟩
      return false
  | value => do
    emit ⟨.result, dumps (.obj [(inputVar, value)])⟩
    return false

/-- `_execute_sub_flow_node`. -/
def executeSubFlowNode (nested : Nested) (node : NodeConfig) : Exec Unit := body do
  let rt := (← scope).rt
  let flowId := ((param node "flow_id").map rt.process.str).getD []
  if flowId = [] then fail "sub_flow: tool_params.flow_id is required"
  else if rt.store = false then
    fail ("sub_flow: no store configured to load flow '" ++ flowId ++ "'")
  else
    match ← ask (.loadGraph flowId) with
    | none => fail ("sub_flow: flow '" ++ flowId ++ "' not found")
    | some g => do
      let _ ← executeSubGraph nested
        (setItem "graph_json" (.str g.toJson) node.toolParams.members)

/-! ### Nodes that ask the gateway -/

/-- The node that a `rag` node passes on with the context it has found. -/
def augmentedNode (node : NodeConfig) (model : Str) : NodeConfig where
  type := .llm
  label := node.label
  model := if node.model = [] then model else node.model
  temperature := node.temperature
  maxTokens := node.maxTokens
  toolParams := node.toolParams

/-- `_execute_rag_node`. -/
def executeRagNode (nested : Nested) (node : NodeConfig) (g : AgentGraph) (model : Str) :
    Exec Unit := do
  let context ← ask .retrieve
  if context = [] then
    emit ⟨.think, "RAG: no relevant context found, proceeding without retrieval"⟩
    onBehalf .rag (executeLlmNode nested node g model false)
  else
    let augmented := augmentedNode node model
    onBehalf .rag (executeLlmNode nested augmented g augmented.model false)
    emit ⟨.think, "RAG retrieved"⟩

/-- `_execute_planner_node`. -/
def executePlannerNode (node : NodeConfig) : Exec Unit := body do
  match ← ask .createPlan with
  | none => stop .raised
  | some plan => do
    emit ⟨.think, "Plan generated: " ++ plan.task⟩
    setVar "current_plan_id" (.str plan.id)
    setVar "plan_step_count" (.num (Number.ofInt plan.steps))
    setVar "plan_risk" (.str plan.risk)
    emit ⟨.toolResult, "Execution plan: " ++ plan.task⟩
    if (param node "await_approval").any Json.truthy then
      let report (text : Str) : Exec Unit :=
        emit ⟨.planApproval, "Plan " ++ plan.id ++ ' ' :: text⟩
      report "awaiting approval"
      match ← ask .planApproval with
      | .timeout => do
        emit ⟨.planApproval, "Approval timed out for plan " ++ plan.id⟩
        abort ("Planner: approval timed out for plan " ++ plan.id)
      | .approved => report "approved"
      | .rejected => do
        report "rejected"
        abort ("Planner: plan " ++ plan.id ++ " rejected")

/-- `_execute_verify_node`. -/
def executeVerifyNode (node : NodeConfig) : Exec Unit := do
  if (param node "resident").any Json.truthy then
    setVar "verify_resident" (.bool true)
    emit ⟨.verify, []⟩
  else
    match ← ask .verify with
    | none => stop .raised
    | some result => do
      setVar "verify_passed" (.bool result.passed)
      setVar "verify_score" result.score
      setVar "verify_attempt" result.attempt
      emit ⟨.verify, result.summary⟩
      if result.passed = false ∧ result.issues ≠ [] then
        setError ("Verify failed: " ++ result.issues)
        emit ⟨.think, "Verification issues: " ++ result.issues⟩

/-- `_execute_acp_node`. -/
def executeAcpNode (node : NodeConfig) : Exec Unit := body do
  let prompt := Runtime.orText (paramStr node "prompt")
    (Runtime.orText (lastContent .user (← ctx).messages) node.systemPrompt)
  if prompt = [] then
    fail ("ACP node has no prompt (no user message, tool_params.prompt, or system_prompt)").toList
  else
    let result ← ask .runAcpPrompt
    if result.success = false then fail (Runtime.orText result.error "ACP run failed")
    else
      if result.message ≠ [] then
        modify fun ctx =>
          { ctx with
            messages := ctx.messages ++ [{ role := .assistant, content := result.message }] }
        setVar "acp_message" (.str result.message)
      setVar "acp_stop_reason" (.str result.stopReason)
      emit ⟨.think, "ACP turn complete (stop_reason=" ++ result.stopReason ++ ")"⟩

/-! ### Parallel nodes -/

def branchOutput (sub : Run) : Str :=
  match sub.events.reverse.find? fun e => e.type = .think && e.content ≠ [] with
  | some e => e.content
  | none => lastContent .assistant sub.ctx.messages

/-- `run_branch`: the events and the output of a branch; `none` is an exception. -/
def runBranch (nested : Nested) (g : AgentGraph) (mergeId parallelId : Str)
    (branch : ℕ × Edge) : Exec (Option (List AgentEvent × Str)) := do
  let rt := (← scope).rt
  let planMode := (← ctx).planMode
  match g.buildBranchSubgraph rt.process.uuid branch.2.targetId mergeId parallelId with
  | none =>
    return some ([], "Error: branch " ++ Nat.toDigits 10 branch.1 ++
      " subgraph build failed")
  | some sub => fun _ s =>
    (nested (subRuntime rt []) sub [] { planMode } (some planMode) none).bind fun
      | (.ok _, run) => .ret (.ok (some (run.events, branchOutput run)), s)
      | (.error _, _) => .ret (.ok none, s)

/-- The results in the order in which they are merged: exceptions count as the first branch. -/
def mergeOrder {α : Type} : List (Edge × ℕ × Option α) → List (Edge × ℕ × Option α)
  | [] => []
  | r :: rs => r :: (rs.filter (·.2.2.isNone) ++ rs.filter (·.2.2.isSome))

/-- The events of a branch, and its part of the merged message. -/
def mergeBranch (outputs : List Str) (r : Edge × ℕ × Option (List AgentEvent × Str)) :
    Exec (List Str) := do
  match r with
  | (_, _, none) => return outputs ++ ["[parallel_error]\nError: branch failed: ".toList]
  | (edge, index, some (events, output)) => do
    let tag := Runtime.orText edge.label ("branch_" ++ Nat.toDigits 10 index)
    each (events.filter fun e => e.type ≠ .start && e.type ≠ .end_) fun e =>
      emit { e with content := "[parallel:" ++ tag ++ "] " ++ e.content }
    return if output = [] then outputs
      else outputs ++ ['[' :: (tag ++ "]\n" ++ output)]

/-- `_execute_parallel_node`: the node that the run goes on with. -/
def executeParallelNode (nested : Nested) (g : AgentGraph) (nodeId : Str) : Exec Str := do
  emit ⟨.start, "Parallel fan-out from " ++ nodeId⟩
  match g.getOutgoingEdges nodeId with
  | [] => do
    emit ⟨.result, "parallel: no branches"⟩
    return []
  | e :: es => do
    if (← ctx).planMode then
      emit ⟨.result, "parallel: plan_mode sequential fallback to " ++ e.targetId⟩
      return e.targetId
    else if es = [] then
      emit ⟨.result, "parallel: single branch to " ++ e.targetId⟩
      return e.targetId
    else
      let mergeId := g.findMergeNode (e :: es)
      let branches := (List.range (e :: es).length).zip (e :: es)
      let results ← gatherAll (branches.map (runBranch nested g mergeId nodeId))
      let merged := mergeOrder ((branches.zip results).map fun r => (r.1.2, r.1.1, r.2))
      let outputs ← foldl mergeBranch [] merged
      if outputs ≠ [] then
        addMessage { role := .assistant, content := "\n\n".toList.intercalate outputs }
      emit ⟨.result, "Parallel fan-out complete: " ++ Nat.toDigits 10 results.length ++
        " branches merged"⟩
      return mergeId

/-! ### Error handlers -/

/-- The node that failed: the one that the last tool message names, if there is one after the last
answer. -/
def failedNodeOf : List Message → Option Str
  | [] => none
  | m :: ms =>
    match m.role with
    | .assistant => none
    | .tool =>
      if m.nodeId ≠ [] then some m.nodeId
      else if "tool_".toList.isPrefixOf m.toolCallId then some (m.toolCallId.drop 5)
      else failedNodeOf ms
    | _ => failedNodeOf ms

def executeFailed (nested : Nested) (g : AgentGraph) (nodeId : Str) : Exec Unit := do
  match g.getNode nodeId with
  | none => pure ()
  | some node =>
    match node.type with
    | .tool => executeToolNode nested node g
    | .llm => executeLlmNode nested node g g.findLlmModel false
    | .rag => executeRagNode nested node g g.findLlmModel
    | .planner => executePlannerNode node
    | .verify => executeVerifyNode node
    | .parallel => do
      let _ ← executeParallelNode nested g nodeId
    | .acp => executeAcpNode node
    | _ => pure ()

/-- The attempts of an error handler: as many as are left, after some. The answer is the number of
the last one. -/
def retryAttempts (nested : Nested) (g : AgentGraph) (nodeId : Str) : ℕ → ℕ → Exec ℕ
  | 0, attempt => return attempt
  | left + 1, attempt => do
    emit ⟨.think, "Retry attempt " ++ Nat.toDigits 10 (attempt + 1)⟩
    executeFailed nested g nodeId
    if (← ctx).error = [] then return attempt + 1
    else retryAttempts nested g nodeId left (attempt + 1)

/-- `_execute_error_handler_node`. Without an attempt the variable of its loop does not exist. -/
def executeErrorHandlerNode (nested : Nested) (node : NodeConfig) (g : AgentGraph) :
    Exec Unit := do
  let ctx ← ctx
  let failed := failedNodeOf ctx.messages.reverse
  let nodeId := match failed with
    | none | some [] => ctx.currentNodeId
    | some nodeId => nodeId
  setError []
  if node.maxRetries ≤ 0 then stop .raised
  else
    let attempt ← onBehalf .errorHandler (retryAttempts nested g nodeId node.maxRetries.toNat 0)
    emit ⟨.toolResult, "Error handler completed after " ++ Nat.toDigits 10 attempt ++
      " attempt(s)"⟩

end Exec

end AgentStudio.Execution

import AgentStudio.Execution.Nodes
import AgentStudio.Graph.Walk

/-!
# Runs

`_execute_graph_inner` of `agent_runtime/runtime.py`: a run checks the graph, seeds its context and
dispatches one node after the other (`dispatch`), until there is no next node, an executor ends
the run, or the iterations are used up. Every node counts as an iteration, so the iterations that
are left bound the loop.

A run starts further runs for its sub-graphs and branches. A sub-graph is refused when the depth
of its runtime reaches the limit, and a branch has fewer nodes than its graph; `nestedAt` and
`branchesOnly` are the runs inside a run, by recursion on these numbers. `executeGraph` is a run
that nobody else runs.

Lifecycle hooks, telemetry, checkpoints, the reviewers that watch a stream of events and the
memory that is stored after a run do not reach the execution and are left out.
-/

namespace AgentStudio.Execution

open PyText PyJson PyDict AgentStudio.Graph Programs

namespace Exec

/-! ### Nodes that the loop executes itself -/

/-- The keys that a `start` node takes from the input: what comes after a key that cannot be
looked up is not taken. -/
def flowKeys : Json → List Str
  | .arr items =>
    (items.takeWhile fun
      | .arr _ | .obj _ => false
      | _ => true).filterMap decodeStr
  | .obj members => members.map Prod.fst
  | .str text => text.map fun c => [c]
  | _ => []

/-- The `flow_state` of a `start` node: variables that the input sets, as an object. -/
def seedFlowState (node : NodeConfig) (input : Str) : Exec Unit :=
  match param node "flow_state", (loads input).bind decodeObj with
  | some keys, some seed =>
    each (flowKeys keys) fun key =>
      match seed.lookup key with
      | none => pure ()
      | some value => setVar key value
  | _, _ => pure ()

/-- `_execute_condition_node`. -/
def executeConditionNode (node : NodeConfig) : Exec Str := do
  let result ← ask (.evaluateCondition (← interpolate node.conditionExpr))
  emit ⟨.think, result⟩
  return result

/-! ### LLM nodes -/

/-- `ctx.stop_reason`, unless there is one. -/
def setStopReason (reason : String) : Exec Unit :=
  modify fun ctx => { ctx with stopReason := Runtime.orText ctx.stopReason reason.toList }

/-- At 70 % of the budget the messages are compacted, once in a run. -/
def pruneMessages (status : BudgetStatus) : Exec Unit := do
  if status.reachesThreshold ∧ (← scope).rt.compactor ∧ (← ctx).pruningDone = false then
    modify ({ · with pruningDone := true })
    let compaction ← ask .compact
    modify ({ · with messages := compaction.messages })
    emit ⟨.think, "Context proactively pruned at 70% budget"⟩

def checkBudget (status : BudgetStatus) : Exec Unit := do
  if status.isExceeded then
    emit ⟨.tokenBudgetExceeded, "Token budget exceeded: " ++ status.spentTokens ++
      '/' :: status.maxTokens⟩
    modify ({ · with stopReason := "budget_exceeded" })
    stop .returned

/-- The budget, if there is one, records the usage of all messages. -/
def recordUsage : Exec Unit := do
  match (← scope).budget with
  | none => pure ()
  | some budget => do
    let status ← ask (.recordUsage budget (← ctx).tokenUsage)
    pruneMessages status
    checkBudget status

/-- The messages are compacted if they have become too many. -/
def compactMessages : Exec Unit := do
  if (← scope).rt.compactor then
    if ← ask .shouldCompact then
      let compaction ← ask .compact
      modify ({ · with messages := compaction.messages })

/-- The agent loop of an LLM node: as many rounds as are left, as long as the last message is the
result of a tool. -/
def agentRounds (nested : Nested) (node : NodeConfig) (g : AgentGraph) (model : Str)
    (stream : Bool) : ℕ → Exec Unit
  | 0 => pure ()
  | rounds + 1 => do
    if (← ctx).messages.getLast?.map Message.role ≠ some .tool then pure ()
    else
      modify fun ctx => { ctx with iterationCount := ctx.iterationCount + 1 }
      if (← ctx).isMaxIterationsReached then setStopReason "max_iterations"
      else
        compactMessages
        modify ({ · with toolCallChainCount := 0 })
        onBehalf .agentRound (consumed (executeLlmNode nested node g model stream))
        agentRounds nested node g model stream rounds

def maxRounds (node : NodeConfig) : ℕ :=
  (if node.maxLoopIterations = 0 then 25 else node.maxLoopIterations).toNat

/-- An LLM node in the dispatch loop. It is dispatched again if the last message has tool
calls. -/
def dispatchLlm (nested : Nested) (g : AgentGraph) (model : Str) (stream : Bool) (nodeId : Str)
    (node : NodeConfig) : Exec Str := do
  consumed (executeLlmNode nested node g model stream)
  recordUsage
  if node.loopMode = "agent" then agentRounds nested node g model stream (maxRounds node)
  if ((← ctx).messages.getLast?.map Message.toolCalls).any (!·.isEmpty) then return nodeId
  else
    modify ({ · with toolCallChainCount := 0 })
    return (g.getNextNode nodeId []).getD []

/-! ### The dispatch loop -/

/-- A node in the dispatch loop: the node that the run goes on with. -/
def executeNode (nested : Nested) (g : AgentGraph) (model input : Str) (stream : Bool)
    (nodeId : Str) (node : NodeConfig) : Exec Str := do
  let next := (g.getNextNode nodeId []).getD []
  match node.type with
  | .start => do
    seedFlowState node input
    return next
  | .llm => dispatchLlm nested g model stream nodeId node
  | .tool => do
    consumed (executeToolNode nested node g)
    return next
  | .condition => return (g.getNextNode nodeId (← executeConditionNode node)).getD []
  | .loop =>
    if ← executeLoopNode node then
      if node.loopRaises then stop .raised else return (g.loopStart node).getD next
    else return next
  | .iteration => do
    consumed (executeIterationNode nested node)
    return next
  | .variableAggregator => do
    consumed (executeVariableAggregatorNode node)
    return next
  | .humanInput => do
    if ← consumed (executeHumanInputNode node) then
      modify ({ · with stopReason := "paused_human_input" })
      stop .returned
    else return next
  | .subFlow => do
    consumed (executeSubFlowNode nested node)
    return next
  | .errorHandler => do
    executeErrorHandlerNode nested node g
    return next
  | .rag => do
    consumed (executeRagNode nested node g model)
    return next
  | .planner => do
    consumed (executePlannerNode node)
    return next
  | .verify => do
    consumed (executeVerifyNode node)
    return next
  | .acp => do
    consumed (executeAcpNode node)
    return next
  | .parallel => consumed (executeParallelNode nested g nodeId)
  | .end_ => do
    setStopReason "end_turn"
    emit ⟨.end_, "Graph execution complete"⟩
    stop .returned
  | .unknown name _ =>
    abort ("Unknown node type '" ++ name ++ "' on node '" ++ node.label ++
      "' (id=" ++ nodeId ++ ")")

/-- The loop of `_execute_graph_inner`, from a node on. -/
def dispatch (nested : Nested) (g : AgentGraph) (model input : Str) (stream : Bool) :
    ℕ → Str → Exec Unit
  | 0, _ => pure ()
  | left + 1, nodeId => do
    if nodeId = [] ∨ (← ctx).isMaxIterationsReached then pure ()
    else
      match g.getNode nodeId with
      | none => abort ("Node '" ++ nodeId ++ "' not found")
      | some node => do
        modify fun ctx =>
          { ctx with iterationCount := ctx.iterationCount + 1, currentNodeId := nodeId }
        ask (.visit node.type)
        let next ← executeNode nested g model input stream nodeId node
        dispatch nested g model input stream left next

/-! ### A run -/

def enterRun (g : AgentGraph) (maxIterations : ℤ) (parent : Option Bool) : Exec Unit := do
  let rt := (← scope).rt
  modify fun ctx => { ctx with
    maxIterations := if maxIterations = 0 then rt.maxIterations else maxIterations
    toolCallChainCount := 0
    planMode := g.planMode || ctx.planMode
    confirmationPolicy := (g.confirmationPolicy.filter (·.members ≠ [])).or ctx.confirmationPolicy
    vars := some (ctx.seeded rt.vars) }
  ask (.start parent)

/-- The input of a run becomes its first message, with what is remembered about it. -/
def addInput (input : Str) : Exec Unit := do
  addMessage { role := .user, content := input }
  if (← scope).rt.memoryEngine ∧ input ≠ [] then
    let memory ← ask .recallRelevant
    if memory ≠ [] then
      addMessage { role := .system, content := "[Relevant memory]: " ++ memory }

def dispatchAll (nested : Nested) (g : AgentGraph) (model input : Str) (stream : Bool) :
    Exec Unit := do
  modify ({ · with currentNodeId := g.startNodeId })
  let left := (← ctx).maxIterations - (← ctx).iterationCount
  dispatch nested g model input stream left.toNat g.startNodeId
  if (← ctx).isMaxIterationsReached then
    setStopReason "max_iterations"
    setError "Max iterations exceeded"
    emit ⟨.error, "Max iterations exceeded"⟩

/-- `_execute_graph_inner`. -/
def executeGraphInner (nested : Nested) (g : AgentGraph) (input : Str) (maxIterations : ℤ)
    (parent : Option Bool) (stream : Bool) : Exec Unit := do
  enterRun g maxIterations parent
  if g.validate ≠ [] then abort ("; ".toList.intercalate g.validate)
  else
    emit ⟨.start, "Starting: " ++ g.name⟩
    let input ← interpolate input
    addInput input
    let model := g.findLlmModel
    if (g.nodes.any fun n => n.2.type = .llm) ∧ model = [] then
      abort "No LLM model configured in graph"
    else dispatchAll nested g model input stream

end Exec

/-! ### Runs inside runs -/

def leaveRun : Except Stop Unit → Except Stop Unit
  | .error .returned | .error (.ended 0) => .ok ()
  | .error (.ended (runs + 1)) => .error (.ended runs)
  | r => r

structure Entry where
  rt : AgentRuntime
  graph : AgentGraph
  input : Str := []
  ctx : AgentContext := {}
  budget : Option BudgetRef := none
  maxIterations : ℤ := 0
  stream : Bool := false

def runGraph (nested : Nested) (e : Entry) (parent : Option Bool) (up : Option ℕ) :
    Program Step.Answer (Except Stop Unit × Run) :=
  (Exec.executeGraphInner nested e.graph e.input e.maxIterations parent e.stream
    { rt := e.rt, budget := e.budget.or e.rt.defaultTokenBudget, errorStops := up.map (· + 1) }
    { ctx := e.ctx }).map fun r => (leaveRun r.1, r.2)

/-- The runs inside a run whose runtime is at the depth limit: branches of its graph, which has
at most that many nodes. -/
def branchesOnly : ℕ → Nested
  | 0 => fun _ _ _ ctx _ _ => .ret (.error .raised, { ctx })
  | nodes + 1 => fun rt graph input ctx parent up =>
    runGraph (branchesOnly nodes) { rt, graph, input, ctx } parent up

/-- The runs inside a run of a graph whose runtime has a depth left. -/
def nestedAt : ℕ → AgentGraph → Nested
  | 0, g => branchesOnly g.nodes.length
  | depth + 1, _ => fun rt graph input ctx parent up =>
    runGraph (nestedAt depth graph) { rt, graph, input, ctx } parent up

/-- `execute_graph` and `execute_graph_stream`. -/
def executeGraph (e : Entry) : Program Step.Answer (Except Stop Unit × Run) :=
  runGraph (nestedAt (e.rt.process.maxSubGraphDepth - e.rt.subGraphDepth) e.graph) e none none

/-! ### An environment -/

/-- The answers of an environment in which the gateway always gives the same answer, every tool is
there and admitted, and nothing is asked back. -/
def Call.oblige (r : LLMResponse) : (call : Call) → call.Answer
  | .start _ | .visit _ | .leave | .emit _ | .trimmed _ | .storeUsage _ => ()
  | .recallRelevant | .artifactSummary | .evaluateCondition _ | .retrieve | .assertionFn => []
  | .registerTool _ | .unregisterTool _ | .readFrame _ => []
  | .artifactCompaction | .preLlm | .structuredOutput _ | .loadGraph _ | .createPlan
  | .verify => none
  | .evaluateAction => { action := .allow }
  | .chat _ _ => .answered r
  | .detectUnclosedArtifacts _ => []
  | .admission _ args _ _ => { allowed := true, args }
  | .awaitApproval _ => { freshId := [] }
  | .getTool _ => true
  | .prepareArgs _ args => .ok args
  | .execute _ _ _ => .ok []
  | .shouldCompact => false
  | .compact => { messages := [] }
  | .recordUsage _ _ => {}
  | .humanInput => .timeout
  | .planApproval => .timeout
  | .runAcpPrompt => { success := true }
  | .schedule => true

def plainProcess : Process where
  isAlnum := Char.isAlphanum
  interpolate := fun _ text => text
  policy := fun _ => none
  str := fun value => (decodeStr value).getD []
  int := fun _ => none
  dumps := fun _ => []
  uuid := []

def obligingRun (r : LLMResponse) (e : Entry) :
    List (Event Step.Answer) × Except Stop Unit × Run :=
  (executeGraph e).run (fun q _ => (q.call.oblige r, ())) ()

theorem traced_obligingRun (r : LLMResponse) (e : Entry) :
    (executeGraph e).Traced (obligingRun r e).1 (obligingRun r e).2 :=
  Program.traced_run _ _ _

end AgentStudio.Execution

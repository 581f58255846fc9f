import AgentStudio.Execution.Context
import AgentStudio.Library.Program
import AgentStudio.Runtime.Gates

/-!
# Steps of an execution

What an execution of a graph asks its environment (`Call`), and the programs that the executors of
`agent_runtime/_runtime_nodes.py` are (`Exec`). Everything outside the loop, the executors and the
context is an answer: LLM answers, tool results, admissions, approvals, what is stored, and which
of several branches goes on. A question is asked in a `Step`, with the context and the scope in
which it is asked.

An executor is an asynchronous generator: `emit` is a `yield`, and whoever consumes the events may
stop at an `ERROR` event. The dispatch loop of a run does so for most executors, and an event also
reaches the loops of the runs around it; `Scope.errorStops` is the outermost run that ends there,
counted from the run of the executor. `Stop.returned` is a `return` of an executor and
`Stop.raised` an exception that nobody catches.
-/

namespace AgentStudio.Execution

open PyText PyJson PyDict AgentStudio.Graph Programs

/-! ### Events -/

/-- The types of the events that are emitted, except for the tokens of a stream. -/
inductive EventType where
  | start
  | think
  | toolCall
  | toolResult
  | error
  | end_
  | result
  | retry
  | retrySuccess
  | checkpoint
  | safetyApproval
  | safetyTimeout
  | planApproval
  | planModeExit
  | verify
  | tokenBudgetExceeded
deriving DecidableEq

/-- `AgentEvent`, without its metadata. -/
structure AgentEvent where
  type : EventType
  content : Str := []
deriving DecidableEq

def AgentEvent.ofGate : Runtime.Event → AgentEvent
  | .pendingApproval content _ _ _ _ _ _ => ⟨.safetyApproval, content⟩
  | .approved content _ _ _ _ _ => ⟨.safetyApproval, content⟩
  | .rejected content _ _ _ => ⟨.safetyApproval, content⟩
  | .blocked content _ _ _ => ⟨.safetyApproval, content⟩
  | .safetyTimeout content _ _ _ _ => ⟨.safetyTimeout, content⟩
  | .toolResult content _ _ => ⟨.toolResult, content⟩
  | .error content _ => ⟨.error, content⟩

/-! ### Answers -/

/-- `LLMResponse`; `error` is the text of a gateway that failed, in `usage["error"]`. -/
structure LLMResponse where
  content : Str := []
  toolCalls : List ToolCall := []
  usage : Option Usage := none
  finishReason : Str := []
  error : Option Str := none

/-- An answer that is not a stream, or the text of the error that it is. -/
def LLMResponse.checked (r : LLMResponse) : Except Str LLMResponse :=
  match r.error with
  | some error =>
    if r.finishReason = "error" ∧ error ≠ [] then .error error else .ok r
  | none => .ok r

theorem LLMResponse.eq_of_checked {r r' : LLMResponse} (h : r.checked = .ok r') : r' = r := by
  unfold checked at h
  split at h
  · split_ifs at h
    exact (Except.ok.inj h).symm
  · exact (Except.ok.inj h).symm

/-- An LLM call fails, with the usage that it reported before, or is answered. -/
inductive ChatAnswer where
  | failed (error : Str) (usage : Option Usage)
  | answered (r : LLMResponse)

def ChatAnswer.usage : ChatAnswer → Option Usage
  | failed _ usage => usage
  | answered r => r.usage

/-- What is called for a tool raises a `KeyError`, raises another error, or returns. -/
inductive ToolAnswer (α : Type) where
  | keyError
  | failed (error : Str)
  | ok (value : α)

/-- The new messages of a compaction, and the usage of the LLM calls that it makes. -/
structure Compaction where
  messages : List Message
  usages : List (Option Usage) := []

/-- `TokenBudget` after a call of `record_usage`: what the loop reads of it. -/
structure BudgetStatus where
  reachesThreshold : Bool := false
  isExceeded : Bool := false
  spentTokens : Str := []
  maxTokens : Str := []

/-- What comes of the question of a `human_input` node. -/
inductive HumanDecision where
  | timeout
  | rejected (reason : Str)
  | approved (value : Json)

/-- `ExecutionPlan`, and the usage of the LLM call that makes it. -/
structure Plan where
  id : Str
  task : Str
  steps : ℤ
  risk : Str
  usage : Option Usage := none

inductive PlanDecision where
  | timeout
  | rejected
  | approved
deriving DecidableEq

/-- `VerificationResult`, with its text, and the usage of the LLM calls that make it. -/
structure Verification where
  passed : Bool
  summary : Str
  issues : Str
  score : Json
  attempt : Json
  usages : List (Option Usage) := []

/-- `AcpRunResult`. -/
structure AcpRunResult where
  success : Bool
  message : Str := []
  error : Str := []
  stopReason : Str := []

/-! ### Calls -/

/-- Where the code calls the method `execute` of a tool. -/
inductive ToolSite where
  | functionCall
  | parallelCall
  | selfRepair
  | toolNode
  | postActionCapture
deriving DecidableEq

/-- Where an executor of an LLM node calls the gateway: for its answer, in a stream or not, for an
answer in place of a broken stream, with the usage that was reported so far, and for a
self-repair. -/
inductive ChatSite where
  | answer (stream : Bool)
  | streamFallback (reported : Option Usage)
  | selfRepair
deriving DecidableEq

/-- An object `TokenBudget`. -/
abbrev BudgetRef : Type := ℕ

inductive Call where
  /-- a run starts; the flag `plan_mode` of the context that starts it, if there is one -/
  | start (parent : Option Bool)
  /-- a node is dispatched -/
  | visit (type : NodeType)
  /-- an LLM node is left after its answer, at an `ERROR` event or an exception -/
  | leave
  | emit (e : AgentEvent)
  /-- messages are dropped from the context -/
  | trimmed (dropped : List Message)
  /-- the usage of an answer is stored on the last message -/
  | storeUsage (usage : Usage)
  | recallRelevant
  | artifactSummary
  | artifactCompaction
  | evaluateAction
  | preLlm
  | chat (site : ChatSite) (model : Str)
  | structuredOutput (content : Str)
  | detectUnclosedArtifacts (content : Str)
  | admission (toolName : Str) (args : Dict) (interactive approved : Bool)
  | awaitApproval (category : Str)
  | getTool (name : Str)
  | prepareArgs (name : Str) (args : Dict)
  | execute (site : ToolSite) (name : Str) (args : Dict)
  | registerTool (args : Dict)
  | unregisterTool (args : Dict)
  | shouldCompact
  | compact
  | recordUsage (budget : BudgetRef) (usage : Usage)
  | evaluateCondition (expr : Str)
  | humanInput
  | loadGraph (flowId : Str)
  | retrieve
  | createPlan
  | planApproval
  | verify
  | runAcpPrompt
  /-- the picture in the file that a capture names, as text -/
  | readFrame (capture : Str)
  | assertionFn
  /-- which of two branches goes on -/
  | schedule

abbrev Call.Answer : Call → Type
  | start _ => Unit
  | visit _ => Unit
  | leave => Unit
  | emit _ => Unit
  | trimmed _ => Unit
  | storeUsage _ => Unit
  | recallRelevant => Str
  | artifactSummary => Str
  | artifactCompaction => Option Compaction
  | evaluateAction => Runtime.SafetyVerdict
  | preLlm => Option Str
  | chat _ _ => ChatAnswer
  | structuredOutput _ => Option (Str × Json)
  | detectUnclosedArtifacts _ => List Str
  | admission _ _ _ _ => Runtime.FunnelOutcome
  | awaitApproval _ => Runtime.Ask
  | getTool _ => Bool
  | prepareArgs _ _ => ToolAnswer Dict
  | execute _ _ _ => ToolAnswer Str
  | registerTool _ => Str
  | unregisterTool _ => Str
  | shouldCompact => Bool
  | compact => Compaction
  | recordUsage _ _ => BudgetStatus
  | evaluateCondition _ => Str
  | humanInput => HumanDecision
  | loadGraph _ => Option AgentGraph
  | retrieve => Str
  | createPlan => Option Plan
  | planApproval => PlanDecision
  | verify => Option Verification
  | runAcpPrompt => AcpRunResult
  | readFrame _ => Str
  | assertionFn => Str
  | schedule => Bool

/-! ### Scopes -/

/-- The environment variables that an execution reads, and functions that it uses as they are:
`str.isalnum`, `VariableManager.interpolate`, `ConfirmationPolicy.from_dict`, `str`, `int` and
`json.dumps` of a value, and `uuid.uuid4().hex`. -/
structure Process where
  isAlnum : Char → Bool
  interpolate : Vars → Str → Str
  policy : Dict → Option Runtime.ConfirmationPolicy
  str : Json → Str
  int : Json → Option ℤ
  dumps : Json → Str
  uuid : Str
  maxSubGraphDepth : ℕ := 8
  contextMaxMessages : ℕ := 0
  terminalAllowInterp : Bool := false

/-- `_plan_readonly_tools`. -/
def planReadonlyTools : List Str :=
  ["file_read", "file_list", "file_grep", "file_glob",
    "text_search", "text_process", "exit_plan_mode"]

/-- `AgentRuntime`; whether it has a compactor, an assertion function and so on. -/
structure AgentRuntime where
  process : Process
  maxIterations : ℤ := 25
  vars : Vars := []
  subGraphDepth : ℕ := 0
  defaultTokenBudget : Option BudgetRef := none
  safetyGateway : Bool := false
  store : Bool := false
  memoryEngine : Bool := false
  artifactManager : Bool := false
  compactor : Bool := true
  postActionAssertionFn : Bool := false

/-- On whose behalf an LLM node is executed: for the dispatch loop, before and after the answer
that the loop records; for a round of the agent loop, a `rag` node or an `error_handler` node. -/
inductive Hop where
  | dispatched
  | answered
  | agentRound
  | rag
  | errorHandler
deriving DecidableEq

structure Scope where
  rt : AgentRuntime
  budget : Option BudgetRef := none
  hop : Hop := .dispatched
  errorStops : Option ℕ := none

/-- A question with the scope and the context in which it is asked. -/
structure Step where
  scope : Scope
  ctx : AgentContext
  call : Call

abbrev Step.Answer (q : Step) : Type := q.call.Answer

/-- The context of a run and the events that it has emitted. -/
structure Run where
  ctx : AgentContext
  events : List AgentEvent := []

/-- Why an executor ends before its last line. -/
inductive Stop where
  | returned
  | ended (runs : ℕ)
  | raised
deriving DecidableEq

/-! ### Executors -/

def Exec (α : Type) : Type := Scope → Run → Program Step.Answer (Except Stop α × Run)

namespace Exec

variable {α β : Type}

instance : Monad Exec where
  pure a := fun _ s => .ret (.ok a, s)
  bind x f := fun c s => (x c s).bind fun
    | (.ok a, s') => f a c s'
    | (.error e, s') => .ret (.error e, s')

def scope : Exec Scope := fun c s => .ret (.ok c, s)

def ctx : Exec AgentContext := fun _ s => .ret (.ok s.ctx, s)

def modify (f : AgentContext → AgentContext) : Exec Unit :=
  fun _ s => .ret (.ok (), { s with ctx := f s.ctx })

/-- The end of an executor before its last line. -/
def stop (e : Stop) : Exec α := fun _ s => .ret (.error e, s)

def ask (call : Call) : Exec call.Answer := fun c s =>
  .ask ⟨c, s.ctx, call⟩ fun a => .ret (.ok a, s)

def each (xs : List α) (f : α → Exec Unit) : Exec Unit :=
  match xs with
  | [] => pure ()
  | x :: xs => do
    f x
    each xs f

/-- An executor for each element of a list, which passes a value on. -/
def foldl (f : β → α → Exec β) : β → List α → Exec β
  | b, [] => pure b
  | b, x :: xs => do foldl f (← f b x) xs

def onBehalf (hop : Hop) (x : Exec α) : Exec α := fun c s => x { c with hop } s

/-- An executor whose `return` ends it and no more. -/
def body (x : Exec Unit) : Exec Unit := fun c s => (x c s).bind fun
  | (.error .returned, s') => .ret (.ok (), s')
  | r => .ret r

/-- An executor whose events the dispatch loop consumes: it leaves the node at an `ERROR` event,
unless a loop around it does. -/
def consumed (x : Exec α) : Exec α := fun c s =>
  x { c with errorStops := some (c.errorStops.getD 0) } s

/-! ### What executors do -/

/-- A `yield`. -/
def emit (e : AgentEvent) : Exec Unit := do
  ask (.emit e)
  (fun _ s => .ret (.ok (), { s with events := s.events ++ [e] }) : Exec Unit)
  if e.type = .error then
    match (← scope).errorStops with
    | none => pure ()
    | some runs => stop (.ended runs)

/-- `ctx.error = text`. -/
def setError (text : Str) : Exec Unit := modify ({ · with error := text })

/-- `yield AgentEvent(ERROR); return`. -/
def fail (text : Str) : Exec α := do
  emit ⟨.error, text⟩
  stop .returned

/-- `ctx.error = text`, then the event and the `return`. -/
def abort (text : Str) : Exec α := do
  setError text
  fail text

/-- `add_message`. -/
def addMessage (m : Message) : Exec Unit := do
  let cap := (← scope).rt.process.contextMaxMessages
  let kept := trim cap ((← ctx).messages ++ [m])
  if kept.2 ≠ [] then ask (.trimmed kept.2)
  modify ({ · with messages := kept.1 })

/-- The variables of the run, seeded if they are not yet. -/
def vars : Exec Vars := do
  return (← ctx).seeded (← scope).rt.vars

/-- `ctx.variables.set`. -/
def setVar (name : Str) (value : Json) : Exec Unit := do
  let vars ← vars
  modify ({ · with vars := some (setItem name value vars) })

/-- `policy_from_ctx`. -/
def policy : Exec (Option Runtime.ConfirmationPolicy) := do
  return (← ctx).confirmationPolicy.bind (← scope).rt.process.policy

/-- Executors at the same time, none of which changes the context. -/
def gatherAll (xs : List (Exec α)) : Exec (List α) := fun c s =>
  (Program.gather ⟨c, s.ctx, .schedule⟩ id (xs.map fun x => (x c s).map Prod.fst)).bind fun rs =>
    .ret (rs.mapM id, s)

/-- A change of `ctx.messages[-1]`. -/
def modifyLast (f : Message → Message) : Exec Unit :=
  modify fun ctx =>
    { ctx with messages := ctx.messages.dropLast ++ (ctx.messages.getLast?.map f).toList }

/-- `ctx.variables.interpolate`. -/
def interpolate (text : Str) : Exec Str := do
  return (← scope).rt.process.interpolate (← vars) text

end Exec

end AgentStudio.Execution

import AgentStudio.Graph.Basic
import AgentStudio.Runtime.Gates
import Mathlib.Data.Rat.Defs

/-!
# The multi-agent orchestrator

The six patterns of `MultiAgentOrchestrator` in `agent_runtime/orchestrator.py`. A pattern builds
an `AgentRuntime` for each agent, runs the agent's graph on it and puts the output into the
result or into the input of the next agent.

What a run of a graph does is left to a `World`: the calls it makes, its events, the messages it
leaves, and the exception it ends with if it does. The `CallSite`s are the places of
`agent_runtime/_runtime_nodes.py` and of what it calls where an LLM or a tool is called; a call
reaches them through the runtimes that `_execute_sub_graph` and `_execute_parallel_node` build.

Every function returns, beside its result, the `Run`s it made, in the order in which they were
started. A run keeps its part in the pattern (`Role`), the runtime, the input, the outcome, the
run whose output it was fed and, in a handoff chain, what the swarm router said.

Objects that are only passed on (tool registries, gateways) are references. The plaza, the
durations of an orchestration, the prompts and models of agent configurations, which nothing
reads, and the limit on concurrent runs, which changes no outcome, are left out.
-/

namespace AgentStudio.Orchestration

open PyText PyDict PyJson

/-! ### Runtimes and their calls -/

abbrev Ref := ℕ

/-- What a pattern passes to an `AgentRuntime`. -/
structure AgentRuntime where
  toolRegistry : Option Ref
  llmGateway : Ref
  safetyGateway : Option Ref
deriving DecidableEq

/-- The runtimes that a runtime builds for parts of its graph. -/
inductive Nesting
  | subGraph
  | parallelBranch
deriving DecidableEq

def Nesting.build (rt : AgentRuntime) : Nesting → AgentRuntime
  | subGraph => ⟨rt.toolRegistry, rt.llmGateway, rt.safetyGateway⟩
  | parallelBranch => ⟨rt.toolRegistry, rt.llmGateway, rt.safetyGateway⟩

/-- A place where an LLM or a tool is called: at a gate, or without one in the planner, the
verifier, the compactor and the capture after an action. -/
inductive CallSite
  | gated (site : Runtime.Site)
  | planner
  | verifier
  | compaction
  | capture
deriving DecidableEq

def CallSite.evaluator (rt : AgentRuntime) : CallSite → Option Ref
  | gated _ => rt.safetyGateway
  | planner | verifier | compaction | capture => none

/-- A call of an LLM or a tool, and the runtimes it is nested in, from the outside. -/
structure Call where
  path : List Nesting
  site : CallSite
deriving DecidableEq

/-- The safety gateway that evaluates a call in a run. -/
def Call.evaluator (rt : AgentRuntime) (c : Call) : Option Ref :=
  c.site.evaluator (c.path.foldl Nesting.build rt)

/-! ### Runs of a graph -/

/-- `AgentEventType`. -/
inductive EventType
  | think
  | toolCall
  | toolResult
  | result
  | error
  | start
  | end_
  | token
  | thinkingToken
  | toolCallStart
  | toolCallEnd
  | safetyApproval
  | safetyTimeout
  | checkpoint
  | verify
  | tokenBudgetExceeded
  | retry
  | retrySuccess
  | planModeExit
  | planApproval
deriving DecidableEq

/-- `AgentEvent`. -/
structure AgentEvent where
  type : EventType
  content : Str := []
deriving DecidableEq

structure Message where
  role : Str
  content : Str
deriving DecidableEq

/-- `ctx.token_usage()`. -/
structure Usage where
  promptTokens : ℕ := 0
  completionTokens : ℕ := 0
  total : ℕ := 0
deriving DecidableEq

/-- What a run of a graph does, and the text of the exception it ends with if it does. -/
structure Outcome where
  calls : List Call := []
  events : List AgentEvent := []
  messages : List Message := []
  usage : Usage := {}
  duration : ℚ := 0
  raised : Option Str := none
deriving DecidableEq

/-- The run ends in an `ERROR` event. -/
def Outcome.EndsInError (out : Outcome) : Prop :=
  out.raised = none ∧ ∃ e, out.events.getLast? = some e ∧ e.type = .error

/-- `ctx.metadata`. -/
structure Metadata where
  agentName : Option Str := none
  handoffIndex : Option ℕ := none
  round : Option ℕ := none
  supervisorRound : Option ℕ := none

/-- `AgentConfig`. -/
structure AgentConfig where
  name : Str
  graph : Graph.AgentGraph

/-- What the orchestrator gets from outside: the run of a graph, by the number of runs before it;
what the swarm router says to a hop from one agent to another, where `false` blocks it; and
`str` of a JSON value. -/
structure World where
  execute : ℕ → AgentRuntime → Graph.AgentGraph → Json → Metadata → Outcome
  handoff : ℕ → Str → Str → Str → Except Str Bool
  str : Json → Str

inductive Role
  /-- An agent of `sequential`. -/
  | step
  /-- An agent of `parallel`. -/
  | worker
  /-- The master and the supervisor. -/
  | lead
  /-- An agent of `handoff`. -/
  | link
  /-- The worker that a supervisor chose. -/
  | routed
deriving DecidableEq

structure Run where
  role : Role
  agent : Str
  runtime : AgentRuntime
  input : Json
  outcome : Outcome
  fedBy : Option ℕ := none
  hop : Option (Except Str Bool) := none

/-! ### Results -/

/-- An entry of `OrchestrationResult.errors`. -/
structure ErrorEntry where
  agent : Str
  round : Option ℕ := none
  text : Str
deriving DecidableEq

def ErrorEntry.render (e : ErrorEntry) : Str :=
  e.agent ++ ((e.round.map fun n => " (round " ++ Nat.toDigits 10 n ++ [')']).getD []) ++
    ": " ++ e.text

/-- An entry of `OrchestrationResult.results`. -/
inductive ResultEntry
  | agent (agent output : Str) (events : List AgentEvent) (usage : Usage) (duration : ℚ)
  | worker (agent output : Str) (events : List AgentEvent) (usage : Usage) (duration : ℚ)
    (error : Str)
  | link (agent output : Str) (events : List AgentEvent) (usage : Usage) (duration : ℚ)
    (handoffTo : Str) (swarmBlocked : Bool)
  | decomposition (output : Str) (subTasks : List Str)
  | summary (output : Str)
  | routed (round : ℕ) (agent output : Str) (events : List AgentEvent) (usage : Usage)
    (duration : ℚ) (routedBy : Str)
  | completed (round : ℕ) (agent output : Str)
  | timeout (agent : Str)

/-- `OrchestrationResult`. -/
structure OrchestrationResult where
  results : List ResultEntry := []
  errors : List ErrorEntry := []
  summary : Json := .str []

/-- `MultiAgentOrchestrator`. -/
structure Orchestrator where
  toolRegistry : Option Ref
  llmGateway : Ref
  safetyGateway : Option Ref
  /-- A swarm router is configured. -/
  swarmRouter : Bool

/-! ### Reading the output of a run -/

/-- The last thought of a run before its end, from the events in reverse. -/
def lastThought : List AgentEvent → Option Str
  | [] => none
  | e :: es =>
    if e.type = .think ∧ e.content ≠ [] then some e.content
    else if e.type = .end_ then none
    else lastThought es

/-- The role of an LLM's messages. -/
def assistant : Str := "assistant"

/-- `_extract_final_output`. -/
def extractFinalOutput (out : Outcome) : Str :=
  ((lastThought out.events.reverse).or
    ((out.messages.reverse.find? (·.role = assistant)).map Message.content)).getD []

def strippedLines (content : Str) : List Str :=
  (content.splitOn '\n').filterMap fun line => if strip line = [] then none else some (strip line)

/-- The sub-tasks in the last message of an LLM that has any, from the messages in reverse. -/
def subTasksFrom (W : World) (expected : ℕ) : List Message → Option (List Str)
  | [] => none
  | m :: ms =>
    if m.role = assistant then
      match loads m.content with
      | some (.arr tasks) => some ((tasks.take expected).map W.str)
      | some _ => subTasksFrom W expected ms
      | none => some ((strippedLines m.content).take expected)
    else subTasksFrom W expected ms

/-- `_extract_sub_tasks`. -/
def extractSubTasks (W : World) (out : Outcome) (expected : ℕ) : List Str :=
  (subTasksFrom W expected out.messages.reverse).getD
    ((List.range expected).map fun i => "Sub-task " ++ Nat.toDigits 10 (i + 1))

def fencedLines : Bool → List Str → List Str
  | _, [] => []
  | inBlock, line :: lines =>
    if "```".toList.isPrefixOf (strip line) then fencedLines (!inBlock) lines
    else if inBlock then line :: fencedLines inBlock lines
    else fencedLines inBlock lines

/-- The first pair of braces without a brace between them. -/
def findBraces : Str → Option Str
  | [] => none
  | c :: s =>
    if c = '{' then
      match s.dropWhile fun d => d ≠ '{' && d ≠ '}' with
      | '}' :: _ => some ('{' :: s.takeWhile (fun d => d ≠ '{' && d ≠ '}') ++ ['}'])
      | _ => findBraces s
    else findBraces s

/-- `_parse_route_decision`. -/
def parseRouteDecision (output : Str) : List (Str × Json) :=
  let text := if "```" <:+: output then
      ['\n'].intercalate (fencedLines false (output.splitOn '\n')) else output
  match loads ((findBraces text).getD text) with
  | some (.obj decision) => decision
  | _ => [("worker", .str []), ("instruction", .str []), ("done", .bool false)]

/-! ### Making a run -/

/-- A run of an agent's graph, after some runs. -/
def launch (W : World) (role : Role) (rt : AgentRuntime) (a : AgentConfig) (input : Json)
    (metadata : Metadata) (fedBy : Option ℕ) (runs : List Run) : Run where
  role := role
  agent := a.name
  runtime := rt
  input := input
  outcome := W.execute runs.length rt a.graph input metadata
  fedBy := fedBy

namespace Orchestrator

variable (W : World) (o : Orchestrator)

def guardedRuntime : AgentRuntime := ⟨o.toolRegistry, o.llmGateway, o.safetyGateway⟩

/-- The runtime that `parallel` builds: its call leaves the safety gateway out. -/
def parallelRuntime : AgentRuntime := ⟨o.toolRegistry, o.llmGateway, none⟩

/-! ### Sequential -/

/-- The loop of `sequential`. -/
def sequentialFrom : List AgentConfig → Str → Option ℕ → OrchestrationResult → List Run →
    OrchestrationResult × List Run
  | [], _, _, r, runs => (r, runs)
  | a :: agents, input, fedBy, r, runs =>
    let run := launch W .step o.guardedRuntime a (.str input) { agentName := some a.name }
      fedBy runs
    match run.outcome.raised with
    | some e =>
      sequentialFrom agents input fedBy { r with errors := r.errors ++ [⟨a.name, none, e⟩] }
        (runs ++ [run])
    | none =>
      let output := extractFinalOutput run.outcome
      sequentialFrom agents output (some runs.length)
        { r with results := r.results ++ [.agent a.name output run.outcome.events
            run.outcome.usage run.outcome.duration] }
        (runs ++ [run])

/-- `sequential`. -/
def sequential (agents : List AgentConfig) (initialInput : Str) : OrchestrationResult × List Run :=
  sequentialFrom W o agents initialInput none {} []

/-! ### Parallel -/

/-- The runs of `parallel`, from the agent at an index on. -/
def parallelFrom (inputTemplate : Str) (perAgentInputs : List Str) :
    ℕ → List AgentConfig → List Run → List Run
  | _, [], runs => runs
  | i, a :: agents, runs =>
    let input := perAgentInputs[i]?.getD inputTemplate
    parallelFrom inputTemplate perAgentInputs (i + 1) agents
      (runs ++ [launch W .worker o.parallelRuntime a (.str input) { agentName := some a.name } none
        runs])

/-- The error that `run_single` returns. -/
def workerError (run : Run) : Str := run.outcome.raised.getD []

/-- What `run_single` returns. -/
def workerEntry (run : Run) : ResultEntry :=
  match run.outcome.raised with
  | some e => .worker run.agent [] [] {} 0 e
  | none => .worker run.agent (extractFinalOutput run.outcome) run.outcome.events run.outcome.usage
      run.outcome.duration []

def workerOutput (run : Run) : Str :=
  if run.outcome.raised.isSome then [] else extractFinalOutput run.outcome

def workerErrors (runs : List Run) : List ErrorEntry :=
  runs.filterMap fun run =>
    if workerError run = [] then none else some ⟨run.agent, none, workerError run⟩

/-- `parallel`, after some runs: its result, and its own runs. -/
def parallelAfter (agents : List AgentConfig) (inputTemplate : Str) (perAgentInputs : List Str)
    (runs : List Run) : OrchestrationResult × List Run :=
  let workers := (parallelFrom W o inputTemplate perAgentInputs 0 agents runs).drop runs.length
  ({ results := workers.map workerEntry, errors := workerErrors workers }, workers)

/-- `parallel`. -/
def parallel (agents : List AgentConfig) (inputTemplate : Str) (perAgentInputs : List Str) :
    OrchestrationResult × List Run :=
  parallelAfter W o agents inputTemplate perAgentInputs []

/-! ### Master and workers -/

def decomposePrompt (workers : ℕ) (task : Str) : Str :=
  "Decompose the following task into " ++ Nat.toDigits 10 workers ++
    " sub-tasks, one for each worker. Return a JSON array of sub-task descriptions.\n\n" ++
    task

def summaryPrompt (task : Str) (workers : List Run) : Str :=
  "Original task: " ++ task ++ "\n\nWorker results:\n" ++
    dumps (some 2) (.arr (workers.map fun run =>
      .obj [("worker", .str run.agent), ("output", .str (workerOutput run))])) ++
    "\n\nProvide a comprehensive summary of the results."

/-- `master_worker`. An exception of the master ends the orchestration. -/
def masterWorker (master : AgentConfig) (workers : List AgentConfig) (task : Str) :
    Except Str OrchestrationResult × List Run :=
  let first := launch W .lead o.guardedRuntime master
    (.str (decomposePrompt workers.length task)) {} none []
  match first.outcome.raised with
  | some e => (.error e, [first])
  | none =>
    let subTasks := extractSubTasks W first.outcome workers.length
    let (r, workerRuns) := parallelAfter W o workers [] subTasks [first]
    let last := launch W .lead o.guardedRuntime master (.str (summaryPrompt task workerRuns)) {}
      none (first :: workerRuns)
    let runs := first :: workerRuns ++ [last]
    match last.outcome.raised with
    | some e => (.error e, runs)
    | none =>
      let summary := extractFinalOutput last.outcome
      (.ok
        { results := .decomposition (extractFinalOutput first.outcome) subTasks :: r.results ++
            [.summary summary]
          errors := r.errors
          summary := .str summary },
        runs)

/-! ### Handoff -/

/-- `HandoffContext`. -/
structure HandoffContext where
  sender : Str
  receiver : Str
  content : Str

/-- `_format_handoff_history`. -/
def formatHandoffHistory (chain : List HandoffContext) : Str :=
  ['\n'].intercalate ("--- Handoff History ---" :: chain.flatMap fun h =>
    ['[' :: h.sender ++ " -> " ++ h.receiver ++ [']'], h.content.take 500, []])

def handoffInput (accumulated : Str) (chain : List HandoffContext) : Str :=
  if chain = [] then accumulated
  else accumulated ++ "\n\n" ++ formatHandoffHistory chain

/-- `s.upper()`, as far as it makes ASCII letters: these other characters do. -/
def upperAll (s : Str) : Str :=
  s.flatMap fun c => match c.toNat with
    | 0xDF => ['S', 'S']
    | 0x131 => ['I']
    | 0x149 => [Char.ofNat 0x2BC, 'N']
    | 0x17F => ['S']
    | 0x1F0 => ['J', Char.ofNat 0x30C]
    | 0x1E96 => ['H', Char.ofNat 0x331]
    | 0x1E97 => ['T', Char.ofNat 0x308]
    | 0x1E98 => ['W', Char.ofNat 0x30A]
    | 0x1E99 => ['Y', Char.ofNat 0x30A]
    | 0x1E9A => ['A', Char.ofNat 0x2BE]
    | 0xFB00 => ['F', 'F']
    | 0xFB01 => ['F', 'I']
    | 0xFB02 => ['F', 'L']
    | 0xFB03 => ['F', 'F', 'I']
    | 0xFB04 => ['F', 'F', 'L']
    | 0xFB05 => ['S', 'T']
    | 0xFB06 => ['S', 'T']
    | _ => [c.toUpper]

def completionMarkers : List Str :=
  ["[COMPLETE]", "[DONE]", "[TASK_COMPLETE]", "[NO_HANDOFF]"]

/-- `_is_handoff_complete`. -/
def isHandoffComplete (content : Str) : Bool :=
  completionMarkers.any fun marker => marker <:+: upperAll content

/-- What the swarm router says to the hop from an agent to the next one, if it is asked. -/
def hopTo (i : ℕ) (a : AgentConfig) (output : Str) (rest : List AgentConfig) :
    Option (Except Str Bool) :=
  match rest with
  | [] => none
  | next :: _ => if o.swarmRouter then some (W.handoff i a.name next.name output) else none

/-- The loop of `handoff`. -/
def handoffFrom : ℕ → List AgentConfig → Str → List HandoffContext → Option ℕ →
    OrchestrationResult → List Run → OrchestrationResult × List Run
  | _, [], _, _, _, r, runs => (r, runs)
  | i, a :: agents, accumulated, chain, fedBy, r, runs =>
    let run := launch W .link o.guardedRuntime a (.str (handoffInput accumulated chain))
      { agentName := some a.name, handoffIndex := some i } fedBy runs
    match run.outcome.raised with
    | some e => ({ r with errors := r.errors ++ [⟨a.name, none, e⟩] }, runs ++ [run])
    | none =>
      let output := extractFinalOutput run.outcome
      let receiver := (agents.head?.map AgentConfig.name).getD "__end__"
      let hop := hopTo W o i a output agents
      let entry := ResultEntry.link a.name output run.outcome.events run.outcome.usage
        run.outcome.duration receiver
      let runs' := runs ++ [{ run with hop }]
      let r' := { r with results := r.results ++ [entry false] }
      match hop with
      | some (.error e) => ({ r' with errors := r'.errors ++ [⟨a.name, none, e⟩] }, runs')
      | some (.ok false) => ({ r with results := r.results ++ [entry true] }, runs')
      | _ =>
        if isHandoffComplete output then (r', runs')
        else handoffFrom (i + 1) agents output (chain ++ [⟨a.name, receiver, output⟩])
          (some runs.length) r' runs'

/-- `handoff`. -/
def handoff (agents : List AgentConfig) (initialInput : Str) : OrchestrationResult × List Run :=
  handoffFrom W o 0 agents initialInput [] none {} []

/-! ### Broadcast -/

/-- `_merge_outputs` by `"concat"`. -/
def concatOutputs (outputs : List (Str × Str)) : Str :=
  "\n\n".toList.intercalate (outputs.map fun (name, output) =>
    "=== " ++ name ++ " ===\n" ++ output)

def longest : List Str → Str
  | [] => []
  | s :: ss => if s.length < (longest ss).length then longest ss else s

/-- `_merge_outputs`. -/
def mergeOutputs (outputs : List (Str × Str)) (strategy : Str) : Str :=
  if strategy = "best" then longest (outputs.map Prod.snd)
  else if strategy = "json" then
    dumps (some 2) (.obj (outputs.map fun (name, output) => (name, .str output)))
  else concatOutputs outputs

/-- `broadcast`. -/
def broadcast (agents : List AgentConfig) (inputText mergeStrategy : Str) :
    OrchestrationResult × List Run :=
  let (r, runs) := parallel W o agents inputText []
  let outputs := ofPairs (runs.map fun run => (run.agent, workerOutput run))
  ({ r with summary := .str (mergeOutputs outputs mergeStrategy) }, runs)

/-! ### Supervisor -/

structure Routing where
  worker : Str
  status : Str

def routePrompt (workers : List Str) (currentTask : Str) (history : List Routing) : Str :=
  "You are a supervisor. Available workers: [".toList ++ ", ".toList.intercalate workers ++
    "].\n\nCurrent task: " ++ currentTask ++ "\n\n" ++
    (if history = [] then [] else
      "Previous routing:\n".toList ++ (history.flatMap fun h =>
        "  - Routed to ".toList ++ h.worker ++ ": ".toList ++ h.status ++ ['\n']) ++ ['\n']) ++
    "Respond with a JSON object:\n" ++
    "\x7b\"worker\": \"<name>\", \"instruction\": \"<what to tell the worker>\", " ++
    "\"done\": true/false\x7d\n" ++
    "If the task is complete, set done=true and worker to \"__end__\"."

/-- The worker of a decision, the first one if it names none; the text of the exception if there
is none. -/
def chooseWorker (workerMap : List (Str × AgentConfig)) (worker : Json) :
    Except Str AgentConfig :=
  match worker with
  | .arr _ => .error "unhashable type: 'list'"
  | .obj _ => .error "unhashable type: 'dict'"
  | worker =>
    let named := match worker with
      | .str name => workerMap.lookup name
      | _ => none
    match named.or (workerMap.head?.map Prod.snd) with
    | some a => .ok a
    | none => .error "coroutine raised StopIteration"

/-- The rounds of `supervisor`: how many are left, and the number of the next one. An exception
of the supervisor ends the orchestration. -/
def supervisorFrom (supervisor : AgentConfig) (workerMap : List (Str × AgentConfig)) :
    ℕ → ℕ → Str → List Routing → OrchestrationResult → List Run →
    Except Str OrchestrationResult × List Run
  | 0, _, _, _, r, runs =>
    (.ok { r with results := r.results ++ [.timeout supervisor.name] }, runs)
  | left + 1, round, currentTask, history, r, runs =>
    let lead := launch W .lead o.guardedRuntime supervisor
      (.str (routePrompt (workerMap.map Prod.fst) currentTask history))
      { agentName := some supervisor.name, round := some round } none runs
    let runs := runs ++ [lead]
    match lead.outcome.raised with
    | some e => (.error e, runs)
    | none =>
      let routeOutput := extractFinalOutput lead.outcome
      let decision := parseRouteDecision routeOutput
      let worker := (decision.lookup "worker".toList).getD (.str [])
      if ((decision.lookup "done".toList).getD .null).truthy ∨
          decodeStr worker = some "__end__".toList then
        (.ok { r with
          results := r.results ++ [.completed round supervisor.name routeOutput]
          summary := (decision.lookup "instruction".toList).getD (.str routeOutput) }, runs)
      else
        match chooseWorker workerMap worker with
        | .error e => (.error e, runs)
        | .ok a =>
          let instruction := (decision.lookup "instruction".toList).getD (.str currentTask)
          let run := launch W .routed o.guardedRuntime a instruction
            { agentName := some a.name, supervisorRound := some round } none runs
          match run.outcome.raised with
          | some e =>
            supervisorFrom supervisor workerMap left (round + 1) currentTask
              (history ++ [⟨a.name, "error: " ++ e⟩])
              { r with errors := r.errors ++ [⟨a.name, some round, e⟩] } (runs ++ [run])
          | none =>
            let output := extractFinalOutput run.outcome
            supervisorFrom supervisor workerMap left (round + 1) output
              (history ++ [⟨a.name, "completed"⟩])
              { r with results := r.results ++ [.routed round a.name output run.outcome.events
                  run.outcome.usage run.outcome.duration supervisor.name] }
              (runs ++ [run])

/-- `supervisor`. -/
def supervisor (config : AgentConfig) (workers : List AgentConfig) (task : Str) (maxRounds : ℕ) :
    Except Str OrchestrationResult × List Run :=
  supervisorFrom W o config (ofPairs (workers.map fun w => (w.name, w))) maxRounds 1 task [] {} []

/-! ### Patterns -/

inductive Pattern
  | sequential (agents : List AgentConfig) (initialInput : Str)
  | parallel (agents : List AgentConfig) (inputTemplate : Str) (perAgentInputs : List Str)
  | masterWorker (master : AgentConfig) (workers : List AgentConfig) (task : Str)
  | handoff (agents : List AgentConfig) (initialInput : Str)
  | broadcast (agents : List AgentConfig) (inputText mergeStrategy : Str)
  | supervisor (config : AgentConfig) (workers : List AgentConfig) (task : Str) (maxRounds : ℕ)

/-- An orchestration: its result, or the exception it ends with, and its runs. -/
def orchestrate : Pattern → Except Str OrchestrationResult × List Run
  | .sequential agents initialInput =>
    ((sequential W o agents initialInput).map .ok id)
  | .parallel agents inputTemplate perAgentInputs =>
    ((parallel W o agents inputTemplate perAgentInputs).map .ok id)
  | .masterWorker master workers task => masterWorker W o master workers task
  | .handoff agents initialInput => ((handoff W o agents initialInput).map .ok id)
  | .broadcast agents inputText mergeStrategy =>
    ((broadcast W o agents inputText mergeStrategy).map .ok id)
  | .supervisor config workers task maxRounds => supervisor W o config workers task maxRounds

end Orchestrator

end AgentStudio.Orchestration

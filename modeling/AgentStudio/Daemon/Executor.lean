import AgentStudio.Daemon.World

/-!
# Runs of tasks

The coroutines that run tasks. `_run_graph_async` of `agent_runtime/daemon_server.py` waits before
its first step, for a slot, in the stream of the runtime, and in the broadcast that follows its
terminal evidence; the places are the constructors of `Phase`. A cancellation takes effect when it
is resumed: before the first step nothing of the body is run, up to the broadcast of the completion
it is caught by the handler of `CancelledError`, and in the broadcasts of the handlers it leaves
them. What the runtime does is in the answers: the events of its stream, and how the stream ends.

`graph.execute` runs a graph inside its request and writes the task only if the stream ends without
an exception (`SyncRun`). `_run_task_bg` of `agent_runtime/dispatchers/subagent.py` runs a sub-agent
and writes its report (`AgentRun`).

`TaskExecutor` of `agent_runtime/task_executor.py` claims pending tasks (`World.poll`). For each
claimed task `_run_one` broadcasts, dispatches the task to a sub-agent or to a background execution,
waits until its status is terminal, broadcasts again and requeues a failed task that has attempts
left (`Worker`).

`_run_chain_async` of `agent_runtime/daemon_server.py` submits one task for each step, with a
broadcast after each, then executes the steps in their order, each with the attempts that
`max_retries` allows, and broadcasts the end (`ChainRun`). A step whose attempts are used up blocks
the chain. The indices of `depends_on` that are not those of earlier steps are dropped, and a
`max_retries` of 0 counts as the default 2.
-/

namespace AgentStudio.Daemon

open PyText PyDict PyJson Tasks

/-! ### The stream of the runtime -/

/-- The types of events that the daemon tells apart. -/
inductive StreamType where
  | end_
  | error
  | toolResult
  | other
deriving DecidableEq

/-- An event of a stream, with the fields that the daemon reads: the `stop_reason` and the
`tool_error` of its metadata, and the id that `_extract_artifact_id` finds in its content. -/
structure StreamEvent where
  type : StreamType
  name : Str := []
  nodeId : Str := []
  stopReason : Option Str := none
  toolError : Bool := false
  artifactId : Str := []
deriving DecidableEq

/-- An `ERROR` event without the mark `tool_error`. -/
def StreamEvent.isError (e : StreamEvent) : Bool := e.type = .error && !e.toolError

def StreamEvent.createdArtifact (e : StreamEvent) : List Str :=
  if e.type = .toolResult ∧ e.name = "artifact_create" ∧ e.artifactId ≠ [] then
    [e.artifactId]
  else []

/-- A stream that is ended by an error: it has an `ERROR` event without the mark `tool_error`, and
no `END` event. -/
def endedByError (events : List StreamEvent) : Bool :=
  events.any StreamEvent.isError && !events.any (·.type = .end_)

/-- What is known when a stream has ended: the artifact of the run, the last text of the assistant
and the `stop_reason` of the context. -/
structure Finished where
  runArtifactId : Str := []
  output : Str := []
  stopReason : Str := []
deriving DecidableEq

/-- What a coroutine is resumed with: it is woken up, an event of the stream, its end, an exception,
the report of a sub-agent, or the end of a wait that is capped. -/
inductive Signal where
  | go
  | event (e : StreamEvent)
  | returned (f : Finished)
  | raised (text : Str)
  | report (ok : Bool) (result : Dict) (error : Str)
  | capped

/-- The answer to a coroutine: what it is resumed with, the time, the readings of the clock by each
operation on the store, whether `load_graph` finds the graph, new ids of an execution and of a
session, and the outputs of a chain step. -/
structure Answer where
  signal : Signal
  now : ℤ
  clock : ℕ → ℕ → ℤ
  found : Bool := true
  newId : Str := []
  newSession : Str := []
  outputs : Dict := Dict.empty

/-! ### Results -/

def resultOf (members : List (String × Json)) : Dict :=
  (Dict.ofMembers (members.map fun m => (m.1.toList, m.2))).getD Dict.empty

def idsJson (ids : List Str) : Json := .arr (ids.map .str)

/-! ### Executions -/

inductive Ending where
  | completed (f : Finished)
  | cancelled
  | failed (error : Str)
deriving DecidableEq

def Ending.type : Ending → EvidenceType
  | .completed _ => .completed
  | .cancelled => .cancelled
  | .failed _ => .failed

inductive Phase where
  | created
  | waitingSlot
  | streaming
  | announcing (e : Ending)
  | done
deriving DecidableEq

/-- A background execution: the parameters and the local variables of `_run_graph_async`, whether
it was cancelled since it was last resumed, and whether `_active_executions` has it. Of `events`
the source keeps the number. -/
structure Execution where
  executionId : Str
  graphId : Str := []
  sessionId : Str := []
  taskId : Str := []
  team : Str := []
  phase : Phase := .created
  cancelRequested : Bool := false
  listed : Bool := true
  events : List StreamEvent := []
  artifactIds : List Str := []
  stopReason : Str := []
deriving DecidableEq

namespace Execution

variable (x : Execution)

/-- `events_count`. -/
def eventsCount : ℕ := x.events.length

def path : Str := evidencePath x.executionId x.team

def record (type : EvidenceType) (now : ℤ) : Evidence :=
  { type, executionId := x.executionId, ts := now, eventsCount := x.eventsCount }

/-- The body of the loop over the stream. -/
def receive (e : StreamEvent) (now : ℤ) (w : World) : Execution × World :=
  let x := { x with
    events := x.events ++ [e]
    artifactIds := x.artifactIds ++ e.createdArtifact
    stopReason :=
      if e.type = .end_ then e.stopReason.getD "end_turn"
      else if e.isError then "error"
      else x.stopReason }
  (x, if x.eventsCount % 5 = 0 then
      w.writeEvidence x.path { x.record .progress now with nodeId := e.nodeId }
    else w)

/-- The stream has ended: the evidence of the completion, before its broadcast. -/
def complete (f : Finished) (now : ℤ) (w : World) : Execution × World :=
  let stopReason := if x.stopReason ≠ [] then x.stopReason
    else orDefault "end_turn" f.stopReason
  let x := { x with stopReason, phase := .announcing (.completed f) }
  (x, w.writeEvidence x.path { x.record .completed now with
    artifactIds := x.artifactIds, runArtifactId := f.runArtifactId, stopReason })

/-- The handler of `CancelledError`, before its broadcast. -/
def cancelled (now : ℤ) (w : World) : Execution × World :=
  ({ x with phase := .announcing .cancelled, cancelRequested := false },
    w.writeEvidence x.path { x.record .cancelled now with stopReason := "cancelled" })

/-- The handler of `Exception`, before its broadcast. -/
def fail (error : Str) (now : ℤ) (w : World) : Execution × World :=
  ({ x with phase := .announcing (.failed error) },
    w.writeEvidence x.path { x.record .failed now with error })

def finish : Execution := { x with phase := .done, cancelRequested := false }

def result (f : Finished) : Dict :=
  resultOf [("session_id", .str x.sessionId), ("events", .num (Number.ofInt x.eventsCount)),
    ("artifact_ids", idsJson x.artifactIds), ("execution_id", .str x.executionId),
    ("stop_reason", .str x.stopReason), ("run_artifact_id", .str f.runArtifactId),
    ("output", .str f.output)]

/-- The writeback to the task, after the broadcast. -/
def writeBack (e : Ending) (clock : ℕ → ℕ → ℤ) (w : World) : World :=
  if x.taskId = [] then w
  else
    match e with
    | .completed f =>
      ((w.addArtifacts x.taskId x.artifactIds (clock 0)).updateStatus x.taskId .completed
        (some (x.result f)) [] (clock 1)).call (.setEvidence x.taskId x.path) (clock 2)
    | .cancelled =>
      w.updateStatus x.taskId .canceled
        (some (resultOf [("stop_reason", .str "cancelled")])) [] (clock 0)
    | .failed error =>
      w.updateStatus x.taskId .failed (some (resultOf [("error", .str error)])) [] (clock 0)

/-- `_run_graph_async`, from where it waits. -/
def resume (a : Answer) (w : World) : Execution × World :=
  match x.phase with
  | .created =>
    if x.cancelRequested then (x.finish, w)
    else
      match a.signal with
      | .raised text => x.fail text a.now w
      | _ => ({ x with phase := .waitingSlot }, w)
  | .waitingSlot =>
    if x.cancelRequested then x.cancelled a.now w else ({ x with phase := .streaming }, w)
  | .streaming =>
    if x.cancelRequested then x.cancelled a.now w
    else
      match a.signal with
      | .event e => x.receive e a.now w
      | .returned f => x.complete f a.now w
      | .raised text => x.fail text a.now w
      | _ => (x, w)
  | .announcing e =>
    if x.cancelRequested then
      match e with
      | .completed _ => x.cancelled a.now w
      | _ => (x.finish, w)
    else (x.finish, x.writeBack e a.clock w)
  | .done => (x, w)

end Execution

/-! ### Runs inside a request -/

/-- Where a run inside a request waits. -/
inductive SyncPhase where
  | waitingSlot
  | streaming
  | done
deriving DecidableEq

/-- `graph.execute`: its parameters and local variables. -/
structure SyncRun where
  graphId : Str := []
  sessionId : Str := []
  taskId : Str := []
  phase : SyncPhase := .waitingSlot
  events : List StreamEvent := []
  artifactIds : List Str := []
deriving DecidableEq

namespace SyncRun

variable (x : SyncRun)

def result (f : Finished) (now : ℤ) : Dict :=
  resultOf [("session_id", .str (orDefault
      ("sess-" ++ Nat.toDigits 10 (now.toNat / 1000000)) x.sessionId)),
    ("events", .num (Number.ofInt x.events.length)), ("artifact_ids", idsJson x.artifactIds),
    ("run_artifact_id", .str f.runArtifactId)]

def writeBack (f : Finished) (a : Answer) (w : World) : World :=
  if x.taskId = [] then w
  else
    (w.addArtifacts x.taskId x.artifactIds (a.clock 0)).updateStatus x.taskId .completed
      (some (x.result f a.now)) [] (a.clock 1)

/-- `_handle_graph_execute`, from where it waits. An exception leaves it. -/
def resume (a : Answer) (w : World) : SyncRun × World :=
  match x.phase with
  | .waitingSlot => ({ x with phase := .streaming }, w)
  | .streaming =>
    match a.signal with
    | .event e =>
      ({ x with
          events := x.events ++ [e], artifactIds := x.artifactIds ++ e.createdArtifact }, w)
    | .returned f => ({ x with phase := .done }, x.writeBack f a w)
    | .raised _ => ({ x with phase := .done }, w)
    | _ => (x, w)
  | .done => (x, w)

end SyncRun

/-! ### Sub-agents -/

/-- `_run_task_bg`. -/
structure AgentRun where
  taskId : Str
  done : Bool := false
deriving DecidableEq

/-- `_run_task_bg`, when the runner has reported. -/
def AgentRun.resume (x : AgentRun) (a : Answer) (w : World) : AgentRun × World :=
  if x.done then (x, w)
  else
    match a.signal with
    | .report true result _ =>
      ({ x with done := true }, w.updateStatus x.taskId .completed (some result) [] (a.clock 0))
    | .report false result error =>
      ({ x with done := true }, w.updateStatus x.taskId .failed (some result)
        (orDefault "subagent run did not succeed" error) (a.clock 0))
    | .raised text =>
      ({ x with done := true }, w.updateStatus x.taskId .failed none text (a.clock 0))
    | _ => (x, w)

/-! ### Starting an execution -/

/-- The parameters of `graph.execute_async` and `graph.execute`, with what the event tree says about
`fork_from`. -/
structure ExecuteParams where
  graphId : Str := []
  sessionId : Str := []
  taskId : Str := []
  team : Str := "default"
  forkRun : Str := []
  forkFound : Bool := true
deriving DecidableEq

def graphNotFound (graphId : Str) : Str := "Graph not found: " ++ graphId

def newExecution (p : ExecuteParams) (a : Answer) : Execution :=
  { p with
    executionId := "exec_" ++ a.newId
    sessionId := orDefault ("sess-" ++ a.newSession) p.sessionId }

def Execution.startRecord (x : Execution) (now : ℤ) : Evidence :=
  { x.record .started now with
    graphId := x.graphId, sessionId := x.sessionId, taskId := x.taskId }

/-- The task of a new execution is set to `running`, with the evidence file. -/
def Execution.link (x : Execution) (clock : ℕ → ℕ → ℤ) (w : World) : World :=
  if x.taskId = [] then w
  else (w.updateStatus x.taskId .running none [] (clock 0)).call
    (.setEvidence x.taskId x.path) (clock 1)

/-- `_handle_graph_execute_async`: the execution that it starts, or the text of its exception. -/
def startExecution (p : ExecuteParams) (a : Answer) (w : World) : Except Str Execution × World :=
  if a.found = false then (.error (graphNotFound p.graphId), w)
  else if p.forkRun ≠ [] ∧ p.forkFound = false then
    (.error ("fork_from run not found or has no events: " ++ p.forkRun), w)
  else
    let x := newExecution p a
    (.ok x, x.link a.clock (w.writeEvidence x.path (x.startRecord a.now)))

/-! ### The executor -/

/-- `_OWNER`. -/
def executorOwner : Str := "task-executor"

/-- `get`. -/
def World.get (w : World) (taskId : Str) : Option Task × World :=
  ((w.store.getTask taskId).1, { w with store := (w.store.getTask taskId).2 })

/-- `count_by_status("pending") > 0`: of the rows in lazy mode, else of the cached tasks. -/
def World.hasPending (w : World) : Bool :=
  if w.store.lazyLoad then w.store.db.tasks.rows.any (·.status = .pending)
  else w.store.cache.any (·.2.status = .pending)

/-- The claim of a task in `_loop`, if any is pending. -/
def World.poll (w : World) (token : Str) (clock : ℕ → ℤ) : Option Task × World :=
  if w.hasPending then
    let r := w.store.dequeue "*" executorOwner token clock
    (r.1, { w with store := r.2 })
  else (none, w)

/-- Where `_run_one` waits: before its first step, in the broadcast before the dispatch, in the wait
for a terminal status, or in the broadcast at the end. -/
inductive WorkerPhase where
  | created
  | announcing (t : Task)
  | awaiting
  | finalizing (t : Task)
  | done

/-- `_run_one`. -/
structure Worker where
  taskId : Str
  phase : WorkerPhase := .created

namespace Worker

variable (x : Worker)

/-- `_finalize`, up to its broadcast. -/
def finalize (w : World) : Worker × World :=
  match w.get x.taskId with
  | (none, w) => ({ x with phase := .done }, w)
  | (some t, w) => ({ x with phase := .finalizing t }, w)

/-- `_TERMINAL_STATUSES`. -/
def terminal (status : Status) : Bool :=
  status = .completed || status = .failed || status = .canceled

/-- A look at the task in `_await_terminal`. -/
def await (w : World) : Worker × World :=
  match w.get x.taskId with
  | (none, w) => x.finalize w
  | (some t, w) => if terminal t.status then x.finalize w else ({ x with phase := .awaiting }, w)

def undispatched (error : Str) (a : Answer) (w : World) : World :=
  w.updateStatus x.taskId .failed none error (a.clock 2)

/-- `_execute_agent`: a sub-agent is started, unless the agent is not found, the request fails or it
raises an exception. -/
def executeAgent (t : Task) (a : Answer) (w : World) : List AgentRun × World :=
  if a.found = false then ([], x.undispatched ("agent not found: " ++ t.agentId) a w)
  else
    match a.signal with
    | .raised text => ([], x.undispatched ("dispatch failed: " ++ text) a w)
    | .report false _ message =>
      ([], x.undispatched (orDefault "dispatch failed" message) a w)
    | _ => ([{ taskId := x.taskId }], w.updateStatus x.taskId .running none [] (a.clock 0))

/-- `_execute_graph`: a background execution is started, in the default team. -/
def executeGraph (t : Task) (a : Answer) (w : World) : List Execution × World :=
  match startExecution { graphId := t.graphId, taskId := x.taskId } a w with
  | (.error text, w) => ([], x.undispatched ("dispatch failed: " ++ text) a w)
  | (.ok y, w) => ([y], w)

def dispatch (t : Task) (a : Answer) (w : World) : List AgentRun × List Execution × World :=
  if t.agentId ≠ [] ∧ t.graphId = [] then
    let r := x.executeAgent t a w
    (r.1, [], r.2)
  else if t.graphId ≠ [] then
    let r := x.executeGraph t a w
    ([], r.1, r.2)
  else ([], [], x.undispatched "task has neither agent_id nor graph_id" a w)

/-- The task as `_finalize` has it after its broadcast: the cached one, if it is still cached. -/
def current (t : Task) (w : World) : Task := (w.store.cache.lookup x.taskId).getD t

/-- The condition of a retry. The status was read before the broadcast, the attempts and the claim
are those of now. -/
def Requeues (t : Task) (w : World) : Prop :=
  t.status = .failed ∧ (x.current t w).retryCount < (x.current t w).maxRetries ∧
    (x.current t w).attemptToken ≠ [] ∧ (x.current t w).ownerAgent = executorOwner

instance (t : Task) (w : World) : Decidable (x.Requeues t w) := inferInstanceAs (Decidable (_ ∧ _))

/-- The end of `_finalize`, with the task that was read before the broadcast. -/
def requeue (t : Task) (a : Answer) (w : World) : World :=
  if x.Requeues t w then
    w.call (.requeue x.taskId executorOwner ("retry " ++
      (Number.ofInt ((x.current t w).retryCount + 1)).toStr ++ "/" ++
        (Number.ofInt (x.current t w).maxRetries).toStr)) (a.clock 0)
  else w

/-- `_run_one`, from where it waits, with the runs that it starts. -/
def resume (a : Answer) (w : World) : Worker × List AgentRun × List Execution × World :=
  match x.phase with
  | .created =>
    match w.get x.taskId with
    | (some t, w) =>
      if t.status = .running then ({ x with phase := .announcing t }, [], [], w)
      else ({ x with phase := .done }, [], [], w)
    | (none, w) => ({ x with phase := .done }, [], [], w)
  | .announcing t =>
    let r := x.dispatch t a w
    let next := x.await r.2.2
    (next.1, r.1, r.2.1, next.2)
  | .awaiting =>
    let next := match a.signal with
      | .capped => x.finalize w
      | _ => x.await w
    (next.1, [], [], next.2)
  | .finalizing t => ({ x with phase := .done }, [], [], x.requeue t a w)
  | .done => (x, [], [], w)

end Worker

/-! ### Chains of tasks -/

structure ChainStep where
  title : Option Str := none
  graphId : Str := []
  input : Str := "\x7b\x7d"
  role : Str := []
  dependsOn : List ℤ := []
  maxRetries : Option ℤ := none
  priority : ℤ := 0
deriving DecidableEq

/-- `int(step.get("max_retries", 2) or 2)`. -/
def ChainStep.retries (step : ChainStep) : ℤ :=
  match step.maxRetries with
  | none => 2
  | some n => if n = 0 then 2 else n

/-- Where a chain waits: in the broadcast after a submission (or before its first step), in an
attempt of a step, or in the last broadcast. -/
inductive ChainPhase where
  | submitting
  | waitingSlot (idx attempt : ℕ)
  | streaming (idx attempt : ℕ)
  | announcing (failed : Bool)
  | done
deriving DecidableEq

/-- A chain: the parameters and the local variables of `_run_chain_async`. What the source does not
keep are the events of the present attempt and the steps that were completed. -/
structure ChainRun where
  chainId : Str
  team : Str := []
  steps : List ChainStep
  idempotencyPrefix : Str
  taskIds : List Str := []
  phase : ChainPhase := .submitting
  events : List StreamEvent := []
  completed : List ℕ := []
deriving DecidableEq

namespace ChainRun

variable (c : ChainRun)

def depIds (step : ChainStep) : List Str :=
  step.dependsOn.filterMap fun i => if 0 ≤ i then c.taskIds[i.toNat]? else none

def taskOf (idx : ℕ) (step : ChainStep) : Task :=
  { Task.default with
    title := step.title.getD ("chain_step_" ++ Nat.toDigits 10 idx)
    graphId := step.graphId
    input := step.input
    team := c.team
    ownerRole := step.role
    dependsOn := c.depIds step
    maxRetries := step.retries
    idempotencyKey := c.idempotencyPrefix ++ ":step" ++ Nat.toDigits 10 idx
    priority := step.priority }

def submitStep (idx : ℕ) (step : ChainStep) (clock : ℕ → ℤ) (w : World) : ChainRun × World :=
  let r := w.store.submit (c.taskOf idx step) clock
  ({ c with taskIds := c.taskIds ++ [r.1.taskId] }, { w with store := r.2 })

/-- The error of a step without attempts left. -/
def exhausted (step : ChainStep) : Str :=
  "exhausted " ++ (Number.ofInt (step.retries + 1)).toStr ++ " attempts"

def block (taskId error : Str) (clock : ℕ → ℤ) (w : World) : ChainRun × World :=
  ({ c with phase := .announcing true }, w.updateStatus taskId .failed none error clock)

def attempt (taskId : Str) (idx n : ℕ) (clock : ℕ → ℤ) (w : World) : ChainRun × World :=
  ({ c with phase := .waitingSlot idx n, events := [] },
    w.call (.updateStatus taskId .running none [] (some n)) clock)

/-- The chain goes on with a step, or ends behind the last one. -/
def enter (idx : ℕ) (a : Answer) (w : World) : ChainRun × World :=
  match c.steps[idx]?, c.taskIds[idx]? with
  | some step, some taskId =>
    if a.found = false then
      c.block taskId ("graph not found: " ++ step.graphId) (a.clock 2) w
    else if 0 ≤ step.retries then c.attempt taskId idx 0 (a.clock 2) w
    else c.block taskId (exhausted step) (a.clock 2) w
  | _, _ => ({ c with phase := .announcing false }, w)

def result (idx n : ℕ) (outputs : Dict) : Dict :=
  resultOf [("chain_id", .str c.chainId), ("step", .num (Number.ofInt idx)),
    ("attempt", .num (Number.ofInt n)), ("outputs", outputs.toJson)]

def succeed (taskId : Str) (idx n : ℕ) (a : Answer) (w : World) : ChainRun × World :=
  { c with completed := c.completed ++ [idx] }.enter (idx + 1) a
    (w.updateStatus taskId .completed (some (c.result idx n a.outputs)) [] (a.clock 0))

def retry (step : ChainStep) (taskId : Str) (idx n : ℕ) (error : Str) (a : Answer) (w : World) :
    ChainRun × World :=
  let w := w.call (.updateStatus taskId .failed none (error.take 500) (some n)) (a.clock 0)
  if n + 1 ≤ step.retries then c.attempt taskId idx (n + 1) (a.clock 1) w
  else c.block taskId (exhausted step) (a.clock 1) w

/-- `_run_chain_async`, from where it waits. -/
def resume (a : Answer) (w : World) : ChainRun × World :=
  match c.phase with
  | .submitting =>
    match c.steps[c.taskIds.length]? with
    | some step => c.submitStep c.taskIds.length step (a.clock 0) w
    | none => c.enter 0 a w
  | .waitingSlot idx n => ({ c with phase := .streaming idx n }, w)
  | .streaming idx n =>
    match c.steps[idx]?, c.taskIds[idx]?, a.signal with
    | some _, some _, .event e => ({ c with events := c.events ++ [e] }, w)
    | some _, some taskId, .returned _ => c.succeed taskId idx n a w
    | some step, some taskId, .raised text => c.retry step taskId idx n text a w
    | _, _, _ => (c, w)
  | .announcing _ => ({ c with phase := .done }, w)
  | .done => (c, w)

end ChainRun

end AgentStudio.Daemon

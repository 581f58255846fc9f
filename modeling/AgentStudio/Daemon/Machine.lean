import AgentStudio.Daemon.Executor
import AgentStudio.Library.Coroutines
import Mathlib.Data.List.Sort

/-!
# The daemon

`DaemonServer` of `agent_runtime/daemon_server.py`, as far as it runs tasks: the coroutines over
the task store and the evidence files, the requests that start, ask and cancel them, the claims of
the executor, and what a start does after a crash.

A step of the daemon (`DaemonServer.step`) is one input: a request that only uses the task store,
another request, a poll of the executor, or a turn of a coroutine with its answer. A crash leaves
the database and the evidence files. The start that follows resets what the executor had claimed
(`startExecutor`) and then sets running tasks to what their evidence says (`reconcile`).
-/

namespace AgentStudio.Daemon

open PyText PyDict PyJson Tasks Coroutines

/-! ### Coroutines -/

inductive Coroutine where
  | execution (x : Execution)
  | sync (x : SyncRun)
  | agent (x : AgentRun)
  | chain (c : ChainRun)
  | worker (x : Worker)

def Coroutine.turn (a : Answer) (co : Coroutine) (w : World) : Turn World Coroutine :=
  match co with
  | .execution x => ⟨(x.resume a w).2, .execution (x.resume a w).1, []⟩
  | .sync x => ⟨(x.resume a w).2, .sync (x.resume a w).1, []⟩
  | .agent x => ⟨(x.resume a w).2, .agent (x.resume a w).1, []⟩
  | .chain c => ⟨(c.resume a w).2, .chain (c.resume a w).1, []⟩
  | .worker x =>
    let r := x.resume a w
    ⟨r.2.2.2, .worker r.1, r.2.1.map .agent ++ r.2.2.1.map .execution⟩

/-- The daemon: the shared state and the coroutines. -/
abbrev DaemonServer : Type := Pool World Coroutine

/-! ### Requests about executions -/

/-- The execution, if the coroutine is one that `_active_executions` has under the id. -/
def Coroutine.active (executionId : Str) : Coroutine → Option Execution
  | .execution x => if x.listed && x.executionId = executionId then some x else none
  | _ => none

/-- A change of the execution that `_active_executions` has under the id. -/
def Coroutine.modifyActive (executionId : Str) (f : Execution → Execution) :
    Coroutine → Coroutine
  | .execution x =>
    if x.listed && x.executionId = executionId then .execution (f x) else .execution x
  | co => co

/-- `bg_task.cancel()`: a coroutine that has ended is not cancelled. -/
def Execution.requestCancel (x : Execution) : Execution :=
  if x.phase = .done then x else { x with cancelRequested := true }

/-- `_active_executions` drops the execution. -/
def Execution.unlist (x : Execution) : Execution := { x with listed := false }

/-- The states that `graph.status` reports. -/
inductive RunStatus where
  | running
  | unknown
  | completed
  | failed
  | cancelled
deriving DecidableEq

def EvidenceType.runStatus : EvidenceType → RunStatus
  | .completed => .completed
  | .failed => .failed
  | .cancelled => .cancelled
  | .started | .progress => .running

/-- The answer of `graph.status`. -/
structure StatusReply where
  status : RunStatus
  eventsCount : ℕ := 0
  nodeId : Str := []
  artifactIds : List Str := []
  lastEventAt : ℤ := 0
  error : Str := []
deriving DecidableEq

inductive Reply where
  | none
  | error (text : Str)
  | started (executionId sessionId taskId : Str)
  | status (executionId : Str) (r : StatusReply)
  | cancelled (executionId : Str)
  | notFound (executionId : Str)
  | chain (chainId : Str) (steps : ℕ)
  | rejected
  | result (r : Tasks.Result)

namespace DaemonServer

variable (d : DaemonServer)

/-- `_active_executions.get(execution_id)`. -/
def active (executionId : Str) : Option Execution := d.members.findSome? (·.active executionId)

/-- A change of an execution of `_active_executions`. -/
def modifyActive (executionId : Str) (f : Execution → Execution) : DaemonServer :=
  { d with members := d.members.map (·.modifyActive executionId f) }

/-- What `graph.status` reads from the last record. -/
def reportOf (e : Evidence) : StatusReply where
  status := e.type.runStatus
  eventsCount := e.eventsCount
  artifactIds := e.artifactIds
  lastEventAt := e.ts
  error := e.error

/-- The answer of `graph.status` for an execution that is not active. -/
def statusOfEvidence (executionId team : Str) : StatusReply :=
  match (d.world.readEvidenceTail (evidencePath executionId team) 50).getLast? with
  | none => { status := .unknown, error := "execution not found" }
  | some e => reportOf e

/-- `_handle_graph_status`. -/
def graphStatus (executionId team : Str) : Reply × DaemonServer :=
  if executionId = [] then (.error "execution_id is required", d)
  else
    match d.active executionId with
    | none => (.status executionId (d.statusOfEvidence executionId team), d)
    | some x =>
      if x.phase = .done then
        (.status executionId (d.statusOfEvidence executionId team),
          if d.world.evidence (evidencePath executionId team) = [] then d
          else d.modifyActive executionId Execution.unlist)
      else
        let last := (d.world.readEvidenceTail (evidencePath executionId team) 20).getLast?
        (.status executionId
          { status := .running
            eventsCount := (last.map Evidence.eventsCount).getD 0
            nodeId := (last.map Evidence.nodeId).getD []
            lastEventAt := (last.map Evidence.ts).getD 0 }, d)

/-- `_handle_graph_cancel`. -/
def graphCancel (executionId : Str) : Reply × DaemonServer :=
  if executionId = [] then (.error "execution_id is required", d)
  else
    match d.active executionId with
    | none => (.notFound executionId, d)
    | some _ => (.cancelled executionId, d.modifyActive executionId Execution.requestCancel)

/-- `_handle_graph_execute_async`. -/
def graphExecuteAsync (p : ExecuteParams) (a : Answer) : Reply × DaemonServer :=
  match startExecution p a d.world with
  | (.error text, _) => (.error text, d)
  | (.ok x, w) =>
    (.started x.executionId x.sessionId x.taskId, { d with world := w }.spawn (.execution x))

/-- `_handle_graph_execute`, up to where it waits first. -/
def graphExecute (p : ExecuteParams) (a : Answer) : Reply × DaemonServer :=
  if a.found = false then (.error (graphNotFound p.graphId), d)
  else
    let w := if p.taskId = [] then d.world
      else d.world.updateStatus p.taskId .running none [] (a.clock 0)
    (.none, { d with world := w }.spawn
      (.sync { graphId := p.graphId, sessionId := p.sessionId, taskId := p.taskId }))

/-- `_handle_task_run_chain`. -/
def taskRunChain (team : Str) (idempotencyPrefix : Option Str) (steps : List ChainStep)
    (newId : Str) : Reply × DaemonServer :=
  if steps = [] then (.rejected, d)
  else
    let chainId := "chain_" ++ newId
    (.chain chainId steps.length, d.spawn (.chain
      { chainId, team, steps, idempotencyPrefix := idempotencyPrefix.getD chainId }))

/-- A poll of `_loop`: a claimed task gets a worker. -/
def poll (token : Str) (clock : ℕ → ℤ) : DaemonServer :=
  match d.world.poll token clock with
  | (none, w) => { d with world := w }
  | (some t, w) => { d with world := w }.spawn (.worker { taskId := t.taskId })

end DaemonServer

/-! ### A start after a crash -/

/-- The order `priority DESC, created_at DESC`. -/
def NewestFirst (a b : Task) : Prop :=
  b.priority < a.priority ∨ a.priority = b.priority ∧ b.createdAt ≤ a.createdAt

instance : DecidableRel NewestFirst := fun _ _ => inferInstanceAs (Decidable (_ ∨ _))

namespace World

variable (w : World)

/-- `list`, of a status and with a limit: from the rows in lazy mode, else from the cache. -/
def list (status : Status) (limit : ℕ) (now : ℤ) : List Task × World :=
  let s := (w.store.reapExpired now).2
  let tasks := if s.lazyLoad then s.db.tasks.rows.map fromRow else values s.cache
  (((tasks.filter (·.status = status)).insertionSort NewestFirst).take limit,
    { w with store := s })

/-- A running task, in `_reconcile_task_states`. -/
def reconcileTask (t : Task) (clock : ℕ → ℤ) : World :=
  let tail := if t.evidenceRef = [] then [] else w.readEvidenceTail t.evidenceRef 50
  match (tail.filter (·.type.terminal)).getLast? with
  | none => w.call (.setReviewState t.taskId .needsFix) clock
  | some e =>
    match e.type with
    | .completed =>
      w.updateStatus t.taskId .completed (some (resultOf [("execution_id", .str e.executionId),
        ("events", .num (Number.ofInt e.eventsCount)), ("artifact_ids", idsJson e.artifactIds),
        ("reconciled", .bool true)])) [] clock
    | .failed =>
      w.updateStatus t.taskId .failed (some (resultOf [("execution_id", .str e.executionId),
        ("error", .str e.error), ("reconciled", .bool true)])) [] clock
    | _ => w.updateStatus t.taskId .canceled none [] clock

/-- `_reconcile_task_states`. -/
def reconcile (clock : ℕ → ℕ → ℤ) : World :=
  let r := w.list .running 500 (clock 0 0)
  (r.1.zipIdx 1).foldl (fun w t => w.reconcileTask t.1 (clock t.2)) r.2

/-- The shared state that a crash leaves, with the store opened again. -/
def reopen (lazyLoad : Bool) (ttl : ℤ) : World :=
  { w with store :=
      Store.open lazyLoad w.store.db.tasks w.store.db.history w.store.db.index ttl }

end World

/-! ### Steps -/

inductive Input where
  | op (c : Tasks.Call)
  | graphExecuteAsync (p : ExecuteParams) (a : Answer)
  | graphStatus (executionId team : Str)
  | graphCancel (executionId : Str)
  | graphExecute (p : ExecuteParams) (a : Answer)
  | taskRunChain (team : Str) (idempotencyPrefix : Option Str) (steps : List ChainStep)
      (newId : Str)
  | poll (token : Str) (clock : ℕ → ℤ)
  | resume (n : ℕ) (a : Answer)
  | crash (lazyLoad : Bool) (ttl : ℤ)
  | startExecutor (clock : ℕ → ℤ)
  | reconcile (clock : ℕ → ℕ → ℤ)

def DaemonServer.step (i : Input) (d : DaemonServer) : Reply × DaemonServer :=
  match i with
  | .op c => (.result (d.world.store.step c).1, { d with world := d.world.call c.op c.clock })
  | .graphExecuteAsync p a => d.graphExecuteAsync p a
  | .graphStatus executionId team => d.graphStatus executionId team
  | .graphCancel executionId => d.graphCancel executionId
  | .graphExecute p a => d.graphExecute p a
  | .taskRunChain team idempotencyPrefix steps newId =>
    d.taskRunChain team idempotencyPrefix steps newId
  | .poll token clock => (.none, d.poll token clock)
  | .resume n a => (.none, d.resume Coroutine.turn n a)
  | .crash lazyLoad ttl => (.none, ⟨d.world.reopen lazyLoad ttl, []⟩)
  | .startExecutor clock =>
    (.none, { d with world := d.world.call (.resetOrphans executorOwner) clock })
  | .reconcile clock => (.none, { d with world := d.world.reconcile clock })

/-- The daemon on a database and the evidence files, with nothing that runs. -/
def DaemonServer.opened (lazyLoad : Bool) (tasks : Table) (history : List HistoryRow)
    (index : List IndexRow) (ttl : ℤ) (files : List (Str × List Evidence)) : DaemonServer :=
  ⟨⟨Store.open lazyLoad tasks history index ttl, files⟩, []⟩

end AgentStudio.Daemon

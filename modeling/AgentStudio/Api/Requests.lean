import AgentStudio.Api.SubmitRun
import AgentStudio.Daemon.Executor

/-!
# Requests with idempotency keys

`POST /v1/runs` and the invocation of a webhook, from `agent_runtime/api_server.py`, with the part
of `WebhookManager` that remembers idempotency keys and with `TaskExecutor` over the same task
store. A request waits in `task.submit`, whose handler suspends while it broadcasts a new task, so a
request is two steps: `Server.run` and `Server.invoke` submit the task, and `Server.finish` does
what follows the answer. The executor polls (`Server.poll`), its workers take turns
(`Server.resume`), and what has been started writes to its task (`Server.write`).

`task.submit` says in the task whether it has found an earlier one, and `v1_submit_run` looks for it
in the answer (`SubmitReply.deduped`).

Beside the state the server has five records that nothing reads: which request has got which task,
what was answered, who has created a task, what the executor has claimed, and what was started
(`starts`). The management of webhooks, the audit log and the other members of an answer are left
out.
-/

namespace AgentStudio.Requests

open PyText PyJson PyDict Tasks Daemon

/-! ### Requests -/

/-- The id of a webhook, `wh-` and a random hexadecimal number; it has no colon. -/
structure HookId where
  text : Str
  noColon : ':' ∉ text
deriving DecidableEq

/-- What takes requests with idempotency keys. -/
inductive Endpoint
  | runs
  | webhook (hookId : HookId)
deriving DecidableEq

/-- The body of `POST /v1/runs`. -/
structure RunBody where
  request : Api.RunRequest
  title : Str := []
  idempotencyKey : Str := []
  constraints : Json := .null

structure Webhook where
  name : Str
  graphId : Str
  enabled : Bool := true

/-- The invocation of a webhook: what the manager has under the id, whether the body is too large,
what `verify_signature` and `check_rate_limit` say, and the body, if it is JSON. -/
structure Invocation where
  hookId : HookId
  webhook : Option Webhook
  tooLarge : Bool := false
  signed : Bool := true
  allowed : Bool := true
  payload : Option Json := some (.obj [])
  key : Str := []

inductive Rejection
  | notFound
  | tooLarge
  | badSignature
  | rateLimited
  | notJson
  | notObject
deriving DecidableEq

def Invocation.check (i : Invocation) : Except Rejection (Webhook × Api.Members) :=
  match i.webhook with
  | none => .error .notFound
  | some webhook =>
    if webhook.enabled = false then .error .notFound
    else if i.tooLarge then .error .tooLarge
    else if i.signed = false then .error .badSignature
    else if i.allowed = false then .error .rateLimited
    else
      match i.payload with
      | none => .error .notJson
      | some (.obj payload) => .ok (webhook, payload)
      | some _ => .error .notObject

/-- What follows when the task of a request has been submitted: the end of `v1_submit_run`, or the
graph of a webhook. -/
inductive Plan
  | run (r : Api.RunRequest) (spec : Api.Members) (sandbox : Option Str)
  | webhook (hookId : HookId) (graphId : Str)

def Plan.endpoint : Plan → Endpoint
  | .run _ _ _ => .runs
  | .webhook hookId _ => .webhook hookId

/-- The request runs the task itself: its plan has a specification, a graph or a node of the
cluster. -/
def Plan.executes : Plan → Bool
  | .run r spec sandbox => decide (spec ≠ [] ∨ r.graphId ≠ [] ∨ sandbox ≠ none)
  | .webhook _ graphId => decide (graphId ≠ [])

/-! ### The submitted tasks -/

/-- `int(constraints[key])`, or 0 without the key. -/
def constraintInt (constraints : Json) (key : String) : Except Api.ApiError ℤ :=
  match constraints with
  | .obj members =>
    match members.lookup key.toList with
    | none => .ok 0
    | some value =>
      match pyInt value with
      | none => .error { code := .uncaught }
      | some n => .ok n
  | _ => .ok 0

/-- `raw` of a sandbox. -/
def rawSandbox (value : Str) : Str :=
  orDefault "local" (strip (orDefault "local" value))

/-- The task that `v1_submit_run` submits. A request that runs the task itself owns it. -/
def RunBody.task (b : RunBody) (plan : Plan) (priority maxRetries : ℤ) : Task :=
  let goal := strip b.request.goal
  { Task.default with
    title := orDefault (goal.take 80) b.title
    description := goal
    agentId := b.request.agentId
    graphId := b.request.graphId
    trigger := .immediate
    input := goal
    status := .pending
    idempotencyKey := b.idempotencyKey
    sandbox := rawSandbox b.request.sandbox
    ownerAgent := if plan.executes then "api" else []
    priority
    maxRetries }

/-- `v1_submit_run`, up to `task.submit`. -/
def RunBody.prepare (b : RunBody) (d : Api.Daemon) : Except Api.ApiError (Task × Plan) :=
  if strip b.request.goal = [] then .error { code := .paramRequired, param := "goal" }
  else do
    let spec ← Api.mergeSpec b.request
    let spec ← Api.checkSpec spec
    let spec ← d.narrowTools b.request.agentId spec
    let sandbox ← Api.parseSandbox b.request.sandbox
    let priority ← constraintInt b.constraints "priority"
    let maxRetries ← constraintInt b.constraints "max_retries"
    let plan := Plan.run b.request spec sandbox
    .ok (b.task plan priority maxRetries, plan)

/-- The text that a webhook runs on: `input` or `goal` of the payload. -/
def goalOf (d : Api.Daemon) (payload : Api.Members) : Str :=
  let input := Api.getD payload "input" .null
  let goal := Api.getD payload "goal" .null
  strip (d.text (if input.truthy then input else if goal.truthy then goal else .str []))

/-- The task that `v1_invoke_webhook` submits. It has no owner. -/
def Webhook.task (webhook : Webhook) (d : Api.Daemon) (hookId : HookId) (payload : Api.Members)
    (key : Str) : Task :=
  let goal := goalOf d payload
  { Task.default with
    title := "webhook:" ++ webhook.name
    description := orDefault ("webhook trigger " ++ hookId.text) goal
    graphId := webhook.graphId
    trigger := .other "webhook" (by decide)
    input := orDefault ((dumps none (.obj payload)).take 2000) goal
    status := .pending
    idempotencyKey := key }

/-- The answer of `task.submit`: the members of the task have the mark `deduped`. -/
structure SubmitReply where
  task : Task
  taskDeduped : Bool

/-- `res.get("deduped")`: the answer itself has no such member. -/
def SubmitReply.deduped (_ : SubmitReply) : Bool := false

/-! ### The server -/

/-- A request with its task: the request answers with the id, unless it answers with an error. -/
structure Ticket where
  endpoint : Endpoint
  key : Str
  runId : Str
deriving DecidableEq

/-- A request that waits for `task.submit`, with the answer that it gets. -/
structure Request where
  key : Str
  reply : SubmitReply
  plan : Plan

/-- `run_id`. -/
def Request.runId (r : Request) : Str := r.reply.task.taskId

def Request.ticket (r : Request) : Ticket := ⟨r.plan.endpoint, r.key, r.runId⟩

/-- Who starts an execution: a request, or the executor in an attempt at the task, numbered by the
retries before it. -/
inductive Starter
  | request
  | executor (attempt : ℤ)
deriving DecidableEq

structure Start where
  task : Str
  starter : Starter
deriving DecidableEq

/-- A worker of the executor, with the number of retries before its attempt. -/
structure Attempt where
  worker : Worker
  attempt : ℤ

def Attempt.key (x : Attempt) : Str × ℤ := (x.worker.taskId, x.attempt)

/-- The server: the store with the evidence files, the idempotency keys of the webhooks with a run
and a time each, the requests that wait and the workers; then the records. -/
structure Server where
  world : World
  idempotency : List (Str × Str × ℤ)
  requests : List Request
  workers : List Attempt
  tickets : List Ticket
  answers : List Ticket
  created : List (Str × Endpoint)
  claims : List (Str × ℤ)
  starts : List Start

def Server.opened (lazyLoad : Bool) (ttl : ℤ) : Server where
  world := ⟨Store.open lazyLoad Table.empty [] [] ttl, []⟩
  idempotency := []
  requests := []
  workers := []
  tickets := []
  answers := []
  created := []
  claims := []
  starts := []

/-! ### The idempotency keys of webhooks -/

/-- `IDEMPOTENCY_WINDOW_S`, in microseconds. -/
def idempotencyWindow : ℤ := 600000000

/-- `f"{hook_id}:{idem_key}"`. -/
def cacheKey (hookId : HookId) (key : Str) : Str := hookId.text ++ ':' :: key

/-- `idempotent_run_id`: the run of a key, with the keys that are left. -/
def idempotentRunId (key : Str) (now : ℤ) (keys : List (Str × Str × ℤ)) :
    Str × List (Str × Str × ℤ) :=
  match keys.lookup key with
  | none => ([], keys)
  | some (runId, ts) =>
    if idempotencyWindow < now - ts then ([], pop key keys) else (runId, keys)

/-- `record_idempotency`. -/
def recordIdempotency (key runId : Str) (now : ℤ) (keys : List (Str × Str × ℤ)) :
    List (Str × Str × ℤ) :=
  setItem key (runId, now) (keys.filter fun m => decide (¬ idempotencyWindow < now - m.2.2))

namespace Server

variable (s : Server)

/-! ### The first half of a request -/

/-- A request waits with its task; the task is new if it is not marked. -/
def accept (q : Request) : Server :=
  { s with
    requests := s.requests ++ [q]
    tickets := s.tickets ++ [q.ticket]
    created := if q.reply.taskDeduped then s.created
      else s.created ++ [(q.runId, q.plan.endpoint)] }

/-- `task.submit`. -/
def submit (key : Str) (t : Task) (plan : Plan) (clock : ℕ → ℤ) : Server :=
  let r := s.world.store.submit t clock
  { s with world := { s.world with store := r.2 } }.accept
    { key, reply := ⟨r.1, r.2.db.lastSubmitDeduped⟩, plan }

/-- `v1_submit_run`, up to `task.submit`. -/
def run (d : Api.Daemon) (b : RunBody) (clock : ℕ → ℤ) : Server :=
  match b.prepare d with
  | .error _ => s
  | .ok (t, plan) => s.submit b.idempotencyKey t plan clock

def answered (ticket : Ticket) : Server := { s with answers := s.answers ++ [ticket] }

/-- The run that the manager remembers for an invocation, with the keys that are left. -/
def remembered (i : Invocation) (now : ℤ) : Str × List (Str × Str × ℤ) :=
  if i.key = [] then ([], s.idempotency)
  else idempotentRunId (cacheKey i.hookId i.key) now s.idempotency

/-- `v1_invoke_webhook`, up to `task.submit`: a key that the manager remembers is answered at once.
-/
def invoke (d : Api.Daemon) (i : Invocation) (now : ℤ) (clock : ℕ → ℤ) : Server :=
  match i.check with
  | .error _ => s
  | .ok (webhook, payload) =>
    let r := s.remembered i now
    let s := { s with idempotency := r.2 }
    if r.1 ≠ [] then
      let ticket : Ticket := ⟨.webhook i.hookId, i.key, r.1⟩
      { s with tickets := s.tickets ++ [ticket] }.answered ticket
    else
      s.submit i.key (webhook.task d i.hookId payload i.key) (.webhook i.hookId webhook.graphId)
        clock

/-! ### The second half -/

def started (task : Str) (starter : Starter) : Server :=
  { s with starts := s.starts ++ [⟨task, starter⟩] }

/-- `graph.execute_async` of a request: an exception is logged. -/
def executeGraph (runId graphId : Str) (a : Answer) : Server :=
  match startExecution { graphId, taskId := runId } a s.world with
  | (.error _, w) => { s with world := w }
  | (.ok _, w) => { s with world := w }.started runId .request

/-- The end of `v1_submit_run`. A request that fails does not answer with its run. -/
def finishRun (d : Api.Daemon) (delegation : Option Str) (r : Request) (request : Api.RunRequest)
    (spec : Api.Members) (sandbox : Option Str) (a : Answer) : Server :=
  match d.dispatch ⟨r.runId, r.reply.deduped, delegation⟩ request spec sandbox with
  | .error e => { s with world := s.world.updateStatus r.runId .failed none e.detail (a.clock 0) }
  | .ok (.subagent _) =>
    ({ s with world := s.world.updateStatus r.runId .running none [] (a.clock 0) }.started r.runId
      .request).answered r.ticket
  | .ok (.delegated _) => (s.started r.runId .request).answered r.ticket
  | .ok .graph => (s.executeGraph r.runId request.graphId a).answered r.ticket
  | .ok .queued => s.answered r.ticket
  | .ok .nothing => s.answered r.ticket

/-- The end of `v1_invoke_webhook`. -/
def finishInvoke (r : Request) (hookId : HookId) (graphId : Str) (a : Answer) : Server :=
  let s := { s with
    idempotency :=
      if r.key ≠ [] ∧ r.runId ≠ [] then
        recordIdempotency (cacheKey hookId r.key) r.runId a.now s.idempotency
      else s.idempotency }
  (if graphId ≠ [] ∧ r.runId ≠ [] then s.executeGraph r.runId graphId a else s).answered r.ticket

/-- The request at a place has the answer of `task.submit`, and ends. -/
def finish (n : ℕ) (d : Api.Daemon) (delegation : Option Str) (a : Answer) : Server :=
  match s.requests[n]? with
  | none => s
  | some r =>
    let s := { s with requests := s.requests.eraseIdx n }
    match r.plan with
    | .run request spec sandbox => s.finishRun d delegation r request spec sandbox a
    | .webhook hookId graphId => s.finishInvoke r hookId graphId a

/-! ### The executor -/

/-- The row that a poll has claimed, with its retries. -/
def claimOf (w w' : World) : List (Str × ℤ) :=
  match w.store.db.candidate "*" with
  | none => []
  | some r =>
    if w.hasPending && (w'.store.db.tasks.find r.taskId).any (·.ownerAgent = executorOwner) then
      [(r.taskId, r.retryCount)]
    else []

/-- A poll of `_loop`: a claimed task gets a worker. -/
def poll (token : Str) (clock : ℕ → ℤ) : Server :=
  let r := s.world.poll token clock
  { s with
    world := r.2
    claims := s.claims ++ claimOf s.world r.2
    workers := s.workers ++ r.1.toList.map fun t => ⟨{ taskId := t.taskId }, t.retryCount⟩ }

def resume (n : ℕ) (a : Answer) : Server :=
  match s.workers[n]? with
  | none => s
  | some x =>
    let r := x.worker.resume a s.world
    let starts := if r.2.1.isEmpty && r.2.2.1.isEmpty then []
      else [⟨x.worker.taskId, .executor x.attempt⟩]
    { s with
      world := r.2.2.2
      workers := s.workers.set n { x with worker := r.1 }
      starts := s.starts ++ starts }

end Server

/-! ### Steps -/

/-- What a run that has been started writes to its task. -/
inductive Write
  | status (status : Status) (notPending : status ≠ .pending) (lastResult : Option Dict)
      (lastError : Str)
  | artifacts (artifactIds : List Str)
  | evidence (evidenceRef : Str)

def Write.op (taskId : Str) : Write → Op
  | .status st _ lastResult lastError => .updateStatus taskId st lastResult lastError none
  | .artifacts artifactIds => .addArtifacts taskId artifactIds
  | .evidence evidenceRef => .setEvidence taskId evidenceRef

/-- A step of the server. What runs write to their tasks, and when, is left open. -/
inductive Input
  | run (d : Api.Daemon) (b : RunBody) (clock : ℕ → ℤ)
  | invoke (d : Api.Daemon) (i : Invocation) (now : ℤ) (clock : ℕ → ℤ)
  | finish (n : ℕ) (d : Api.Daemon) (delegation : Option Str) (a : Answer)
  | poll (token : Str) (clock : ℕ → ℤ)
  | resume (n : ℕ) (a : Answer)
  | write (taskId : Str) (write : Write) (clock : ℕ → ℤ)

def Server.step (i : Input) (s : Server) : Unit × Server :=
  match i with
  | .run d b clock => ((), s.run d b clock)
  | .invoke d i now clock => ((), s.invoke d i now clock)
  | .finish n d delegation a => ((), s.finish n d delegation a)
  | .poll token clock => ((), s.poll token clock)
  | .resume n a => ((), s.resume n a)
  | .write taskId write clock =>
    ((), { s with world := s.world.call (write.op taskId) clock })

end AgentStudio.Requests

import AgentStudio.Library.Dict
import AgentStudio.Library.Machine
import AgentStudio.Library.Text

/-!
# Registries of approval requests

A run that needs an approval makes a future and waits for it (`_await_safety_approval` of
`agent_runtime/_runtime_safety.py`). The runtime keeps the future in `_safety_futures` and its key
with the execution; the safety gateway, where there is one, keeps the future in `_pending_approvals`
and lists the action in `_pending_action_approvals` (`agent_runtime/safety.py`). An evaluation of
the gateway lists an action as well, whether or not a run asks for it then.

`approve_action` and `reject_action` of the gateway settle an action that is listed as pending;
those of the runtime go through the gateway, and use the futures of the runtime where there is none.
`_reap_exec_futures` (`agent_runtime/runtime.py`) drops the futures of an execution at its end.

The runs and the callers share one event loop: an `ApprovalOp` is what happens between two places
where something waits. A future is named by the place of its request. What the guard answers is an
argument; without a guard it confirms everything.
-/

namespace AgentStudio.Runtime

open PyText PyDict

/-! ### Requests -/

/-- An `asyncio.Future`. -/
inductive FutureState
  | pending
  | result (approved : Bool)
  | cancelled
deriving DecidableEq

/-- Where `_await_safety_approval` is: it waits for the future, it goes on after a timeout that
counts as an approval, or it has come to its end. -/
inductive ApprovalStage
  | waiting
  | autoApproved
  | ended
deriving DecidableEq

/-- A call of `_await_safety_approval` that asks, with its future. -/
structure ApprovalRequest where
  execId : Str
  actionId : Str
  future : FutureState
  stage : ApprovalStage
deriving DecidableEq

namespace ApprovalRequest

variable (r : ApprovalRequest)

/-- `if not fut.done(): fut.set_result(approved)`. -/
def setResult (approved : Bool) : ApprovalRequest :=
  if r.future = .pending then { r with future := .result approved } else r

/-- `fut.cancel()`. -/
def cancel : ApprovalRequest :=
  if r.future = .pending then { r with future := .cancelled } else r

/-- The run waits, and nothing has settled its future. -/
def Waits : Prop := r.stage = .waiting ∧ r.future = .pending

instance : Decidable r.Waits := inferInstanceAs (Decidable (_ ∧ _))

end ApprovalRequest

/-! ### The gateway -/

inductive ActionStatus
  | pending
  | approved
  | rejected
deriving DecidableEq

/-- What an action is about: a content, or a change. -/
inductive ActionSubject
  | content (text : Str)
  | change (original proposed diff : Str)

/-- An entry of `_pending_action_approvals`. -/
structure PendingAction where
  category : Str
  subject : ActionSubject
  level : Str
  status : ActionStatus

/-- The registries of a `SafetyGateway`. -/
structure ApprovalGateway where
  pendingApprovals : List (Str × ℕ)
  pendingActionApprovals : List (Str × PendingAction)

/-- What `_await_safety_approval` asks with; the verdict may come from an evaluation that has listed
the action. -/
structure ApprovalCall where
  execId : Str
  actionId : Str
  category : Str
  level : Str
  reason : Str
  evaluated : Option ActionSubject

def ActionStatus.ofAnswer (approved : Bool) : ActionStatus :=
  if approved then .approved else .rejected

namespace ApprovalGateway

variable (g : ApprovalGateway)

def status (actionId : Str) : Option ActionStatus :=
  (g.pendingActionApprovals.lookup actionId).map PendingAction.status

/-- `get_pending_actions`. -/
def getPendingActions : List (Str × PendingAction) :=
  g.pendingActionApprovals.filter (·.2.status = .pending)

/-- `evaluate_action` and `generate_diff_preview` list an action as pending. -/
def register (actionId category level : Str) (subject : ActionSubject) : ApprovalGateway :=
  { g with
    pendingActionApprovals :=
      setItem actionId ⟨category, subject, level, .pending⟩ g.pendingActionApprovals }

/-- What a request does to the gateway: `setdefault` keeps an action that is listed. -/
def request (q : ApprovalCall) (future : ℕ) : ApprovalGateway where
  pendingApprovals := setItem q.actionId future g.pendingApprovals
  pendingActionApprovals :=
    (if g.status q.actionId = none then g.register q.actionId q.category q.level (.content q.reason)
      else g).pendingActionApprovals

/-- What `approve_action` and `reject_action` have in common, with the answer of the guard: whether
the action has been settled, the gateway, and the requests. -/
def settle (approved confirmed : Bool) (actionId : Str) (requests : List ApprovalRequest) :
    Bool × ApprovalGateway × List ApprovalRequest :=
  match g.pendingActionApprovals.lookup actionId with
  | none => (false, g, requests)
  | some action =>
    if confirmed ∧ action.status = .pending then
      (true,
        { g with
          pendingActionApprovals := setItem actionId
            { action with status := .ofAnswer approved } g.pendingActionApprovals },
        match g.pendingApprovals.lookup actionId with
        | some i => requests.modify i (·.setResult approved)
        | none => requests)
    else (false, g, requests)

/-- `SafetyGateway.approve_action`. -/
def approveAction (confirmed : Bool) (actionId : Str) (requests : List ApprovalRequest) :
    Bool × ApprovalGateway × List ApprovalRequest := g.settle true confirmed actionId requests

/-- `SafetyGateway.reject_action`. -/
def rejectAction (confirmed : Bool) (actionId : Str) (requests : List ApprovalRequest) :
    Bool × ApprovalGateway × List ApprovalRequest := g.settle false confirmed actionId requests

end ApprovalGateway

/-- The gateway after the evaluation before a request, if there was one. -/
def ApprovalCall.listed (q : ApprovalCall) (g : ApprovalGateway) : ApprovalGateway :=
  match q.evaluated with
  | some subject => g.register q.actionId q.category q.level subject
  | none => g

/-! ### The runtime -/

/-- The registries of a runtime, with those of its gateway, and all requests so far. -/
structure ApprovalRuntime where
  gateway : Option ApprovalGateway
  safetyFutures : List (Str × ℕ)
  execFutureKeys : List (Str × List Str)
  requests : List ApprovalRequest

namespace ApprovalRuntime

variable (s : ApprovalRuntime)

/-- `_register_exec_future`. -/
def registerExecFuture (execId key : Str) : ApprovalRuntime :=
  let keys := (s.execFutureKeys.lookup execId).getD []
  { s with
    execFutureKeys :=
      setItem execId (if key ∈ keys then keys else keys ++ [key]) s.execFutureKeys }

/-- The beginning of `_await_safety_approval`, with the evaluation of the gateway right before it if
that has listed the action. -/
def request (q : ApprovalCall) : ApprovalRuntime :=
  let future := s.requests.length
  { s.registerExecFuture q.execId q.actionId with
    gateway := s.gateway.map fun g => (q.listed g).request q future
    safetyFutures := setItem q.actionId future s.safetyFutures
    requests := s.requests ++ [⟨q.execId, q.actionId, .pending, .waiting⟩] }

/-- `_safety_futures.pop(action_id, None)`, with the result for a future that is not done. -/
def popFuture (approved : Bool) (actionId : Str) : ApprovalRuntime :=
  match s.safetyFutures.lookup actionId with
  | none => s
  | some i =>
    { s with
      safetyFutures := pop actionId s.safetyFutures
      requests := s.requests.modify i (·.setResult approved) }

def gatewaySettle (approved confirmed : Bool) (actionId : Str) : Bool × ApprovalRuntime :=
  match s.gateway with
  | none => (false, s)
  | some g =>
    let (ok, g, requests) := g.settle approved confirmed actionId s.requests
    (ok, { s with gateway := some g, requests })

/-- What `approve_action` and `reject_action` of the runtime have in common. -/
def settle (approved confirmed : Bool) (actionId : Str) : Bool × ApprovalRuntime :=
  match s.gateway with
  | some _ =>
    let (ok, s) := s.gatewaySettle approved confirmed actionId
    if ok then (true, s.popFuture approved actionId) else (false, s)
  | none =>
    match s.safetyFutures.lookup actionId with
    | some _ => (true, s.popFuture approved actionId)
    | none => (false, s)

/-- `AgentRuntime.approve_action`. -/
def approveAction (confirmed : Bool) (actionId : Str) : Bool × ApprovalRuntime :=
  s.settle true confirmed actionId

/-- `AgentRuntime.reject_action`. -/
def rejectAction (confirmed : Bool) (actionId : Str) : Bool × ApprovalRuntime :=
  s.settle false confirmed actionId

def getPendingActions : List (Str × PendingAction) :=
  (s.gateway.map ApprovalGateway.getPendingActions).getD []

/-- A request goes on to another stage and drops the entry of its action. -/
def leave (i : ℕ) (r : ApprovalRequest) (drop : Bool) : ApprovalRuntime :=
  { s with
    safetyFutures := if drop then pop r.actionId s.safetyFutures else s.safetyFutures
    requests := s.requests.set i r }

/-- The run goes on: its future is done, or the time after which it counts as approved is over. A
cancelled future raises an exception, which drops nothing. -/
def resume (i : ℕ) : ApprovalRuntime :=
  match s.requests[i]? with
  | none => s
  | some r =>
    match r.stage, r.future with
    | .waiting, .result _ => s.leave i { r with stage := .ended } true
    | .waiting, .cancelled => s.leave i { r with stage := .ended } false
    | .autoApproved, _ => s.leave i { r with stage := .ended } true
    | _, _ => s

/-- The wait is over without an answer; `approve` is the disposition that counts as an approval. -/
def timeout (i : ℕ) (approve : Bool) : ApprovalRuntime :=
  match s.requests[i]? with
  | none => s
  | some r =>
    if r.stage = .waiting then
      s.leave i { r.cancel with stage := if approve then .autoApproved else .ended } true
    else s

/-- The run is stopped where it is: in its wait, which cancels the future, or where it has handed
out the event that asks. -/
def abandon (i : ℕ) (inWait : Bool) : ApprovalRuntime :=
  match s.requests[i]? with
  | none => s
  | some r => s.leave i { (if inWait then r.cancel else r) with stage := .ended } false

/-- The loop of `_reap_exec_futures` for a key. -/
def reapKey (key : Str) : ApprovalRuntime :=
  match s.safetyFutures.lookup key with
  | none => s
  | some i =>
    { s with
      safetyFutures := pop key s.safetyFutures
      requests := s.requests.modify i ApprovalRequest.cancel }

/-- `_reap_exec_futures`. -/
def reap (execId : Str) : ApprovalRuntime :=
  ((s.execFutureKeys.lookup execId).getD []).foldl reapKey
    { s with execFutureKeys := pop execId s.execFutureKeys }

end ApprovalRuntime

/-! ### Steps -/

/-- What happens between two places where something waits. -/
inductive ApprovalOp
  | evaluate (actionId category level : Str) (subject : ActionSubject)
  | request (q : ApprovalCall)
  | registerPlan (execId planId : Str)
  | settle (approved confirmed : Bool) (actionId : Str)
  | gatewaySettle (approved confirmed : Bool) (actionId : Str)
  | resume (i : ℕ)
  | timeout (i : ℕ) (approve : Bool)
  | abandon (i : ℕ) (inWait : Bool)
  | reap (execId : Str)

def approvalStep : ApprovalOp → ApprovalRuntime → Bool × ApprovalRuntime
  | .evaluate actionId category level subject, s =>
    (true, { s with gateway := s.gateway.map (·.register actionId category level subject) })
  | .request q, s => (true, s.request q)
  | .registerPlan execId planId, s => (true, s.registerExecFuture execId planId)
  | .settle approved confirmed actionId, s => s.settle approved confirmed actionId
  | .gatewaySettle approved confirmed actionId, s => s.gatewaySettle approved confirmed actionId
  | .resume i, s => (true, s.resume i)
  | .timeout i approve, s => (true, s.timeout i approve)
  | .abandon i inWait, s => (true, s.abandon i inWait)
  | .reap execId, s => (true, s.reap execId)

/-- A runtime before its first request, with or without a gateway. -/
def ApprovalRuntime.opened (gateway : Bool) : ApprovalRuntime where
  gateway := if gateway then some ⟨[], []⟩ else none
  safetyFutures := []
  execFutureKeys := []
  requests := []

end AgentStudio.Runtime

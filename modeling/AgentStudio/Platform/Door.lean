import AgentStudio.Library.Json
import AgentStudio.Library.Machine
import AgentStudio.Library.Rows

/-!
# Capabilities and their door

The list `CAPABILITIES` of `agent_runtime/agent_platform/capabilities.py`: what an agent may call,
and how it is dispatched. `getCapability` finds the first entry with an id. `Change` is what may
happen to the list while the daemon runs, when plugins, skills or connectors come and go: an entry
is added or removed, or its status is set. `validateParams` is the check of the arguments at the
door; the descriptions of the parameters are objects with a type and a flag `required`.

`CapabilityDoor` of `agent_runtime/agent_platform/door.py` with its approval store, the publish
registry of `publish_registry.py`, and the life cycle of the agents as far as these two see it. A
`call` is admitted or denied at once (`Door.judge`): a mutation is queued as an approval request, a
read is dispatched. `approve` dispatches the mutation of a request and records the decision when the
dispatch has returned, so between the two there is a `Flight`, and any number of other steps.

`operate` is one step: an operation up to its first dispatch, the end of a dispatch with what the
host has answered, or a change of the capabilities, agents or registry. The door has a log beside
its state, which no operation reads: the dispatches of requests, their failures, and the decisions.
-/

namespace AgentStudio.Platform

open PyText PyJson PyDict Rows

/-! ### Capabilities -/

inductive Source where
  | rest
  | connector
  | skill
  | node
  | mcp
  | rag
deriving DecidableEq

def Source.text : Source → Str
  | .rest => "rest"
  | .connector => "connector"
  | .skill => "skill"
  | .node => "node"
  | .mcp => "mcp"
  | .rag => "rag"

/-- The dispatch target of a capability; `none` is an empty route. -/
inductive Route where
  | rest (module method path : Str)
  | node (node : Str)
  | rag (kb : Str)
  | skill (skill : Str)
  | connector (connector channel : Str)
  | mcp (server tool : Str)
  | none
deriving DecidableEq

structure ParamSpec where
  type : Str := "string"
  required : Bool := false
deriving DecidableEq

structure Params where
  properties : List (Str × ParamSpec) := []
  required : List Str := []
  isOpen : Bool := false
deriving DecidableEq

/-- `"active"`. -/
def activeStatus : Str := "active"

/-- `"disabled"`. -/
def disabledStatus : Str := "disabled"

/-- An entry of the registry; `plugin` is the plugin of its provenance. -/
structure Capability where
  id : Str
  source : Source
  mutation : Bool := false
  writeClass : Option Str := none
  params : Params := {}
  route : Route := .none
  plugin : Option Str := none
  status : Str := activeStatus
deriving DecidableEq

/-- `CAPABILITIES`. -/
abbrev Capabilities := List Capability

/-- `get_capability`. -/
def getCapability (caps : Capabilities) (capabilityId : Str) : Option Capability :=
  caps.find? (·.id = capabilityId)

/-- `set_status`: the first entry with the id. -/
def setStatus (capabilityId status : Str) : Capabilities → Capabilities
  | [] => []
  | c :: caps =>
    if c.id = capabilityId then { c with status } :: caps
    else c :: setStatus capabilityId status caps

/-- `remove_capability`: the first entry with the id. -/
def removeCapability (caps : Capabilities) (capabilityId : Str) : Capabilities :=
  caps.eraseP (·.id = capabilityId)

def Capability.belongsTo (c : Capability) (artifactId : Str) : Bool :=
  match c.source, c.route with
  | .connector, .connector connector _ => connector = artifactId
  | .skill, .skill skill => skill = artifactId
  | .node, _ => c.plugin = some artifactId
  | .rag, .rag kb => kb = artifactId
  | _, _ => false

/-- `disable_source`. -/
def disableSource (source : Source) (artifactId : Str) (caps : Capabilities) : Capabilities :=
  caps.map fun c =>
    if c.source = source ∧ c.belongsTo artifactId then { c with status := disabledStatus } else c

/-- What happens to the registry while the daemon runs. -/
inductive Change where
  | add (c : Capability)
  | setStatus (capabilityId status : Str)
  | remove (capabilityId : Str)
  | disableSource (source : Source) (artifactId : Str)

def Change.apply : Change → Capabilities → Capabilities
  | .add c, caps => caps ++ [c]
  | .setStatus capabilityId status, caps => Platform.setStatus capabilityId status caps
  | .remove capabilityId, caps => removeCapability caps capabilityId
  | .disableSource source artifactId, caps => Platform.disableSource source artifactId caps

/-! ### Checking the arguments -/

/-- `value in (None, "")`. -/
def missing : Json → Bool
  | .null => true
  | .str s => s = []
  | _ => false

/-- `isinstance` for the types of `type_map`; a type that is not in it admits everything. A
truth value is an integer for Python. -/
def isInstance (type : Str) (value : Json) : Bool :=
  if type = "string" then
    match value with
    | .str _ => true
    | _ => false
  else if type = "integer" then
    match value with
    | .num n => n.scale = 0
    | .bool _ => true
    | _ => false
  else if type = "number" then
    match value with
    | .num _ => true
    | .bool _ => true
    | _ => false
  else if type = "boolean" then
    match value with
    | .bool _ => true
    | _ => false
  else true

def requiredErrors (p : Params) (args : List (Str × Json)) : List Str :=
  (p.properties.filter fun (name, spec) =>
    (decide (name ∈ p.required) || spec.required) && ((args.lookup name).map missing).getD true).map
      fun (name, _) => "missing required param '" ++ name ++ "'"

def argumentError (p : Params) (arg : Str × Json) : Option Str :=
  match p.properties.lookup arg.1 with
  | none => some ("unknown param '" ++ arg.1 ++ "'")
  | some spec =>
    if isInstance spec.type arg.2 then none
    else some ("param '" ++ arg.1 ++ "' must be " ++ spec.type)

/-- `validate_params`. -/
def validateParams (c : Capability) (args : Dict) : List Str :=
  if c.params.isOpen then []
  else requiredErrors c.params args.members ++ args.members.filterMap (argumentError c.params)

/-! ### Requests -/

/-- `DoorError`. -/
structure DoorError where
  statusCode : ℤ
  detail : Json

/-- A `DoorError` whose detail is a text. -/
def DoorError.text (statusCode : ℤ) (detail : Str) : DoorError := ⟨statusCode, .str detail⟩

inductive ApprovalStatus where
  | pending
  | approved
  | rejected
deriving DecidableEq

def ApprovalStatus.text : ApprovalStatus → Str
  | .pending => "pending"
  | .approved => "approved"
  | .rejected => "rejected"

inductive ApprovalKind where
  | mutation
  | external
deriving DecidableEq

/-- A row of `capability_approvals`. -/
structure ApprovalRecord where
  id : Str
  capabilityId : Str
  agentId : Str
  version : ℤ := 0
  publisher : Str := []
  params : Dict := Dict.empty
  status : ApprovalStatus := .pending
  requester : Str := []
  decidedBy : Str := []
  createdAt : ℕ
  decidedAt : Option ℕ := none
  result : Str := []
  kind : ApprovalKind := .mutation
  assignedTo : Str := []
  title : Str := []

/-- `CapabilityApprovalStore`. -/
abbrev ApprovalStore := Table ApprovalRecord.id

def ApprovalRecord.decide (status : ApprovalStatus) (decidedBy : Str) (now : ℕ) (result : Str)
    (r : ApprovalRecord) : ApprovalRecord :=
  { r with status, decidedBy, decidedAt := some now, result }

/-- `CapabilityApprovalStore.decide`. -/
def decide (approvals : ApprovalStore) (approvalId : Str) (status : ApprovalStatus)
    (decidedBy : Str) (now : ℕ) (result : Str) : ApprovalStore :=
  approvals.update
    (Rows.update ApprovalRecord.id approvalId (ApprovalRecord.decide status decidedBy now result))
    (key_update approvalId fun _ => rfl)

/-- `requester`: the agent of a request. -/
def requesterOf (agentId : Str) : Str := "agent:" ++ agentId

/-! ### The publish registry and the agents -/

/-- A record of `PublishRegistry`. -/
structure PublishRecord where
  publisher : Str
  version : ℤ
  publishedAt : ℕ

/-- The manifest of an agent, as far as publishing sees it. -/
structure AgentManifest where
  status : Str := "draft"
  versionInt : ℤ := 1

/-- `"published"`. -/
def publishedStatus : Str := "published"

/-! ### The door -/

/-- The body of a call. Texts are empty where the body has none; `version` and `params` are what
the body has, and so is `role`, which the door never reads. -/
structure Body where
  capabilityId : Str
  params : Json := .null
  agentId : Str := []
  version : Json := .null
  publisher : Str := []
  role : Json := .null

/-- `version` of a body: 0 if there is none, or none that is a number. -/
def Body.versionNumber (b : Body) : ℤ :=
  if b.version.truthy then (pyInt b.version).getD 0 else 0

/-- `agent_id` of a body. -/
def Body.agent (b : Body) : Str := if b.agentId = [] then "unknown" else b.agentId

/-- `params` of a body, if they are an object. -/
def Body.args (b : Body) : Option Dict :=
  if b.params.truthy then decodeDict b.params else some Dict.empty

/-- What a dispatch to the host comes to; `failed` is an exception that is no `DoorError`, also one
about data that cannot be dumped. -/
inductive HostAnswer where
  | returned (statusCode : ℤ) (data : Json)
  | raised (e : DoorError)
  | failed

/-- A dispatch on its way: of a read, or of the mutation of a request that is being approved. -/
inductive Flight where
  | call (agentId capabilityId publisher : Str)
  | approve (approvalId decidedBy : Str)

inductive Outcome where
  | approvalRequested
  | ok
  | dispatchFailed
  | denied (statusCode : ℤ)
  | error
deriving DecidableEq

/-- An entry `AGENT_CALL` of the audit log. -/
structure AuditEntry where
  agentId : Str
  capabilityId : Str
  statusCode : ℤ
  outcome : Outcome
  publisher : Str
deriving DecidableEq

inductive Entry where
  /-- the mutation of a request is dispatched -/
  | dispatched (approvalId decidedBy : Str) (cap : Capability)
  /-- the dispatch of a request has raised an exception -/
  | raised (approvalId : Str)
  /-- a request is recorded as approved, with the status code of its dispatch -/
  | approved (approvalId : Str) (statusCode : ℤ)
  | rejected (approvalId : Str)

/-- The door with all that it reads and writes. `resolveRole` is `resolve_publisher_role` of the
daemon, if it has one; the last entry of the log is the first. -/
structure Door where
  resolveRole : Option (Str → Option Str) := none
  capabilities : Capabilities := []
  agents : List (Str × AgentManifest) := []
  registry : List (Str × PublishRecord) := []
  approvals : ApprovalStore := Table.empty
  flights : List Flight := []
  audit : List AuditEntry := []
  log : List Entry := []

/-- `WRITE_ROLES`. -/
def writeRoles : List Str := ["admin", "owner", "operator"]

/-- The publisher that the role of a call is resolved for: the one in the registry, or else that of
the body. -/
def Door.effectivePublisher (s : Door) (agentId publisher : Str) : Str :=
  match s.registry.lookup agentId with
  | some rec => if rec.publisher = [] then publisher else rec.publisher
  | none => publisher

/-- The role of a publisher; one that cannot be resolved is `admin`. -/
def Door.roleOf (s : Door) (publisher : Str) : Str :=
  match (s.resolveRole.bind (· publisher)).getD [] with
  | [] => "admin"
  | role => role

/-- `_publisher_role`. -/
def Door.publisherRole (s : Door) (agentId publisher : Str) : Str :=
  let effective := s.effectivePublisher agentId publisher
  if effective = [] then [] else s.roleOf effective

/-- The text, or `?` for none. -/
def orUnknown (s : Str) : Str := if s = [] then "?" else s

inductive Admission where
  | queue
  | dispatch

/-- What `call` checks before it queues a request or dispatches. -/
def Door.judge (s : Door) (b : Body) (args : Dict) : Except DoorError Admission :=
  match getCapability s.capabilities b.capabilityId with
  | none =>
    .error (.text 404 ("unknown capability '" ++ b.capabilityId ++ "'"))
  | some cap =>
    let role := s.publisherRole b.agent b.publisher
    let errors := validateParams cap args
    if cap.status ≠ activeStatus then
      .error (.text 409 ("capability disabled: " ++ b.capabilityId ++ " — its upstream " ++
        cap.source.text ++ " artifact is disabled or removed"))
    else if cap.mutation ∧ b.versionNumber < 1 then
      .error (.text 403 ("mutations denied for draft agents (" ++ b.capabilityId ++
        "); publish the agent first"))
    else if cap.mutation ∧ role ∉ writeRoles then
      .error (.text 403 ("publisher '" ++ orUnknown b.publisher ++ "' (" ++
        orUnknown role ++ ") lacks write class '" ++
        cap.writeClass.getD "None" ++ "' for " ++ b.capabilityId))
    else if errors ≠ [] then .error ⟨422, .obj [("errors", .arr (errors.map Json.str))]⟩
    else if cap.mutation then .ok .queue
    else .ok .dispatch

def Body.request (b : Body) (args : Dict) (approvalId : Str) (now : ℕ) : ApprovalRecord where
  id := approvalId
  capabilityId := b.capabilityId
  agentId := b.agent
  version := b.versionNumber
  publisher := b.publisher
  params := args
  requester := requesterOf b.agent
  createdAt := now

/-- What an operation returns or raises; `waiting` is an operation that waits for the host. -/
inductive Reply where
  | answered (statusCode : ℤ) (data : Json)
  | record (r : ApprovalRecord) (dispatchStatusCode : Option ℤ)
  | raised (e : DoorError)
  | failed
  | waiting
  | done

/-- `_audit_log`. -/
def Door.auditLog (s : Door) (b : Body) (statusCode : ℤ) (outcome : Outcome) : Door :=
  { s with audit := s.audit ++ [⟨b.agent, b.capabilityId, statusCode, outcome, b.publisher⟩] }

/-- `call`, up to the dispatch of a read. An identifier that the store has already makes the
insertion fail. -/
def Door.call (s : Door) (b : Body) (approvalId : Str) (now : ℕ) : Reply × Door :=
  match b.args with
  | none => (.raised (.text 422 "params must be an object"), s)
  | some args =>
    match s.judge b args with
    | .error e => (.raised e, s.auditLog b e.statusCode (.denied e.statusCode))
    | .ok .queue =>
      if approvalId ∈ s.approvals.rows.map ApprovalRecord.id then
        (.failed, s.auditLog b 0 .error)
      else
        (.answered 200 (.obj [("approval_id", .str approvalId),
            ("status", .str "pending_approval")]),
          { s with approvals := s.approvals.put (b.request args approvalId now) }.auditLog b 200
            .approvalRequested)
    | .ok .dispatch =>
      (.waiting, { s with flights := s.flights ++ [.call b.agent b.capabilityId b.publisher] })

/-! ### Decisions -/

/-- `_check_decider`. -/
def checkDecider (r : ApprovalRecord) (decidedBy : Str) : Option DoorError :=
  if decidedBy ≠ [] ∧ decidedBy = r.requester then
    some (.text 403 "requester cannot approve their own request")
  else if r.kind = .external ∧ r.assignedTo ≠ [] ∧ decidedBy ≠ [] ∧ decidedBy ≠ r.assignedTo then
    some (.text 403 ("approval assigned to '" ++ r.assignedTo ++ "', not '" ++
      decidedBy ++ "'"))
  else none

/-- The request that is to be decided, if it is pending and the decider may decide about it. -/
def Door.decidable (s : Door) (approvalId decidedBy : Str) : Except DoorError ApprovalRecord :=
  match s.approvals.find approvalId with
  | none => .error (.text 404 ("approval '" ++ approvalId ++ "' not found"))
  | some r =>
    if r.status ≠ .pending then
      .error (.text 409 ("approval already " ++ r.status.text))
    else
      match checkDecider r decidedBy with
      | some e => .error e
      | none => .ok r

/-- The error of `_dispatch` for a route that leads nowhere. -/
def Capability.routeError (c : Capability) : Option DoorError :=
  match c.route with
  | .rest module _ path =>
    if module = [] ∨ path = [] then
      some (.text 500 ("rest route missing module/path: " ++ c.id))
    else none
  | .connector _ _ =>
    some (.text 501 ("connector dispatch lands with the connectors console " ++
      "(E3, fusion-plugins-ecosystem)").toList)
  | .none => some (.text 500 ("unrouted capability " ++ c.id))
  | _ => none

def Door.record (s : Door) (approvalId decidedBy : Str) (status : ApprovalStatus) (now : ℕ)
    (result : Str) (entries : List Entry) : Door :=
  { s with
    approvals := decide s.approvals approvalId status decidedBy now result
    log := entries ++ s.log }

def Door.reply (s : Door) (approvalId : Str) (dispatchStatusCode : Option ℤ) : Reply :=
  match s.approvals.find approvalId with
  | some r => .record r dispatchStatusCode
  | none => .failed

/-- `approve`, up to the dispatch. -/
def Door.approve (s : Door) (approvalId decidedBy : Str) (now : ℕ) : Reply × Door :=
  match s.decidable approvalId decidedBy with
  | .error e => (.raised e, s)
  | .ok r =>
    match r.kind with
    | .external =>
      let s := s.record approvalId decidedBy .approved now [] []
      (s.reply approvalId none, s)
    | .mutation =>
      match getCapability s.capabilities r.capabilityId with
      | none =>
        (.raised (.text 404 ("capability '" ++ r.capabilityId ++ "' removed")), s)
      | some cap =>
        match cap.routeError with
        | some e => (.raised e, s)
        | none =>
          (.waiting,
            { s with
              flights := s.flights ++ [.approve approvalId decidedBy]
              log := .dispatched approvalId decidedBy cap :: s.log })

/-- `reject`. -/
def Door.reject (s : Door) (approvalId decidedBy reason : Str) (now : ℕ) : Reply × Door :=
  match s.decidable approvalId decidedBy with
  | .error e => (.raised e, s)
  | .ok _ =>
    let s := s.record approvalId decidedBy .rejected now reason [.rejected approvalId]
    (s.reply approvalId none, s)

/-- The end of `call` when the dispatch of a read has ended. -/
def Door.settleCall (s : Door) (agentId capabilityId publisher : Str) (answer : HostAnswer) :
    Reply × Door :=
  let log (statusCode : ℤ) (outcome : Outcome) : Door :=
    { s with audit := s.audit ++ [⟨agentId, capabilityId, statusCode, outcome, publisher⟩] }
  match answer with
  | .returned statusCode data =>
    (.answered statusCode data, log statusCode (if statusCode < 400 then .ok else .dispatchFailed))
  | .raised e => (.raised e, log e.statusCode (.denied e.statusCode))
  | .failed => (.failed, log 0 .error)

/-- The end of `approve` when the dispatch has ended. The status of the request is not looked at
again, nor is the status code of the dispatch. -/
def Door.settleApproval (s : Door) (approvalId decidedBy : Str) (answer : HostAnswer) (now : ℕ) :
    Reply × Door :=
  match answer with
  | .returned statusCode data =>
    let s := s.record approvalId decidedBy .approved now ((dumps none data).take 2000)
      [.approved approvalId statusCode]
    (s.reply approvalId (some statusCode), s)
  | .raised e => (.raised e, { s with log := .raised approvalId :: s.log })
  | .failed => (.failed, { s with log := .raised approvalId :: s.log })

/-- The dispatch at a place among those on their way ends. -/
def Door.settle (s : Door) (n : ℕ) (answer : HostAnswer) (now : ℕ) : Reply × Door :=
  match s.flights[n]? with
  | none => (.done, s)
  | some flight =>
    let rest := { s with flights := s.flights.eraseIdx n }
    match flight with
    | .call agentId capabilityId publisher => rest.settleCall agentId capabilityId publisher answer
    | .approve approvalId decidedBy => rest.settleApproval approvalId decidedBy answer now

/-! ### Publishing -/

/-- What is done to an agent: `agent.create`, `agent.update`, `agent.publish`, `agent.archive`,
`agent.unpublish` and `agent.delete`. The routes that publish and delete also write the registry. -/
inductive AgentOp where
  | create (agentId : Str) (manifest : AgentManifest)
  | update (agentId : Str) (status : Option Str) (versionInt : Option ℤ)
  | agentPublish (agentId : Str)
  | publish (agentId user : Str) (now : ℕ)
  | archive (agentId : Str)
  | unpublish (agentId : Str)
  | agentDelete (agentId : Str)
  | delete (agentId : Str)

/-- `agent.publish`, where it returns no error. -/
def AgentManifest.publish (m : AgentManifest) : Option AgentManifest :=
  if m.status = publishedStatus then none
  else some { status := publishedStatus, versionInt := m.versionInt + 1 }

def Door.updateAgent (s : Door) (agentId : Str) (f : AgentManifest → AgentManifest) : Door :=
  match s.agents.lookup agentId with
  | none => s
  | some m => { s with agents := setItem agentId (f m) s.agents }

def AgentOp.apply : AgentOp → Door → Door
  | .create agentId manifest, s => { s with agents := setItem agentId manifest s.agents }
  | .update agentId status versionInt, s =>
    s.updateAgent agentId fun m =>
      { status := status.getD m.status, versionInt := versionInt.getD m.versionInt }
  | .agentPublish agentId, s => s.updateAgent agentId fun m => m.publish.getD m
  | .publish agentId user now, s =>
    match (s.agents.lookup agentId).bind AgentManifest.publish with
    | none => s
    | some m =>
      { s with
        agents := setItem agentId m s.agents
        registry := setItem agentId
          ⟨if user = [] then "studio" else user, m.versionInt, now⟩ s.registry }
  | .archive agentId, s => s.updateAgent agentId fun m => { m with status := "archived" }
  | .unpublish agentId, s =>
    s.updateAgent agentId fun m =>
      if m.status = publishedStatus ∨ m.status = "archived" then
        { m with status := "draft" }
      else m
  | .agentDelete agentId, s => { s with agents := pop agentId s.agents }
  | .delete agentId, s =>
    { s with agents := pop agentId s.agents, registry := pop agentId s.registry }

/-! ### Steps -/

/-- One step: an operation of the door with the identifier and the time that it takes, the end of a
dispatch, or a change around the door. -/
inductive Op where
  | call (b : Body) (approvalId : Str) (now : ℕ)
  | createExternal (title requester assignedTo : Str) (params : Dict) (agentId approvalId : Str)
      (now : ℕ)
  | approve (approvalId decidedBy : Str) (now : ℕ)
  | reject (approvalId decidedBy reason : Str) (now : ℕ)
  | settle (n : ℕ) (answer : HostAnswer) (now : ℕ)
  | change (c : Change)
  | agent (op : AgentOp)

def externalRequest (title requester assignedTo : Str) (params : Dict) (agentId approvalId : Str)
    (now : ℕ) : ApprovalRecord where
  id := approvalId
  capabilityId := "external"
  agentId := if agentId = [] then "external" else agentId
  params := params
  requester := requester
  createdAt := now
  kind := .external
  assignedTo := assignedTo
  title := title

/-- `create_external`. -/
def Door.createExternal (s : Door) (title requester assignedTo : Str) (params : Dict)
    (agentId approvalId : Str) (now : ℕ) : Reply × Door :=
  let r := externalRequest title requester assignedTo params agentId approvalId now
  if requester ≠ [] ∧ assignedTo ≠ [] ∧ requester = assignedTo then
    (.raised (.text 422 "requester and assigned reviewer must differ (no self-approval)"), s)
  else if approvalId ∈ s.approvals.rows.map ApprovalRecord.id then (.failed, s)
  else (.record r none, { s with approvals := s.approvals.put r })

def operate : Op → Door → Reply × Door
  | .call b approvalId now, s => s.call b approvalId now
  | .createExternal title requester assignedTo params agentId approvalId now, s =>
    s.createExternal title requester assignedTo params agentId approvalId now
  | .approve approvalId decidedBy now, s => s.approve approvalId decidedBy now
  | .reject approvalId decidedBy reason now, s => s.reject approvalId decidedBy reason now
  | .settle n answer now, s => s.settle n answer now
  | .change c, s => (.done, { s with capabilities := c.apply s.capabilities })
  | .agent op, s => (.done, op.apply s)

/-! ### A small door -/

/-- A door with one mutation that takes no arguments. -/
def oneMutation : Door where
  capabilities :=
    [{ id := "graph.create", source := .rest, mutation := true,
       writeClass := some "workflow_write",
       route := .rest "fusion-agent-studio" "POST" "/graphs" }]

/-- The call of the mutation by a published agent. -/
def oneCall : Body where
  capabilityId := "graph.create"
  agentId := "a"
  version := .num 1
  publisher := "studio"

end AgentStudio.Platform

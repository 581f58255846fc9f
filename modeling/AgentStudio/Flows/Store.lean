import AgentStudio.Library.JsonSorted
import AgentStudio.Library.Rows

/-!
# Flows and their versions

`FlowStore` of `agent_runtime/flow_store.py`: the flows of the canvas, each with the JSON text of
its graph and the tenant that it belongs to, and for each version of a flow a row with the text of
that version. `save_flow` creates a flow or changes it, `restore_version` makes an old version the
current one, and both add a version unless the graph is as it was.

A graph that comes in is a value whose dictionaries have distinct keys (`Document`). What `uuid4`
draws and the time are arguments. An insertion under a key that exists raises an `IntegrityError`;
the changes before it in the same call are not rolled back, and the next commit writes them.
-/

namespace AgentStudio.Flows

open PyText PyJson Rows

/-- A row of `flows`. -/
structure FlowRow where
  flowId : Str
  tenantId : Str
  name : Str
  description : Str
  graphJson : Str
  version : ℤ
  kind : Str
  createdAt : ℤ
  updatedAt : ℤ
deriving DecidableEq

/-- A row of `flow_versions`. -/
structure VersionRow where
  flowId : Str
  version : ℤ
  graphJson : Str
  createdAt : ℤ
deriving DecidableEq

/-- The primary key of `flow_versions`. -/
def VersionRow.key (v : VersionRow) : Str × ℤ := (v.flowId, v.version)

structure FlowStore where
  flows : Table FlowRow.flowId
  versions : Table VersionRow.key

def FlowStore.empty : FlowStore := ⟨Table.empty, Table.empty⟩

/-- What a method raises: a `FlowStoreError` with its message, an `IntegrityError` or a
`JSONDecodeError`. -/
inductive FlowError
  | store (message : Str)
  | integrity
  | decode
deriving DecidableEq

/-- A value whose dictionaries have distinct keys, as those of Python do. -/
structure Document where
  json : Json
  wf : json.WF

/-! ### Graphs -/

/-- `bool(n.get(key))` for a value that may be missing. -/
def hasTruthy (node : List (Str × Json)) (key : String) : Bool :=
  (node.lookup key.toList).any Json.truthy

def nodeOk : Json → Bool
  | .obj node => hasTruthy node "id" && hasTruthy node "type"
  | _ => false

/-- `_validate_graph`: the message for a graph that is refused. -/
def graphProblem : Json → Option Str
  | .obj graph =>
    match graph.lookup "nodes".toList with
    | some (.arr (node :: nodes)) =>
      if (node :: nodes).all nodeOk then none
      else some "flow graph node missing 'id' or 'type' — re-export the flow".toList
    | _ => some "flow graph must contain a non-empty 'nodes' array".toList
  | _ => some "flow graph must be a JSON object".toList

/-! ### The methods -/

def notFound (flowId tenantId : Str) : FlowError :=
  .store ("flow '" ++ flowId ++ "' not found for tenant '" ++
    (if tenantId = [] then "default".toList else tenantId) ++ ['\''])

def FlowStore.row (s : FlowStore) (flowId tenantId : Str) : Option FlowRow :=
  (s.flows.find flowId).filter fun r => decide (r.tenantId = tenantId)

/-- `name or default`. -/
def nameOr (name default : Str) : Str := if name = [] then default else name

/-- The answer of `save_flow`. -/
def saved (flowId : Str) (version : ℤ) (created : Bool) (now : ℤ) : Json :=
  .obj [("flow_id", .str flowId), ("version", .num (.ofInt version)),
    ("created", .bool created), ("updated_at", .num (.ofInt now))]

/-- `INSERT INTO flow_versions`, and the answer if it does not fail. -/
def FlowStore.addVersion (s : FlowStore) (v : VersionRow) (answer : Json) :
    Except FlowError Json × FlowStore :=
  if (s.versions.find v.key).isSome then (.error .integrity, s)
  else (.ok answer, { s with versions := s.versions.upsert v })

/-- A row of `flows` is written. -/
def FlowStore.write (s : FlowStore) (r : FlowRow) : FlowStore :=
  { s with flows := s.flows.upsert r }

/-- `save_flow`. -/
def FlowStore.saveFlow (s : FlowStore) (graph : Json) (tenantId name description flowId kind : Str)
    (fresh : Str) (now : ℤ) : Except FlowError Json × FlowStore :=
  match graphProblem graph with
  | some message => (.error (.store message), s)
  | none =>
    let graphJson := dumps none graph
    if flowId ≠ [] then
      match s.row flowId tenantId with
      | none => (.error (notFound flowId tenantId), s)
      | some r =>
        if r.graphJson = graphJson then (.ok (saved flowId r.version false now), s)
        else
          let version := r.version + 1
          let r := { r with
            graphJson, version, name := nameOr name r.name, description, kind, updatedAt := now }
          (s.write r).addVersion ⟨flowId, version, graphJson, now⟩ (saved flowId version false now)
    else
      let fid := "flow-" ++ fresh
      if (s.flows.find fid).isSome then (.error .integrity, s)
      else
        let name := nameOr name "Untitled flow"
        (s.write ⟨fid, tenantId, name, description, graphJson, 1, kind, now, now⟩).addVersion
          ⟨fid, 1, graphJson, now⟩ (saved fid 1 true now)

/-- A flow in the answer of `list_flows`. -/
def FlowRow.summary (r : FlowRow) : Json :=
  .obj [("flow_id", .str r.flowId), ("name", .str r.name),
    ("description", .str r.description), ("version", .num (.ofInt r.version)),
    ("kind", .str r.kind), ("created_at", .num (.ofInt r.createdAt)),
    ("updated_at", .num (.ofInt r.updatedAt))]

/-- `list_flows`, the flow that was changed last first. -/
def FlowStore.listFlows (s : FlowStore) (tenantId kind : Str) : Json :=
  let rows := (s.flows.rows.filter fun r => decide (r.tenantId = tenantId)).filter fun r =>
    decide (kind = [] ∨ r.kind = kind)
  .arr ((rows.insertionSort fun a b => b.updatedAt ≤ a.updatedAt).map FlowRow.summary)

/-- `load_flow`. `decodeError` is what a `JSONDecodeError` says of a text. -/
def FlowStore.loadFlow (decodeError : Str → Str) (s : FlowStore) (flowId tenantId : Str) :
    Except FlowError Json :=
  match s.row flowId tenantId with
  | none => .error (notFound flowId tenantId)
  | some r =>
    match loads r.graphJson with
    | none => .error (.store ("flow '" ++ flowId ++ "' is corrupt (" ++
        decodeError r.graphJson ++
        ") — restore from a version snapshot via flow.restore or delete it"))
    | some graph =>
      .ok (.obj [("flow_id", .str flowId), ("name", .str r.name),
        ("description", .str r.description), ("version", .num (.ofInt r.version)),
        ("created_at", .num (.ofInt r.createdAt)),
        ("updated_at", .num (.ofInt r.updatedAt)), ("graph", graph)])

/-- `delete_flow`. The versions go whatever tenant the flow belongs to. -/
def FlowStore.deleteFlow (s : FlowStore) (flowId tenantId : Str) : Bool × FlowStore :=
  ((s.row flowId tenantId).isSome,
    { flows := s.flows.select fun r =>
        !(decide (r.flowId = flowId) && decide (r.tenantId = tenantId))
      versions := s.versions.select fun v => decide (v.flowId ≠ flowId) })

/-- `list_versions`, the last version first. -/
def FlowStore.listVersions (s : FlowStore) (flowId tenantId : Str) : Except FlowError Json :=
  match s.row flowId tenantId with
  | none => .error (notFound flowId tenantId)
  | some _ =>
    let rows := (s.versions.rows.filter fun v => decide (v.flowId = flowId)).insertionSort
      fun a b => b.version ≤ a.version
    .ok (.arr (rows.map fun v => .obj [("version", .num (.ofInt v.version)),
      ("created_at", .num (.ofInt v.createdAt))]))

/-- The answer of `restore_version`. -/
def restored (flowId : Str) (version : ℤ) (changed : Bool) : Json :=
  .obj [("flow_id", .str flowId), ("version", .num (.ofInt version)),
    ("restored", .bool changed)]

/-- `restore_version`. The current text is read before it is compared, so that a text that cannot be
read raises. The escapes of `json.dumps` for characters outside ASCII are left out of the
comparison. -/
def FlowStore.restoreVersion (s : FlowStore) (flowId : Str) (version : ℤ) (tenantId : Str)
    (now : ℤ) : Except FlowError Json × FlowStore :=
  match s.row flowId tenantId with
  | none => (.error (notFound flowId tenantId), s)
  | some r =>
    match s.versions.find (flowId, version) with
    | none => (.error (.store ("version " ++ (toString version).toList ++ " of flow '" ++
        flowId ++ "' does not exist")), s)
    | some snap =>
      match loads r.graphJson, loads snap.graphJson with
      | some current, some target =>
        if dumps none (sortKeys current) = dumps none (sortKeys target) then
          (.ok (restored flowId r.version false), s)
        else
          let version := r.version + 1
          let r := { r with graphJson := snap.graphJson, version, updatedAt := now }
          (s.write r).addVersion ⟨flowId, version, snap.graphJson, now⟩
            (restored flowId version true)
      | _, _ => (.error .decode, s)

/-! ### Calls -/

/-- A call for a tenant. `none` is a parameter that is left to its default. -/
inductive Call
  | save (graph : Document) (tenantId : Str) (name description kind : Option Str) (flowId : Str)
      (fresh : Str) (now : ℤ)
  | load (flowId tenantId : Str)
  | list (tenantId kind : Str)
  | listVersions (flowId tenantId : Str)
  | restore (flowId : Str) (version : ℤ) (tenantId : Str) (now : ℤ)
  | delete (flowId tenantId : Str)

def Call.tenant : Call → Str
  | .save _ tenantId _ _ _ _ _ _ => tenantId
  | .load _ tenantId => tenantId
  | .list tenantId _ => tenantId
  | .listVersions _ tenantId => tenantId
  | .restore _ _ tenantId _ => tenantId
  | .delete _ tenantId => tenantId

def call (decodeError : Str → Str) : Call → FlowStore → Except FlowError Json × FlowStore
  | .save graph tenantId name description kind flowId fresh now, s =>
    s.saveFlow graph.json tenantId (name.getD []) (description.getD []) flowId
      (kind.getD "flow") fresh now
  | .load flowId tenantId, s => (s.loadFlow decodeError flowId tenantId, s)
  | .list tenantId kind, s => (.ok (s.listFlows tenantId kind), s)
  | .listVersions flowId tenantId, s => (s.listVersions flowId tenantId, s)
  | .restore flowId version tenantId now, s => s.restoreVersion flowId version tenantId now
  | .delete flowId tenantId, s =>
    let (deleted, s) := s.deleteFlow flowId tenantId
    (.ok (.bool deleted), s)

end AgentStudio.Flows

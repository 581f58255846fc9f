import AgentStudio.Library.Json
import AgentStudio.Library.Rows

/-!
# Connectors

`ConnectorManager` of `agent_runtime/connectors.py`: the connectors to outside services, with what
they need to log in there. A connector that asks for sensitive scopes is connected with a reference
to an approval, which `connect` demands and records.

The manager has the connectors in memory and writes all of them to its index after each change;
`Manager.opened` is what it reads from the index when it starts. The methods take JSON values where
the RPC methods hand them on as they come, so a value of another type can raise: where that is in
the middle of `update`, what has been assigned before stays in memory, and the index is not written.

An identifier that `uuid4` would draw and the time are arguments of the methods.
-/

namespace AgentStudio.Connectors

open PyText PyJson Rows

/-- What Python raises at a value of another type than the code expects. -/
inductive Raised
  | typeError
  | attributeError
deriving DecidableEq

/-- `VALID_TYPES`. -/
def validTypes : List Str := ["oauth2", "api_key", "webhook"]

structure ConnectorConfig where
  id : Str
  name : Json
  type : Json
  authConfig : Json
  status : Json
  createdAt : ℤ
  updatedAt : ℤ
  lastTestedAt : Option ℤ
  errorMessage : Json
  sensitiveScopes : List Json
  approvalRef : Str
  approvedAt : Option ℤ

def isStr (j : Json) (s : String) : Bool :=
  match j with
  | .str t => decide (t = s.toList)
  | _ => false

/-- `list(value or [])`: a string is the list of its characters, a dictionary that of its keys. -/
def listOr (v : Json) : Except Raised (List Json) :=
  if v.truthy then
    match v with
    | .arr vs => .ok vs
    | .str s => .ok (s.map fun c => .str [c])
    | .obj ms => .ok (ms.map fun m => .str m.1)
    | _ => .error .typeError
  else .ok []

def time (t : ℤ) : Json := .num (.ofInt t)

def timeOrNull : Option ℤ → Json
  | none => .null
  | some t => time t

/-- The members of `auth_config` that an answer hides. -/
def secretKeys : List Str :=
  ["api_key", "secret", "client_secret", "password", "token"]

/-- `auth_config.items()` with the secrets hidden. -/
def maskedAuth : Json → Except Raised Json
  | .obj ms =>
    .ok (.obj (ms.map fun m => (m.1, if m.1 ∈ secretKeys then .str "***" else m.2)))
  | _ => .error .attributeError

/-- `to_dict`. -/
def ConnectorConfig.toDict (c : ConnectorConfig) : Except Raised Json :=
  (maskedAuth c.authConfig).map fun auth =>
    .obj [("id", .str c.id), ("name", c.name), ("type", c.type),
      ("auth_config", auth), ("status", c.status),
      ("created_at", time c.createdAt), ("updated_at", time c.updatedAt),
      ("last_tested_at", timeOrNull c.lastTestedAt),
      ("error_message", c.errorMessage), ("sensitive_scopes", .arr c.sensitiveScopes),
      ("approval_ref", .str c.approvalRef),
      ("approved_at", timeOrNull c.approvedAt)]

/-- `auth_config.get(key, "")`. -/
def ConnectorConfig.authGet (c : ConnectorConfig) (key : String) : Except Raised Json :=
  match c.authConfig with
  | .obj ms => .ok ((ms.lookup key.toList).getD (.str []))
  | _ => .error .attributeError

/-- `_test_auth`. -/
def ConnectorConfig.testAuth (c : ConnectorConfig) : Except Raised Bool :=
  if isStr c.type "api_key" then
    match c.authGet "api_key" with
    | .ok (.str s) => .ok (decide (strip s ≠ []))
    | .ok _ => .error .attributeError
    | .error e => .error e
  else if isStr c.type "oauth2" then (c.authGet "access_token").map Json.truthy
  else if isStr c.type "webhook" then (c.authGet "url").map Json.truthy
  else .ok false

/-! ### The manager -/

/-- The connectors in memory by their identifiers, and the list in the index file. -/
structure Manager where
  connectors : Table ConnectorConfig.id
  index : List ConnectorConfig

/-- `_load_index`. -/
def Manager.opened (index : List ConnectorConfig) : Manager := ⟨Table.empty.upserts index, index⟩

/-- `_persist_index`. -/
def Manager.persistIndex (m : Manager) : Manager := { m with index := m.connectors.rows }

def Manager.set (m : Manager) (c : ConnectorConfig) : Manager :=
  { m with connectors := m.connectors.upsert c }

/-- The answer of a method that has found an error. -/
def failure (message : Str) : Json :=
  .obj [("status", .str "error"), ("message", .str message)]

def notFound (connectorId : Str) : Json := failure ("Connector not found: " ++ connectorId)

/-- `get`. -/
def Manager.get (m : Manager) (connectorId : Str) : Except Raised (Option Json) :=
  match m.connectors.find connectorId with
  | none => .ok none
  | some cfg => cfg.toDict.map some

/-- `list_connectors`. -/
def Manager.listConnectors (m : Manager) : Except Raised (List Json) :=
  m.connectors.rows.mapM ConnectorConfig.toDict

/-- `connector_id or uuid4().hex[:12]`. -/
def givenOr (connectorId fresh : Str) : Str := if connectorId = [] then fresh else connectorId

/-- `create`. -/
def Manager.create (m : Manager) (name : Json) (connType : Str) (authConfig : Json)
    (connectorId : Str) (sensitiveScopes : Json) (fresh : Str) (now : ℤ) :
    Except Raised Json × Manager :=
  if connType ∉ validTypes then
    (.ok (failure ("Invalid connector type: " ++ connType ++
      ". Valid: ('oauth2', 'api_key', 'webhook')")), m)
  else
    let connId := givenOr connectorId fresh
    if (m.connectors.find connId).isSome then
      (.ok (failure ("Connector already exists: " ++ connId)), m)
    else
      match listOr sensitiveScopes with
      | .error e => (.error e, m)
      | .ok scopes =>
        let cfg : ConnectorConfig := ⟨connId, name, .str connType, authConfig,
          .str "disconnected", now, now, none, .str [], scopes, [], none⟩
        (cfg.toDict.map fun d =>
            .obj [("connector_id", .str connId), ("connector", d)],
          (m.set cfg).persistIndex)

/-- The fields that `update` assigns before the scopes. -/
def ConnectorConfig.assign (c : ConnectorConfig) (updates : List (Str × Json)) : ConnectorConfig :=
  { c with
    name := (updates.lookup "name".toList).getD c.name
    type := (updates.lookup "type".toList).getD c.type
    status := (updates.lookup "status".toList).getD c.status
    errorMessage := (updates.lookup "error_message".toList).getD c.errorMessage
    authConfig := (updates.lookup "auth_config".toList).getD c.authConfig }

/-- The scopes after `update`. -/
def ConnectorConfig.newScopes (c : ConnectorConfig) (updates : List (Str × Json)) :
    Except Raised (List Json) :=
  match updates.lookup "sensitive_scopes".toList with
  | none => .ok c.sensitiveScopes
  | some v => listOr v

/-- `update`. -/
def Manager.update (m : Manager) (connectorId : Str) (updates : List (Str × Json)) (now : ℤ) :
    Except Raised Json × Manager :=
  match m.connectors.find connectorId with
  | none => (.ok (notFound connectorId), m)
  | some cfg =>
    match cfg.newScopes updates with
    | .error e => (.error e, m.set (cfg.assign updates))
    | .ok scopes =>
      let cfg := { cfg.assign updates with sensitiveScopes := scopes, updatedAt := now }
      (cfg.toDict.map fun d => .obj [("updated", .bool true), ("connector", d)],
        (m.set cfg).persistIndex)

/-- `delete`. -/
def Manager.delete (m : Manager) (connectorId : Str) : Json × Manager :=
  match m.connectors.find connectorId with
  | none => (notFound connectorId, m)
  | some _ =>
    (.obj [("deleted", .bool true)],
      ({ m with connectors := m.connectors.select (·.id ≠ connectorId) }).persistIndex)

/-- `", ".join(scopes)`, which raises at a scope that is not a string. -/
def joinScopes : List Json → Except Raised Str
  | [] => .ok []
  | [.str s] => .ok s
  | .str s :: rest => (joinScopes rest).map fun t => s ++ ", " ++ t
  | _ => .error .typeError

/-- A connector after the authentication test of `connect`. -/
def ConnectorConfig.tested (c : ConnectorConfig) (passed : Bool) (approvalRef : Str) (now : ℤ) :
    ConnectorConfig :=
  let c := if passed then
      let c := { c with status := .str "connected", errorMessage := .str [] }
      if c.sensitiveScopes ≠ [] then { c with approvalRef, approvedAt := some now }
      else c
    else { c with status := .str "error"
                  errorMessage := .str "Authentication test failed" }
  { c with lastTestedAt := some now, updatedAt := now }

/-- `connect`. The gate comes before the test of the authentication. -/
def Manager.connect (m : Manager) (connectorId approvalRef : Str) (now : ℤ) :
    Except Raised Json × Manager :=
  match m.connectors.find connectorId with
  | none => (.ok (notFound connectorId), m)
  | some cfg =>
    let approvalRef := strip approvalRef
    if cfg.sensitiveScopes ≠ [] ∧ approvalRef = [] then
      ((joinScopes cfg.sensitiveScopes).map fun names =>
        failure ("sensitive scopes (".toList ++ names ++
          ") require an approval reference (approval_ref) before connecting".toList), m)
    else
      match cfg.testAuth with
      | .error e => (.error e, m)
      | .ok passed =>
        let cfg := cfg.tested passed approvalRef now
        (.ok (.obj ([("connector_id".toList, .str connectorId), ("status".toList, cfg.status),
            ("error_message".toList, cfg.errorMessage)] ++
            if passed then [] else [("message".toList, cfg.errorMessage)])),
          (m.set cfg).persistIndex)

/-- `disconnect`. -/
def Manager.disconnect (m : Manager) (connectorId : Str) (now : ℤ) : Json × Manager :=
  match m.connectors.find connectorId with
  | none => (notFound connectorId, m)
  | some cfg =>
    (.obj [("connector_id", .str connectorId),
        ("status", .str "disconnected")],
      (m.set { cfg with status := .str "disconnected", updatedAt := now }).persistIndex)

/-- `test`. -/
def Manager.test (m : Manager) (connectorId : Str) (now : ℤ) : Except Raised Json × Manager :=
  match m.connectors.find connectorId with
  | none => (.ok (notFound connectorId), m)
  | some cfg =>
    match cfg.testAuth with
    | .error e => (.error e, m)
    | .ok passed =>
      (.ok (.obj [("connector_id", .str connectorId), ("test_passed", .bool passed),
          ("status", cfg.status)]),
        (m.set { cfg with lastTestedAt := some now }).persistIndex)

end AgentStudio.Connectors

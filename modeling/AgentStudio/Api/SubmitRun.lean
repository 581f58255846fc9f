import AgentStudio.Api.Toolset
import Mathlib.Data.List.Sort

/-!
# Submitting a run

`v1_submit_run` of `agent_runtime/api_server.py`, from the body of `POST /v1/runs` to where the run
goes: `mergeSpec` puts together the specification from the `spec` of the body, the keys of the body
and `agent_overrides`, `checkSpec` checks it, `narrowTools` intersects its tools with those of the
agent, and `submitRun` sends it to a subagent run, to a node of the cluster, to the graph, or leaves
it in the queue for the executor, which runs the agent with its own specification (`specForAgent`).

`task.submit` is an answer here: the id of the task and whether it is one that an earlier request
has made. The title, the timeout and the constraints of the task are left out, and so is the record
of the effective overrides in the audit log.
-/

namespace AgentStudio.Api

open PyText PyJson PyDict

/-! ### Requests -/

/-- The codes of the errors that `v1_submit_run` raises; `uncaught` is an exception that it does not
handle. -/
inductive ErrorCode
  | paramRequired
  | paramFormatError
  | internalError
  | uncaught
deriving DecidableEq

structure ApiError where
  code : ErrorCode
  param : Str := []
  detail : Str := []
deriving DecidableEq

/-- `raise_api_error(PARAM_FORMAT_ERROR, ...)`. -/
def formatError (param : String) (detail : Str := []) : ApiError :=
  ⟨.paramFormatError, param.toList, detail⟩

/-- The body of a request; a key that it does not have is `null`. -/
structure RunRequest where
  goal : Str
  agentId : Str := []
  graphId : Str := []
  spec : Json := .null
  tools : Json := .null
  model : Json := .null
  maxTurns : Json := .null
  budgetTokens : Json := .null
  agentOverrides : Json := .null
  sandbox : Str := []

/-! ### The specification -/

/-- `d.setdefault(key, value)`. -/
def setDefault (d : Members) (key : Str) (value : Json) : Members :=
  if (d.lookup key).isSome then d else d ++ [(key, value)]

/-- `_OVERRIDE_KEYS`. -/
def overrideKeys : List Str :=
  ["tools", "disallowed_tools", "model", "max_turns",
    "budget_tokens"]

/-- `_SPEC_ALLOWED_KEYS`. -/
def specAllowedKeys : List Str :=
  ["name", "model", "tools", "max_turns", "budget_tokens",
    "system_prompt", "disallowed_tools", "mcp_servers", "skills",
    "permission_mode", "effort", "team"]

/-- The keys whose values are made integers. -/
def intKeys : List Str := ["max_turns", "budget_tokens"]

/-- `', '.join(sorted(set(texts)))`. -/
def joinSorted (texts : List Str) : Str :=
  ", ".toList.intercalate (texts.dedup.insertionSort fun s t => textLE s t)

/-- The keys of an object that are not among the given ones. -/
def unknownKeys (known : List Str) (d : Members) : List Str :=
  (d.map Prod.fst).filter fun key => decide (key ∉ known)

def notList (d : Members) (key : String) : Bool :=
  match d.lookup key.toList with
  | none => false
  | some (.arr _) => false
  | some _ => true

def notText (d : Members) (key : String) : Bool :=
  match d.lookup key.toList with
  | none => false
  | some (.str _) => false
  | some _ => true

/-- `int(value)` as a value, where it raises no error. -/
def intJson (value : Json) : Option Json := (pyInt value).map fun n => .num (Number.ofInt n)

/-- `int(...)` of the values of `intKeys`, where it raises no error. -/
def intValues : Members → Option Members
  | [] => some []
  | (key, value) :: d =>
    (if key ∈ intKeys then intJson value else some value).bind fun value =>
      (intValues d).map fun d => (key, value) :: d

/-- The checks of `agent_overrides`. -/
def checkOverrides (o : Members) : Except ApiError Members :=
  if unknownKeys overrideKeys o ≠ [] then
    .error (formatError "agent_overrides"
      ("unsupported agent_overrides keys: " ++ joinSorted (unknownKeys overrideKeys o)))
  else if notList o "tools" then .error (formatError "agent_overrides.tools")
  else if notList o "disallowed_tools" then .error (formatError "agent_overrides.disallowed_tools")
  else if notText o "model" then .error (formatError "agent_overrides.model")
  else
    match intValues o with
    | none => .error (formatError "agent_overrides.max_turns, agent_overrides.budget_tokens")
    | some o => .ok o

/-- The keys of the body that go into the specification. -/
def RunRequest.bodyKeys (r : RunRequest) : Members :=
  [("tools".toList, r.tools), ("model".toList, r.model), ("max_turns".toList, r.maxTurns),
    ("budget_tokens", r.budgetTokens)].filter fun m => !(m.2 matches .null)

/-- `setdefault` for all members of an object. -/
def setDefaults (d new : Members) : Members := new.foldl (fun d m => setDefault d m.1 m.2) d

/-- `spec` of a request. -/
def RunRequest.specObject (r : RunRequest) : Except ApiError Members :=
  match r.spec with
  | .null => .ok []
  | .obj spec => .ok spec
  | _ => .error (formatError "spec" "spec must be an object")

/-- `agent_overrides` of a request. -/
def RunRequest.overridesObject (r : RunRequest) : Except ApiError Members :=
  match r.agentOverrides with
  | .null => .ok []
  | .obj o => checkOverrides o
  | _ => .error (formatError "agent_overrides" "agent_overrides must be an object")

/-- The specification of a request: what `spec` has comes first, then the keys of the body, then
`agent_overrides`. -/
def mergeSpec (r : RunRequest) : Except ApiError Members := do
  let spec ← r.specObject
  let overrides ← r.overridesObject
  .ok (setDefaults (setDefaults spec r.bodyKeys) overrides)

def numberAt (d : Members) (key : String) : Option ℤ := (d.lookup key.toList).bind decodeInt

def checkSpec (spec : Members) : Except ApiError Members :=
  if unknownKeys specAllowedKeys spec ≠ [] then
    .error (formatError "spec"
      ("unsupported spec keys: " ++ joinSorted (unknownKeys specAllowedKeys spec)))
  else if notList spec "tools" then .error (formatError "spec.tools")
  else if notText spec "model" then .error (formatError "spec.model")
  else
    match intValues spec with
    | none => .error (formatError "spec.max_turns, spec.budget_tokens")
    | some spec =>
      if (numberAt spec "max_turns").any (· ≤ 0) then
        .error (formatError "spec.max_turns" "max_turns must be > 0")
      else if (numberAt spec "budget_tokens").any (· < 0) then
        .error (formatError "spec.budget_tokens" "budget_tokens must be >= 0")
      else .ok spec

/-! ### The tools of the agent -/

/-- `==` of two values that can be keys. -/
def pyEq : Json → Json → Bool
  | .null, .null => true
  | .str s, .str t => s = t
  | .num m, .num n => m = n
  | .bool b, .bool c => b = c
  | .bool b, .num n => n = if b then 1 else 0
  | .num n, .bool b => n = if b then 1 else 0
  | _, _ => false

/-- `str(value)`. -/
def Daemon.text (d : Daemon) : Json → Str
  | .str s => s
  | value => d.str value

/-- What an entry of the tools of an agent adds to the set of its tools; a name that cannot be a key
raises a `TypeError`. -/
def Daemon.entryName (d : Daemon) : Json → Option Json
  | .obj ms =>
    let name := (ms.lookup "name".toList).getD .null
    if hashable name then some name else none
  | entry => some (.str (d.text entry))

/-- The names of the entries up to one that raises an exception. -/
def Daemon.entryNames (d : Daemon) : List Json → List Json
  | [] => []
  | entry :: entries =>
    match d.entryName entry with
    | none => []
    | some name => name :: d.entryNames entries

/-- `own_tools`: an agent that is not known has none, and one whose manifest cannot be read neither.
-/
def Daemon.ownTools (d : Daemon) (agentId : Str) : List Json :=
  if d.unreadable agentId then []
  else
    match d.agents agentId with
    | none => []
    | some manifest => d.entryNames manifest.tools

/-- `available` of `subagent.toolset`. -/
def Daemon.available (d : Daemon) : List Str := if d.hasRuntime then d.tools.map Tool.name else []

/-- The tools of the specification are checked and intersected with those of the agent. -/
def Daemon.narrowTools (d : Daemon) (agentId : Str) (spec : Members) : Except ApiError Members :=
  match spec.lookup "tools".toList with
  | some (.arr tools) =>
    let unknown := (tools.map d.text).filter fun t => decide (t ∉ d.available)
    let own := d.ownTools agentId
    if tools.isEmpty ∨ d.available = [] then .ok spec
    else if unknown ≠ [] then
      .error (formatError "agent_overrides.tools"
        ("unknown tool names: ".toList ++ joinSorted unknown))
    else if agentId = [] ∨ own.isEmpty then .ok spec
    else if tools.all hashable then
      .ok (setItem "tools".toList (.arr (tools.filter fun t => own.any (pyEq t))) spec)
    else .error { code := .uncaught }
  | _ => .ok spec

/-! ### Where the run goes -/

/-- The sandbox of a request: `none` is the daemon itself, else a node of the cluster. -/
def parseSandbox (value : Str) : Except ApiError (Option Str) :=
  let stripped := strip (if value = [] then "local".toList else value)
  let raw := if stripped = [] then "local".toList else stripped
  if raw = "local".toList then .ok none
  else if "multi-node:".toList.isPrefixOf raw then
    let node := strip (raw.drop "multi-node:".length)
    if node = [] then
      .error (formatError "sandbox" "sandbox multi-node:<node_id> requires a node id".toList)
    else .ok (some node)
  else
    .error (formatError "sandbox" ("unsupported sandbox '".toList ++ raw ++
      "' (use local or multi-node:<node_id>)".toList))

/-- What the other parts of the daemon answer: the id of the task and whether an earlier request has
made it, and the error of a delegation that fails. -/
structure Answers where
  runId : Str
  deduped : Bool := false
  delegation : Option Str := none

/-- Where a run goes; `nothing` is a request that finds the task of an earlier one, or gets no task.
-/
inductive Dispatch
  | subagent (spec : SubAgentSpec)
  | delegated (node : Str)
  | graph
  | queued
  | nothing

/-- `subagent.run_task`, up to the specification that it runs. The text of a Python exception is
left out of the detail. -/
def Daemon.runTask (d : Daemon) (r : RunRequest) (runId : Str) (spec : Members) :
    Except ApiError Dispatch :=
  if d.hasRuntime = false then .error ⟨.internalError, [], "runtime unavailable".toList⟩
  else
    let name :=
      if r.agentId = [] then "run-".toList ++ runId.drop (runId.length - 12) else r.agentId
    let spec :=
      setItem "task".toList (.str (strip r.goal)) (setDefault spec "name".toList (.str name))
    match SubAgentSpec.fromDict spec with
    | none => .error ⟨.internalError, [], "invalid spec: ".toList⟩
    | some spec => .ok (.subagent spec)

/-- The end of `v1_submit_run`, when the task has been submitted. -/
def Daemon.dispatch (d : Daemon) (a : Answers) (r : RunRequest) (spec : Members) :
    Option Str → Except ApiError Dispatch
  | none =>
    if spec ≠ [] ∧ a.runId ≠ [] ∧ a.deduped = false then d.runTask r a.runId spec
    else if r.graphId ≠ [] then .ok .graph
    else if a.deduped ∨ a.runId = [] then .ok .nothing
    else .ok .queued
  | some node =>
    if a.runId ≠ [] then
      match a.delegation with
      | some error => .error ⟨.internalError, [], error⟩
      | none => .ok (.delegated node)
    else if r.graphId ≠ [] then .ok .graph
    else .ok .nothing

/-- `v1_submit_run`. -/
def Daemon.submitRun (d : Daemon) (a : Answers) (r : RunRequest) : Except ApiError Dispatch :=
  if strip r.goal = [] then .error { code := .paramRequired, param := "goal" }
  else do
    let spec ← mergeSpec r
    let spec ← checkSpec spec
    let spec ← d.narrowTools r.agentId spec
    let sandbox ← parseSandbox r.sandbox
    d.dispatch a r spec sandbox

theorem bind_eq_ok {α β : Type} {x : Except ApiError α} {f : α → Except ApiError β} {b : β}
    (h : (x >>= f) = .ok b) : ∃ y, x = .ok y ∧ f y = .ok b := by
  cases x with
  | error e => cases h
  | ok y => exact ⟨y, rfl, h⟩

/-- `_spec_for_agent`: the specification with which the executor runs an agent. -/
def specForAgent (agentId : Str) (manifest : AgentManifest) : Members :=
  [("name".toList, .str agentId)] ++
    (if manifest.tools.isEmpty then [] else [("tools".toList, .arr manifest.tools)]) ++
    (if 0 < manifest.maxIterations then
      [("max_turns".toList, .num (Number.ofInt manifest.maxIterations))] else [])

end AgentStudio.Api

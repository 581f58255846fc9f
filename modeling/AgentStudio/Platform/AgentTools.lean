import AgentStudio.Platform.Door

/-!
# Capability tools

`sync_agent_tools` of `agent_runtime/capability_tools.py`: before an agent runs, the capabilities in
its manifest become tools of the registry that all agents share, and its other capability tools are
taken out. A tool has the name `bridgeToolName`, made of the first eight letters and digits of the
agent's identifier and of the capability's identifier, and it calls the door with what it was made
with (`Bridge`). `Bridge.run` is the function that the tool executes.

`toolStep` is a step of the daemon: a sync, or a call of a tool in the run of an agent. The log has,
for the proofs, the tools that a sync has taken from the registry, and the calls at the door beside
what the agent's last sync has registered.
-/

namespace AgentStudio.Platform

open PyText PyJson PyDict

/-! ### Names -/

/-- The first eight letters and digits of an identifier. -/
def agent8 (agentId : Str) : Str := (agentId.filter Char.isAlphanum).take 8

/-- `sane_name`. -/
def saneName (capabilityId : Str) : Str :=
  capabilityId.map fun c => if c.isAlphanum || c = '_' then c else '_'

/-- The beginning of the names of an agent's tools. -/
def toolPrefix (agentId : Str) : Str := "bt_" ++ agent8 agentId ++ ['_']

/-- `bridge_tool_name`. -/
def bridgeToolName (agentId capabilityId : Str) : Str := toolPrefix agentId ++ saneName capabilityId

/-! ### Tools -/

/-- What a capability tool holds: the variables that `_runner` has closed over. -/
structure Bridge where
  capabilityId : Str
  parameters : List (Str × ParamSpec)
  agentId : Str
  version : ℤ
  publisher : Str

inductive Tool where
  | bridge (b : Bridge)
  | other

abbrev ToolRegistry := List (Str × Tool)

/-- The manifest of an agent, as far as its tools go. -/
structure ToolManifest extends AgentManifest where
  author : Str := []
  tools : List Json := []

/-- What Python makes of JSON values: `text` is `str(value)` of a value that is no text, `float` the
number that a text stands for. -/
structure Conversions where
  text : Json → Str
  float : Str → Option Number

/-- `str(value)`. -/
def Conversions.str (c : Conversions) : Json → Str
  | .str s => s
  | value => c.text value

/-! ### Synchronising -/

/-- `_version_stamp`. -/
def versionStamp (m : ToolManifest) : ℤ :=
  if m.status = publishedStatus then if m.versionInt = 0 then 1 else m.versionInt else 0

/-- An entry of the tools of a manifest under its name: `by_name` is the dictionary of them. -/
def addEntry (c : Conversions) (d : List (Str × List (Str × Json))) :
    Json → List (Str × List (Str × Json))
  | .obj entry =>
    match entry.lookup "name".toList with
    | some name => if name.truthy then setItem (c.str name) entry d else d
    | none => d
  | .str name => setItem name [("name".toList, .str name)] d
  | _ => d

/-- `by_name`. -/
def byName (c : Conversions) (tools : List Json) : List (Str × List (Str × Json)) :=
  tools.foldl (addEntry c) []

/-- `entry.get("config")`, if it is a dictionary. -/
def configOf (entry : List (Str × Json)) : List (Str × Json) :=
  ((entry.lookup "config".toList).bind decodeObj).getD []

/-- The capability of an entry: the one that its config names, else its own name. -/
def capabilityOf (c : Conversions) (name : Str) (entry : List (Str × Json)) : Str :=
  match (configOf entry).lookup "capability_id".toList with
  | some id => if id.truthy then c.str id else name
  | none => name

/-- The description of a parameter in a manifest, if it is a dictionary. -/
def paramSpec (c : Conversions) : Json → Option ParamSpec
  | .obj v =>
    some {
      type := ((v.lookup "type".toList).map c.str).getD "string".toList
      required := ((v.lookup "required".toList).map Json.truthy).getD false }
  | _ => none

/-- What becomes of an entry: its capability is not known, it becomes a tool with some required
parameters, or an exception ends the sync. -/
inductive Resolved where
  | skipped
  | tool (parameters : List (Str × ParamSpec))
  | raised

/-- The parameters that are required, by the schema or by their own descriptions. -/
def requiredParams (properties : List (Str × ParamSpec)) (required : List Str) :
    List (Str × ParamSpec) :=
  properties.filter fun p => p.1 ∈ required || p.2.required

/-- The parameters in a manifest, of which one that is no dictionary raises an exception. -/
def embeddedParams (c : Conversions) (value : Json) : Resolved :=
  match if value.truthy then decodeObj value else some [] with
  | none => .raised
  | some properties =>
    match properties.mapM fun p => (paramSpec c p.2).map (Prod.mk p.1) with
    | none => .raised
    | some properties => .tool (requiredParams properties [])

/-- The parameters of an entry: those in the manifest, else those of the capability. -/
def resolve (c : Conversions) (caps : Capabilities) (capabilityId : Str)
    (entry : List (Str × Json)) : Resolved :=
  match (configOf entry).lookup "cap_params".toList with
  | some .null | none =>
    match getCapability caps capabilityId with
    | none => .skipped
    | some cap => .tool (requiredParams cap.params.properties cap.params.required)
  | some value => embeddedParams c value

/-- The tools that a sync registers, in order, and whether it gets through all entries. -/
def bridgesOf (c : Conversions) (caps : Capabilities) (agentId : Str) (m : ToolManifest) :
    List (Str × List (Str × Json)) → List (Str × Bridge) × Bool
  | [] => ([], true)
  | (name, entry) :: entries =>
    let capabilityId := capabilityOf c name entry
    if capabilityId = [] then bridgesOf c caps agentId m entries
    else
      match resolve c caps capabilityId entry with
      | .raised => ([], false)
      | .skipped => bridgesOf c caps agentId m entries
      | .tool parameters =>
        let rest := bridgesOf c caps agentId m entries
        ((bridgeToolName agentId capabilityId,
          { capabilityId, parameters, agentId, version := versionStamp m, publisher := m.author })
            :: rest.1, rest.2)

/-- The tools that a sync of a manifest registers, and whether it gets through. -/
def ToolManifest.bridges (m : ToolManifest) (c : Conversions) (caps : Capabilities)
    (agentId : Str) :
    List (Str × Bridge) × Bool :=
  bridgesOf c caps agentId m (byName c m.tools)

def ToolManifest.capabilities (m : ToolManifest) (c : Conversions) : List Str :=
  ((byName c m.tools).map fun e => capabilityOf c e.1 e.2).filter fun id => id ≠ []

/-- `wanted`. -/
def ToolManifest.wanted (m : ToolManifest) (c : Conversions) (agentId : Str) : List Str :=
  (m.capabilities c).map (bridgeToolName agentId)

/-- A name is one of the agent's that its manifest does not want. -/
def ToolManifest.stale (m : ToolManifest) (c : Conversions) (agentId name : Str) : Bool :=
  (toolPrefix agentId).isPrefixOf name && name ∉ m.wanted c agentId

/-- `sync_agent_tools` on the registry. -/
def syncAgentTools (c : Conversions) (caps : Capabilities) (agentId : Str) (m : ToolManifest)
    (tools : ToolRegistry) : ToolRegistry :=
  let (bridges, complete) := m.bridges c caps agentId
  let tools := bridges.foldl (fun d b => setItem b.1 (.bridge b.2) d) tools
  if complete then tools.filter fun t => !m.stale c agentId t.1 else tools

/-! ### Calling -/

structure DoorCall where
  capabilityId : Json
  params : List (Json × Json)
  agentId : Str
  version : ℤ
  publisher : Str

/-- The conversions of `_validate_tool_args`; a value that cannot be converted is left. -/
def Conversions.coerce (c : Conversions) (type : Str) (value : Json) : Json :=
  match value with
  | .bool b => if type = "string" then .str (c.str (.bool b)) else .bool b
  | .num n =>
    if type = "string" then .str (c.str (.num n))
    else if type = "integer" then
      .num (if n.scale = 0 then n else Number.ofInt ((pyInt (.num n)).getD 0))
    else if type = "boolean" then .bool (Json.truthy (.num n))
    else .num n
  | .str s =>
    if type = "number" then ((c.float s).map Json.num).getD (.str s)
    else if type = "integer" then
      ((pyInt (.str s)).map fun n => Json.num (Number.ofInt n)).getD (.str s)
    else if type = "boolean" then .bool (Json.truthy (.str s))
    else .str s
  | value =>
    if type = "string" then .str (c.str value)
    else if type = "boolean" then .bool value.truthy
    else value

/-- `_validate_tool_args`: a tool without parameters takes everything. -/
def Bridge.validate (b : Bridge) (c : Conversions) (args : List (Str × Json)) : List (Str × Json) :=
  if b.parameters = [] then args
  else args.filterMap fun a => (b.parameters.lookup a.1).map fun p => (a.1, c.coerce p.type a.2)

/-- `_merge_tool_config_defaults`. -/
def mergeDefaults (config args : List (Str × Json)) : List (Str × Json) :=
  args.foldl (fun d a => setItem a.1 a.2 d) config

def iterate : Json → Option (List Json)
  | .arr items => some items
  | .str s => some (s.map fun ch => .str [ch])
  | .obj ms => some (ms.map fun m => .str m.1)
  | _ => none

/-- A required parameter is missing; one that cannot be a key raises a `TypeError`. -/
def isMissing (kw : List (Str × Json)) : Json → Option Bool
  | .str p =>
    match kw.lookup p with
    | none | some .null | some (.str []) => some true
    | some _ => some false
  | .arr _ | .obj _ => none
  | _ => some true

/-- `missing` of `_runner`. -/
def missingOf (kw : List (Str × Json)) : List Json → Option (List Json)
  | [] => some []
  | p :: ps => do
    let missing ← isMissing kw p
    let rest ← missingOf kw ps
    some (if missing then p :: rest else rest)

/-- The parameters of a call: one stray text goes to the only required parameter that is missing. -/
def callParams (missing : List Json) (kw : List (Str × Json)) : List (Json × Json) :=
  match missing, kw with
  | [p], [(_, .str s)] =>
    if strip s = [] then kw.map fun a => (.str a.1, a.2) else [(p, .str (strip s))]
  | _, _ => kw.map fun a => (.str a.1, a.2)

/-- `_cap_id` of `_runner`: a parameter with a default, which the arguments of the call may set. -/
def Bridge.capId (b : Bridge) (args : List (Str × Json)) : Json :=
  (args.lookup "_cap_id".toList).getD (.str b.capabilityId)

/-- `_required` of `_runner`, likewise. -/
def Bridge.requiredOf (b : Bridge) (args : List (Str × Json)) : Option (List Json) :=
  match args.lookup "_required".toList with
  | none => some (b.parameters.map fun p => .str p.1)
  | some value => iterate value

/-- `_runner`, where it raises no exception. -/
def Bridge.run (b : Bridge) (args : List (Str × Json)) : Option DoorCall :=
  let kw := pop "_cap_id".toList (pop "_required".toList args)
  ((b.requiredOf args).bind (missingOf kw)).map fun missing => {
    capabilityId := b.capId args
    params := callParams missing kw
    agentId := b.agentId
    version := b.version
    publisher := b.publisher }

def Bridge.arguments (b : Bridge) (c : Conversions) (config args : List (Str × Json)) :
    List (Str × Json) :=
  mergeDefaults config (b.validate c args)

/-- A tool call of a run; `execute(**args)` has a parameter `self` already. -/
def Bridge.execute (b : Bridge) (c : Conversions) (config args : List (Str × Json)) :
    Option DoorCall :=
  let arguments := b.arguments c config args
  if (arguments.lookup "self".toList).isSome then none else b.run arguments

/-! ### The daemon -/

/-- What the last sync of an agent was made with. -/
structure Synced where
  version : ℤ
  publisher : Str
  capabilities : List Str

/-- An entry of the log: the capability tools that a sync has replaced or taken out, or a call at
the door in a run of an agent, with the name of the tool and the agent's last sync. -/
inductive ToolEvent where
  | synced (agentId : Str) (dropped : List Bridge)
  | called (agentId name : Str) (last : Option Synced) (call : DoorCall)

/-- The registry, the last syncs of the agents, and the log. -/
structure ToolState where
  tools : ToolRegistry := []
  last : List (Str × Synced) := []
  log : List ToolEvent := []

/-- A step: an agent is synchronised, or a run of an agent calls a tool by its name. The config is
what the execution has for the tool. -/
inductive ToolOp where
  | sync (agentId : Str) (m : ToolManifest) (caps : Capabilities)
  | call (agentId name : Str) (config args : List (Str × Json))

/-- The capability tools in the registry that a sync replaces or takes out. -/
def droppedBy (c : Conversions) (caps : Capabilities) (agentId : Str) (m : ToolManifest)
    (tools : ToolRegistry) : List Bridge :=
  let (bridges, complete) := m.bridges c caps agentId
  tools.filterMap fun t =>
    match t.2 with
    | .bridge b =>
      if t.1 ∈ bridges.map Prod.fst ∨ (complete ∧ m.stale c agentId t.1) then some b else none
    | .other => none

def toolStep (c : Conversions) : ToolOp → ToolState → Option DoorCall × ToolState
  | .sync agentId m caps, s =>
    (none, {
      tools := syncAgentTools c caps agentId m s.tools
      last := setItem agentId ⟨versionStamp m, m.author, m.capabilities c⟩ s.last
      log := .synced agentId (droppedBy c caps agentId m s.tools) :: s.log })
  | .call agentId name config args, s =>
    match s.tools.lookup name with
    | some (.bridge b) =>
      match b.execute c config args with
      | some call =>
        (some call, { s with log := .called agentId name (s.last.lookup agentId) call :: s.log })
      | none => (none, s)
    | _ => (none, s)

end AgentStudio.Platform

import AgentStudio.Agents.Manifest
import AgentStudio.Connectors.Manager
import AgentStudio.Library.FileTree
import AgentStudio.Library.Undo
import AgentStudio.Runtime.Policy

/-!
# Bundles

`BundleInstaller` of `agent_runtime/bundle_package.py`. A bundle is a manifest with facets: agents,
skills, hooks, connectors, a graph and MCP servers. `install` installs them one after the other; a
facet that answers with an error does not stop the others, and when there are errors in the end,
what has been registered is uninstalled again. An exception that a facet does not catch leaves
`install` at once.

What a facet does is a `Plan`: it stops with an outcome, or it makes some writes and has an outcome
then. A write changes what the stores have under one key (`Studio`), and the exceptions of the
stores are a `Fault` of the world: they come up after any number of the writes, and a file that is
being written then is left with any text. The removals of a rollback are taken to succeed, and so is
the writing of the record, unless `Environment.registry` says otherwise.

What `str` makes of a value, the classes of hooks and graphs, which read a specification from JSON,
and the configuration of the installer are its fields. `index.json` is what it says of each agent,
and a connector is the one in the memory of the manager; the history of a graph and the tools of an
MCP server are left out, and a key of a dictionary that is not a string.
-/

namespace AgentStudio.Bundles

open PyText PyDict PyJson Undo Connectors

/-! ### The world -/

inductive Kind
  | osError
  | valueError
  | typeError
  | keyError
  | attributeError
  | other
deriving DecidableEq

/-- An exception of the stores: after how many writes it comes up, and the text that is then left of
a file that is being written. -/
structure Fault where
  after : ℕ
  left : Str
  kind : Kind

/-- What an MCP server says of itself. -/
structure Discovery where
  tools : List Json
  extensions : Json

/-- What a facet meets while it is installed: the time, what `uuid4` draws, an exception of the
stores, the texts of exceptions, the file of a skill, the environment variables (blank where there
is none), the keychain (the text of an error, or the output where there is an item), the verdict of
the MCP safety policy, and the answer of an MCP server. -/
structure World where
  now : ℤ
  uuid : Str
  fault : Option Fault
  text : Kind → Str
  read : Except Kind Str
  environ : Str → Str
  keychain : Str → Except Str (Option Str)
  blocked : Option Str
  discovered : Option Discovery

/-- An installer: `str`, the classes of hooks and graphs, and whether it has a graph store and the
two functions for MCP servers. Hooks are equal when `to_dict` makes the same of them, and lie in the
bucket of their event. -/
structure Installer (Hook Graph : Type) where
  str : Json → Str
  hookOf : Json → Except Kind Hook
  event : Hook → Str
  graphOf : Str → Json → Except Kind Graph
  graphId : Graph → Str
  graphStore : Bool
  mcpRegister : Bool
  mcpUnregister : Bool

/-! ### The stores -/

/-- A directory with files of its own: `agents_dir` or `skills_dir`. -/
inductive Area
  | agents
  | skills
deriving DecidableEq

/-- What a value is stored under: a path below a directory, an agent of the index, the event of some
hooks, or an identifier. -/
inductive Key
  | file (area : Area) (path : List Str)
  | entry (agentId : Str)
  | hooks (event : Str)
  | connector (connectorId : Str)
  | graph (graphId : Str)
  | server (key : Str)
deriving DecidableEq

structure GraphRow (Graph : Type) where
  graph : Graph
  createdAt : ℤ
  updatedAt : ℤ

structure Server where
  tools : List Json
  headers : Json
  extensions : Json
  transport : Str

abbrev Value (Hook Graph : Type) : Key → Type
  | .file _ _ => Option (FileTree.Node Str)
  | .entry _ => Option Agents.Members
  | .hooks _ => List Hook
  | .connector _ => Option ConnectorConfig
  | .graph _ => Option (GraphRow Graph)
  | .server _ => Option Server

abbrev Studio (Hook Graph : Type) : Type := (k : Key) → Value Hook Graph k

def blank (Hook Graph : Type) : Studio Hook Graph
  | .file _ _ => none
  | .entry _ => none
  | .hooks _ => []
  | .connector _ => none
  | .graph _ => none
  | .server _ => none

variable {Hook Graph : Type}

/-! ### Writes and plans -/

/-- A write, and what an exception in its middle leaves, given the text that is left. -/
structure Write (Hook Graph : Type) extends Edit (Value Hook Graph) where
  torn : Str → Value Hook Graph key → Value Hook Graph key

def put (key : Key) (change : Value Hook Graph key → Value Hook Graph key) : Write Hook Graph :=
  ⟨⟨key, change⟩, fun _ v => v⟩

/-- `mkdir(exist_ok=True)`. -/
def mkdir (area : Area) (path : List Str) : Write Hook Graph :=
  put (.file area path) fun v => some (v.getD .dir)

def save (area : Area) (path : List Str) (text : Str) : Write Hook Graph :=
  ⟨⟨.file area path, fun _ => some (.file text)⟩, fun left _ => some (.file left)⟩

/-- A file is written unless there is one. -/
def keep (area : Area) (path : List Str) (text : Str) : Write Hook Graph :=
  ⟨⟨.file area path, fun v => some (v.getD (.file text))⟩, fun left v => some (v.getD (.file left))⟩

/-- An entry of `registered`. -/
inductive Registered (Hook : Type)
  | agent (agentId : Str)
  | skill (name : Str)
  | hook (h : Hook)
  | connector (connectorId : Str)
  | graph (graphId : Str)
  | server (key : Str)
deriving DecidableEq

/-- How the installation of a facet ends. -/
inductive Outcome (Hook : Type)
  | installed (r : Registered Hook)
  | failed (message : Str)
  | raised (kind : Kind)

/-- What a facet does: it stops before any write, or it writes; an exception of the stores that it
catches then is an error with a message. -/
inductive Plan (Hook Graph : Type)
  | stop (outcome : Outcome Hook)
  | write (writes : List (Write Hook Graph)) (outcome : Outcome Hook) (caught : Kind → Option Str)

def World.made (w : World) (writes : List (Write Hook Graph)) : List (Edit (Value Hook Graph)) :=
  match w.fault with
  | none => writes.map Write.toEdit
  | some f => (writes.take f.after).map Write.toEdit ++
      (writes.drop f.after).head?.toList.map fun x => ⟨x.key, x.torn f.left⟩

namespace Plan

def edits (w : World) : Plan Hook Graph → List (Edit (Value Hook Graph))
  | stop _ => []
  | write writes _ _ => w.made writes

def outcome (w : World) : Plan Hook Graph → Outcome Hook
  | stop o => o
  | write _ o caught =>
    match w.fault with
    | none => o
    | some f =>
      match caught f.kind with
      | some message => .failed message
      | none => .raised f.kind

end Plan

/-! ### Reading specifications -/

/-- `str(value)`. -/
def Installer.strOf (c : Installer Hook Graph) : Json → Str
  | .str s => s
  | v => c.str v

/-- `str(spec.get(key, "") or "")`. -/
def Installer.textOf (c : Installer Hook Graph) (spec : Agents.Members) (key : String) : Str :=
  match spec.lookup key.toList with
  | none => []
  | some v => if v.truthy then c.strOf v else []

/-- `_SAFE_NAME_RE` leaves the character. -/
def safeChar (ch : Char) : Bool := ch.isAlphanum || ch = '_' || ch = '-'

/-- `_SAFE_NAME_RE.sub("-", s)`, after a character that it replaces or not. -/
def dashed : Bool → Str → Str
  | _, [] => []
  | replaced, ch :: s =>
    if safeChar ch then ch :: dashed false s
    else if replaced then dashed true s else '-' :: dashed true s

/-- `s.strip("-")`. -/
def stripDashes (s : Str) : Str :=
  ((s.dropWhile (· = '-')).reverse.dropWhile (· = '-')).reverse

/-- `_slug`; a value that is not a string raises. -/
def slug (now : ℤ) (name : Json) : Option Str :=
  if name.truthy then
    (decodeStr name).map fun s =>
      let cleaned := stripDashes (dashed false (Runtime.lowerAll (strip s)))
      if cleaned = [] then "bundle-" ++ (Number.ofInt now).toStr else cleaned
  else some ("bundle-" ++ (Number.ofInt now).toStr)

/-- An element of a list that `dict` reads: two values, the first of which can be a key. -/
def pairOf : Json → Except Kind (Option (Str × Json))
  | .arr [.str k, v] => .ok (some (k, v))
  | .arr [.arr _, _] | .arr [.obj _, _] => .error .typeError
  | .arr [_, _] => .ok none
  | .obj [(k, _), (v, _)] => .ok (some (k, .str v))
  | .str [k, v] => .ok (some ([k], .str [v]))
  | .arr _ | .obj _ | .str _ => .error .valueError
  | _ => .error .typeError

/-- `dict(value)`. -/
def dictOf : Json → Except Kind Agents.Members
  | .obj d => .ok d
  | .arr vs => (vs.mapM pairOf).map fun pairs => ofPairs (pairs.filterMap id)
  | .str [] => .ok []
  | .str _ => .error .valueError
  | _ => .error .typeError

/-! ### Agents and skills -/

def packageDir : Str := ".fusion-agent"

/-- The writes of `AgentPackage(agent_dir).init(manifest, soul)` and of the index. -/
def agentWrites (agentId : Str) (manifest : Agents.AgentManifest) (soul : Str) :
    List (Write Hook Graph) :=
  let path (names : List String) : List Str := agentId :: packageDir :: names.map String.toList
  [mkdir .agents [agentId], mkdir .agents (path []), mkdir .agents (path ["knowledge"]),
    mkdir .agents (path ["skills"]), mkdir .agents (path ["workspace"]),
    save .agents (path ["manifest.json"]) (dumps (some 4) (.obj manifest.toDict)),
    if soul = [] then keep .agents (path ["soul.md"]) Agents.defaultSoul
      else save .agents (path ["soul.md"]) soul,
    keep .agents (path ["memory.md"]) [],
    put (.entry agentId) fun _ => some (setItem "id" (.str agentId) manifest.toDict)]

/-- `_install_agent`. A name that is false is none, and then the slug is made of the time. -/
def installAgent (c : Installer Hook Graph) (w : World) (spec : Json) : Plan Hook Graph :=
  match decodeObj spec with
  | none => .stop (.raised .attributeError)
  | some d =>
    let manifest := Agents.AgentManifest.fromDict d
    let name := if (manifest .name).truthy then manifest .name else .str []
    match slug w.now name with
    | none => .stop (.raised .attributeError)
    | some agentId =>
      .write (agentWrites agentId (manifest.set .name name) (c.textOf d "soul"))
        (.installed (.agent agentId)) fun _ => none

/-- The name of a skill matches `^[A-Za-z0-9_-]+$`, which allows a line break at the end. -/
def validName (name : Str) : Bool :=
  let name := if name.getLast? = some '\n' then name.dropLast else name
  decide (name ≠ []) && name.all safeChar

/-- `content if content.endswith("\n") else content + "\n"`. -/
def endLine (content : Str) : Str :=
  if content.getLast? = some '\n' then content else content ++ ['\n']

/-- The message of an exception that `_install_skill` catches. -/
def skillCaught (w : World) (name : Str) (kind : Kind) : Option Str :=
  if kind = .osError ∨ kind = .valueError then
    some ("skill " ++ name ++ ": " ++ w.text kind)
  else none

/-- `install_skill`, with the exceptions that `_install_skill` catches. -/
def installContent (w : World) (name content : Str) : Plan Hook Graph :=
  if content = [] then
    .stop (.failed ("skill " ++ name ++ ": content or path required"))
  else if validName name then
    .write [mkdir .skills [name], save .skills [name, "SKILL.md"] (endLine content)]
      (.installed (.skill name)) (skillCaught w name)
  else .stop (.failed ("skill " ++ name ++ ": " ++ w.text .valueError))

/-- `_install_skill`. The text of an exception at reading has the path in front. -/
def installSkill (c : Installer Hook Graph) (w : World) (spec : Json) : Plan Hook Graph :=
  match decodeObj spec with
  | none => .stop (.raised .attributeError)
  | some d =>
    let name := c.textOf d "name"
    let content := c.textOf d "content"
    if name = [] then .stop (.failed "skill facet requires a name")
    else if content = [] ∧ ((d.lookup "path".toList).any Json.truthy) then
      match w.read with
      | .ok text => installContent w name text
      | .error .osError =>
        .stop (.failed ("skill " ++ name ++ ": cannot read " ++ w.text .osError))
      | .error kind => .stop (.raised kind)
    else installContent w name content

/-! ### Hooks and graphs -/

/-- `_install_hook`. -/
def installHook (c : Installer Hook Graph) (w : World) (spec : Json) : Plan Hook Graph :=
  match c.hookOf spec with
  | .error kind =>
    if kind = .keyError ∨ kind = .typeError then
      .stop (.failed ("hook invalid: " ++ w.text kind))
    else .stop (.raised kind)
  | .ok h =>
    .write [put (.hooks (c.event h)) fun (bucket : List Hook) => bucket ++ [h]]
      (.installed (.hook h)) fun _ => none

/-- The row of a graph after `save_graph`. -/
def savedRow (g : Graph) (now : ℤ) (row : Option (GraphRow Graph)) : GraphRow Graph :=
  ⟨g, (row.map GraphRow.createdAt).getD now, now⟩

/-- `_install_graph`. -/
def installGraph (c : Installer Hook Graph) (w : World) (spec : Json) : Plan Hook Graph :=
  if c.graphStore then
    match c.graphOf w.uuid spec with
    | .error kind =>
      if kind = .keyError ∨ kind = .typeError ∨ kind = .valueError then
        .stop (.failed ("graph invalid: " ++ w.text kind))
      else .stop (.raised kind)
    | .ok g =>
      .write [put (.graph (c.graphId g)) fun row => some (savedRow g w.now row)]
        (.installed (.graph (c.graphId g))) fun _ => none
  else .stop (.failed "graph facet requires a graph store")

/-! ### Connectors -/

/-- `CREDENTIAL_KEYS`. -/
def credentialKeys : List Str :=
  ["api_key", "secret", "client_secret", "password", "token"]

/-- `_credential_value`: the value that a reference stands for, or what is wrong with it. -/
def credentialValue (w : World) (key : Str) : Json → Except Str Str
  | .str value =>
    if value = [] then .error (key ++ " must be a reference string")
    else if "env:".toList.isPrefixOf value then
      let name := strip (value.drop 4)
      if w.environ name = [] then
        .error (key ++ ": env " ++ name ++ " is not set")
      else .ok (w.environ name)
    else if "keychain:".toList.isPrefixOf value then
      let item := strip (value.drop 9)
      match w.keychain item with
      | .error e => .error (key ++ ": keychain lookup failed: " ++ e)
      | .ok output =>
        let found := strip (output.getD [])
        if found = [] then .error (key ++ ": keychain item " ++ item ++ " not found")
        else .ok found
    else .error (key ++
      ": inline credentials are not allowed; use env:NAME or keychain:item")
  | _ => .error (key ++ " must be a reference string")

/-- The credentials of `auth_config` are resolved, as far as the first that cannot be. -/
def resolveCredentials (w : World) : List Str → Agents.Members → Except Str Agents.Members
  | [], auth => .ok auth
  | key :: keys, auth =>
    match auth.lookup key with
    | none => resolveCredentials w keys auth
    | some v =>
      match credentialValue w key v with
      | .error problem => .error problem
      | .ok resolved => resolveCredentials w keys (setItem key (.str resolved) auth)

/-- A specification of a connector that has been read: its identifier, `name` and `type`, and what
is needed to log in. -/
structure ConnectorSpec where
  connectorId : Str
  name : Option Json
  type : Json
  auth : Agents.Members

/-- The part of `_install_connector` before the manager. -/
def readConnector (c : Installer Hook Graph) (w : World) (spec : Json) :
    Except (Outcome Hook) ConnectorSpec :=
  match decodeObj spec with
  | none => .error (.raised .attributeError)
  | some d =>
    let connectorId := c.textOf d "id"
    if connectorId = [] then .error (.failed "connector facet requires an id")
    else
      let given := (d.lookup "auth_config".toList).getD .null
      match dictOf (if given.truthy then given else .obj []) with
      | .error kind => .error (.raised kind)
      | .ok auth =>
        match resolveCredentials w credentialKeys auth with
        | .error problem => .error (.failed
            ("connector " ++ connectorId ++ ": " ++ problem))
        | .ok auth => .ok ⟨connectorId, d.lookup "name".toList,
            (d.lookup "type".toList).getD (.str "api_key".toList), auth⟩

namespace ConnectorSpec

variable (x : ConnectorSpec)

/-- The connector that `create` makes. -/
def created (c : Installer Hook Graph) (now : ℤ) : ConnectorConfig :=
  ⟨x.connectorId, .str (c.strOf (x.name.getD (.str x.connectorId))), .str (c.strOf x.type),
    .obj x.auth, .str "disconnected", now, now, none, .str [], [], [], none⟩

/-- The connector that `update` leaves. -/
def updated (now : ℤ) (cfg : ConnectorConfig) : ConnectorConfig :=
  { cfg.assign [("name", x.name.getD (.str [])), ("auth_config", .obj x.auth)] with
    updatedAt := now }

end ConnectorSpec

/-- `_install_connector`, with the connector that has the identifier. -/
def installConnector (c : Installer Hook Graph) (w : World) (spec : Json)
    (find : Str → Option ConnectorConfig) : Plan Hook Graph :=
  match readConnector c w spec with
  | .error outcome => .stop outcome
  | .ok x =>
    match find x.connectorId with
    | some cfg =>
      .write [put (.connector x.connectorId) fun _ => some (x.updated w.now cfg)]
        (.installed (.connector x.connectorId)) fun _ => none
    | none =>
      if c.strOf x.type ∈ validTypes then
        .write [put (.connector x.connectorId) fun _ => some (x.created c w.now)]
          (.installed (.connector x.connectorId)) fun _ => none
      else
        .write [] (.failed ("connector " ++ x.connectorId ++
          ": Invalid connector type: " ++ c.strOf x.type ++
          ". Valid: ('oauth2', 'api_key', 'webhook')")) fun _ => none

/-! ### MCP servers -/

/-- A member of a dictionary whose value is true. -/
def truthyAt (d : Agents.Members) (key : String) : Option Json :=
  (d.lookup key.toList).filter Json.truthy

/-- The URL of a specification, or whatever stands for it. -/
def serverUrl (d : Agents.Members) : Option Json :=
  (truthyAt d "server_url").or ((truthyAt d "sse_url").or (truthyAt d "post_url"))

/-- `" ".join(stdio_cmd)`; `none` is an exception. -/
def joinCommand : Json → Option Str
  | .str s => some (List.intercalate " " (s.map fun ch => [ch]))
  | .arr vs => (vs.mapM decodeStr).map (List.intercalate " ")
  | _ => none

/-- What `register_server` of the registry has the server under; `none` where it has no transport
or does not come to that. -/
def serverKey (d : Agents.Members) : Option Str :=
  match truthyAt d "stdio_cmd", truthyAt d "server_url", truthyAt d "sse_url" with
  | none, none, none => none
  | none, none, some url => if (truthyAt d "post_url").isSome then decodeStr url else none
  | _, some url, _ => decodeStr url
  | some _, none, some url => decodeStr url
  | some command, none, none => joinCommand command

def serverOf (d : Agents.Members) (found : Discovery) : Server :=
  ⟨found.tools, (d.lookup "headers".toList).getD .null, found.extensions,
    if (truthyAt d "stdio_cmd").isSome then "stdio"
    else if (truthyAt d "sse_url").isSome then "sse" else "http"⟩

/-- What the registry writes: a server that does not answer is logged and left out. -/
def serverWrites (w : World) (d : Agents.Members) : List (Write Hook Graph) :=
  match w.discovered, serverKey d with
  | some found, some key => [put (.server key) fun _ => some (serverOf d found)]
  | _, _ => []

def registeredKey (c : Installer Hook Graph) (d : Agents.Members) : Str :=
  match (serverUrl d).map c.strOf with
  | some (ch :: url) => ch :: url
  | _ =>
    match d.lookup "stdio_cmd".toList with
    | none => []
    | some command => c.strOf command

/-- The exception that `mcp.register_server` raises at values of other types than it expects. -/
def illTyped (d : Agents.Members) : Option Kind :=
  match serverUrl d, truthyAt d "stdio_cmd" with
  | some (.str _), none | none, none => none
  | some (.str _), some (.str _) | none, some (.str _) => none
  | some (.str _), some (.arr _) | none, some (.arr _) => none
  | some (.str _), some (.obj _) | none, some (.obj _) => some .keyError
  | some (.str _), some _ | none, some _ => some .typeError
  | some _, _ => some .attributeError

/-- `_install_mcp`, with `mcp.register_server` for a registrar. A specification that `dict` makes a
dictionary of without being one raises when the server has been registered. -/
def installMcp (c : Installer Hook Graph) (w : World) (spec : Json) : Plan Hook Graph :=
  let failed (text : Str) : Outcome Hook := .failed ("mcp server: " ++ text)
  if c.mcpRegister then
    match dictOf spec with
    | .error kind => .stop (failed (w.text kind))
    | .ok d =>
      match w.blocked, illTyped d with
      | some reason, _ => .stop (failed ("blocked by MCP safety policy: " ++ reason))
      | none, some kind => .stop (failed (w.text kind))
      | none, none =>
        .write (serverWrites w d)
          (match spec with
            | .obj _ => .installed (.server (registeredKey c d))
            | _ => .raised .attributeError)
          fun kind => some ("mcp server: " ++ w.text kind)
  else .stop (.failed "mcp facet requires an MCP registrar")

/-! ### Facets -/

inductive Facet
  | agent (spec : Json)
  | skill (spec : Json)
  | hook (spec : Json)
  | connector (spec : Json)
  | graph (spec : Json)
  | mcp (spec : Json)

/-- The plan of a facet; only that of a connector depends on what the stores have. -/
def Facet.plan (c : Installer Hook Graph) (w : World) (s : Studio Hook Graph) :
    Facet → Plan Hook Graph
  | agent spec => installAgent c w spec
  | skill spec => installSkill c w spec
  | hook spec => installHook c w spec
  | connector spec => installConnector c w spec fun id => s (.connector id)
  | graph spec => installGraph c w spec
  | mcp spec => installMcp c w spec

/-- How far an installation has come. -/
structure Progress (Hook Graph : Type) where
  studio : Studio Hook Graph
  registered : List (Registered Hook)
  errors : List Str

/-- One facet; an exception leaves the stores as they are then. -/
def installFacet (c : Installer Hook Graph) (x : Facet × World) (p : Progress Hook Graph) :
    Except (Kind × Studio Hook Graph) (Progress Hook Graph) :=
  let plan := x.1.plan c x.2 p.studio
  let studio := runAll (plan.edits x.2) p.studio
  match plan.outcome x.2 with
  | .raised kind => .error (kind, studio)
  | .failed message => .ok ⟨studio, p.registered, p.errors ++ [message]⟩
  | .installed r => .ok ⟨studio, p.registered ++ [r], p.errors⟩

/-- The facets, one after the other, as far as an exception. -/
def installFacets (c : Installer Hook Graph) :
    List (Facet × World) → Progress Hook Graph →
      Except (Kind × Studio Hook Graph) (Progress Hook Graph)
  | [], p => .ok p
  | x :: rest, p =>
    match installFacet c x p with
    | .error e => .error e
    | .ok p => installFacets c rest p

/-! ### Uninstalling -/

namespace Registered

/-- Whether the removal of an entry blanks what is under a key. -/
def covers (c : Installer Hook Graph) : Registered Hook → Key → Bool
  | agent agentId, .file .agents path => [agentId].isPrefixOf path
  | agent agentId, .entry id => decide (id = agentId)
  | skill name, .file .skills path => [name].isPrefixOf path
  | connector connectorId, .connector id => decide (id = connectorId)
  | graph graphId, .graph id => c.graphStore && decide (id = graphId)
  | server key, .server id => decide (key ≠ []) && c.mcpUnregister && decide (id = key)
  | _, _ => false

variable [DecidableEq Hook]

/-- A bucket without the hooks that are equal to a registered one. -/
def eraseHooks (c : Installer Hook Graph) (event : Str) (bucket : List Hook) :
    Registered Hook → List Hook
  | hook h => if c.event h = event then bucket.filter (· ≠ h) else bucket
  | _ => bucket

def erase (c : Installer Hook Graph) (r : Registered Hook) :
    (k : Key) → Value Hook Graph k → Value Hook Graph k
  | .file area path, v => if r.covers c (.file area path) then none else v
  | .entry id, v => if r.covers c (.entry id) then none else v
  | .hooks event, bucket => r.eraseHooks c event bucket
  | .connector id, v => if r.covers c (.connector id) then none else v
  | .graph id, v => if r.covers c (.graph id) then none else v
  | .server key, v => if r.covers c (.server key) then none else v

def removes (c : Installer Hook Graph) (s : Studio Hook Graph) : Registered Hook → Bool
  | agent _ => true
  | skill name => validName name && (s (.file .skills [name])).isSome
  | hook h => decide (h ∈ s (.hooks (c.event h)))
  | connector _ => true
  | graph graphId => c.graphStore && (s (.graph graphId)).isSome
  | server key => decide (key ≠ [])

/-- The place of a kind of entries in the order of `uninstall_facets`. -/
def rank : Registered Hook → ℕ
  | server _ => 0
  | connector _ => 1
  | hook _ => 2
  | skill _ => 3
  | graph _ => 4
  | agent _ => 5

/-- The entries in the order of `uninstall_facets`. -/
def inOrder (rs : List (Registered Hook)) : List (Registered Hook) :=
  (List.range 6).flatMap fun i => rs.filter fun r => r.rank = i

end Registered

/-- `uninstall_facets`: what is listed as removed, and the stores. -/
def uninstallFacets [DecidableEq Hook] (c : Installer Hook Graph)
    (registered : List (Registered Hook)) (s : Studio Hook Graph) :
    List (Registered Hook) × Studio Hook Graph :=
  (Registered.inOrder registered).foldl
    (fun x r => (if r.removes c x.2 then x.1 ++ [r] else x.1, fun k => r.erase c k (x.2 k)))
    ([], s)

/-! ### Installing a bundle -/

structure BundleManifest where
  name : Str
  agent : Json
  agents : List Json
  graph : Json
  skills : List Json
  hooks : List Json
  connectors : List Json
  mcpServers : List Json

def orElse (data : Agents.Members) (keys : List String) : Json :=
  (keys.findSome? (truthyAt data)).getD .null

/-- `BundleManifest.from_dict`. -/
def BundleManifest.fromDict (c : Installer Hook Graph) (data : Agents.Members) :
    Except Raised BundleManifest := do
  let agents ← listOr (orElse data ["agents"])
  let skills ← listOr (orElse data ["skills"])
  let hooks ← listOr (orElse data ["hooks"])
  let connectors ← listOr (orElse data ["connectors"])
  let mcpServers ← listOr (orElse data ["mcp_servers", "mcpServers"])
  return ⟨c.textOf data "name", orElse data ["agent"], agents, orElse data ["graph"], skills, hooks,
    connectors, mcpServers⟩

/-- The facets, in the order in which they are installed. -/
def BundleManifest.facets (m : BundleManifest) : List Facet :=
  ((if m.agent.truthy then [m.agent] else []) ++ m.agents).map .agent ++ m.skills.map .skill ++
    m.hooks.map .hook ++ m.connectors.map .connector ++
    (if m.graph.truthy then [.graph m.graph] else []) ++ m.mcpServers.map .mcp

/-- The bundle and the world around it: its path and the name of its directory, the candidates for
its manifest (`none` for one that is missing or cannot be read), what each facet meets, and an
exception when the record is written. -/
structure Environment where
  path : Str
  dirName : Str
  candidates : List (Option Json)
  world : ℕ → World
  registry : Option Kind

/-- `load_bundle_manifest`: the first candidate that is a dictionary. -/
def loadBundleManifest (c : Installer Hook Graph) (candidates : List (Option Json)) :
    Option (Except Raised BundleManifest) :=
  (candidates.findSome? fun candidate => candidate.bind decodeObj).map (BundleManifest.fromDict c)

/-- The facets of the bundle with what each of them meets. -/
def Environment.facets (e : Environment) (c : Installer Hook Graph) : List (Facet × World) :=
  match loadBundleManifest c e.candidates with
  | some (.ok m) => m.facets.zipIdx.map fun x => (x.1, e.world x.2)
  | _ => []

/-- What `install` answers, or an exception. -/
inductive Result (Hook : Type)
  | refused (error : Str)
  | rolledBack (name : Str) (errors : List Str) (removed : List (Registered Hook))
  | installed (name : Str) (facets : List (Registered Hook))
  | raised (kind : Kind)

def Result.ok : Result Hook → Bool
  | installed _ _ => true
  | _ => false

/-- The end of `install`: an exception leaves it, the facets are uninstalled again, or the record is
written. -/
def finish [DecidableEq Hook] (c : Installer Hook Graph) (e : Environment) (name : Str) :
    Except (Kind × Studio Hook Graph) (Progress Hook Graph) → Result Hook × Studio Hook Graph
  | .error (kind, studio) => (.raised kind, studio)
  | .ok p =>
    if p.errors = [] then
      match e.registry with
      | none => (.installed name p.registered, p.studio)
      | some kind => (.raised kind, p.studio)
    else
      (.rolledBack name p.errors (uninstallFacets c p.registered p.studio).1,
        (uninstallFacets c p.registered p.studio).2)

/-- `install`. -/
def install [DecidableEq Hook] (c : Installer Hook Graph) (e : Environment)
    (s : Studio Hook Graph) : Result Hook × Studio Hook Graph :=
  match loadBundleManifest c e.candidates with
  | none => (.refused ("bundle manifest not found under " ++ e.path), s)
  | some (.error _) => (.raised .typeError, s)
  | some (.ok m) =>
    if m.facets = [] then (.refused "manifest has no bundle facets", s)
    else finish c e (if m.name = [] then e.dirName else m.name)
      (installFacets c (e.facets c) ⟨s, [], []⟩)

end AgentStudio.Bundles

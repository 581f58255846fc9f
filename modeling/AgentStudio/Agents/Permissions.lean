import AgentStudio.Agents.Manifest
import AgentStudio.Execution.Runs
import AgentStudio.Platform.AgentTools

/-!
# Denied tools and the tools of a run

`permission.update` of `agent_runtime/dispatchers/agent.py` keeps a list `denied_tools` in
`definition.json` of an agent (`permissionUpdate`). The graph of a run of the agent is the ad-hoc
graph of its manifest (`adhocGraph`) or a graph of its own, and the model is offered the schemas of
the registry that its role sees: as many as are put inline, without those that the allowlist of the
node leaves out (`toolsSchema`, `nodeTools`).

An `AgentRun` is a run of such a graph with what the registry has at each question. It `Offers` the
tools that it shows the model when it asks for an answer, and it `Executes` the tools that it calls.
A run inside a run is a run of its own graph.

Other handlers write `manifest.json` and nothing else of an agent, and nobody else writes
`definition.json`; here `write` stands for all that gives an agent other files.
-/

namespace AgentStudio.Agents

open PyText PyDict PyJson AgentStudio.Graph AgentStudio.Execution Programs
open Platform (Conversions ToolRegistry bridgeToolName)

/-! ### The deny list -/

/-- The files of an agent: its manifest, and `definition.json` if there is one. -/
structure AgentFiles where
  manifest : AgentManifest
  definition : Option Members := none

abbrev AgentsDir := Str → Option AgentFiles

/-- The key of the deny list in `definition.json`. -/
def deniedKey : Str := "denied_tools"

/-- `tool in denied`, where `same` is `==`; `none` is an exception. -/
def containsTool (same : Json → Json → Bool) (tool : Json) : Json → Option Bool
  | .arr denied => some (denied.any (same tool))
  | .str denied => (decodeStr tool).map fun text => text <:+: denied
  | .obj denied =>
    match tool with
    | .str key => some (denied.lookup key).isSome
    | .arr _ | .obj _ => none
    | _ => some false
  | _ => none

/-- `denied.append(tool)`. -/
def appendTool (tool : Json) : Json → Option Json
  | .arr denied => some (.arr (denied ++ [tool]))
  | _ => none

/-- `denied.remove(tool)`. -/
def removeTool (same : Json → Json → Bool) (tool : Json) : Json → Option Json
  | .arr denied => some (.arr (denied.eraseP (same tool)))
  | _ => none

/-- The deny list after an update; `none` is an exception, as for a value in the file that is no
list. -/
def updateDenied (same : Json → Json → Bool) (tool level denied : Json) : Option Json :=
  if decodeStr level = some "deny".toList then
    if tool.truthy then
      (containsTool same tool denied).bind fun contained =>
        if contained then some denied else appendTool tool denied
    else some denied
  else if decodeStr level = some "allow".toList then
    (containsTool same tool denied).bind fun contained =>
      if contained then removeTool same tool denied else some denied
  else some denied

/-- The answer of `permission.update`. -/
inductive PermissionAnswer where
  | error (message : Str)
  | raised
  | updated (denied : Json)

/-- `permission.update`. -/
def permissionUpdate (same : Json → Json → Bool) (agentId : Str) (tool level : Json)
    (d : AgentsDir) : PermissionAnswer × AgentsDir :=
  if agentId = [] then (.error "agent_id parameter required", d)
  else
    match d agentId with
    | none => (.error ("Agent not found: " ++ agentId), d)
    | some files =>
      let defn := files.definition.getD []
      match updateDenied same tool level ((defn.lookup deniedKey).getD (.arr [])) with
      | none => (.raised, d)
      | some denied =>
        (.updated denied, Function.update d agentId
          (some { files with definition := some (setItem deniedKey denied defn) }))

inductive FilesOp where
  | permissionUpdate (agentId : Str) (tool level : Json)
  | write (agentId : Str) (files : Option AgentFiles)

def filesStep (same : Json → Json → Bool) :
    FilesOp → AgentsDir → Option PermissionAnswer × AgentsDir
  | .permissionUpdate agentId tool level, d =>
    let (answer, d) := Agents.permissionUpdate same agentId tool level d
    (some answer, d)
  | .write agentId files, d => (none, Function.update d agentId files)

namespace AgentFiles

variable (files : AgentFiles)

/-- `denied_tools`, as far as they are names. -/
def deniedTools : List Str :=
  match (files.definition.getD []).lookup deniedKey with
  | some (.arr tools) => tools.filterMap decodeStr
  | _ => []

end AgentFiles

/-! ### The ad-hoc graph -/

/-- `str(value or "")`. -/
def textOr (c : Conversions) : Option Json → Str
  | some value => if value.truthy then c.str value else []
  | none => []

/-- `manifest.tools or []`. -/
def manifestTools (m : AgentManifest) : Json := if (m .tools).truthy then m .tools else .arr []

def entryName (c : Conversions) : Json → Str
  | .obj entry => strip (textOr c (entry.lookup "name".toList))
  | entry => strip (c.str entry)

/-- `_manifest_tool_names`; tools that cannot be iterated raise an exception. -/
def manifestToolNames (c : Conversions) (m : AgentManifest) : Option (List Str) :=
  (Platform.iterate (manifestTools m)).map fun tools =>
    (tools.map (entryName c)).filter fun name => name ≠ []

/-- `_manifest_model_id`. -/
def manifestModelId (c : Conversions) (m : AgentManifest) : Str :=
  match m .model with
  | .obj model => textOr c (model.lookup "name".toList)
  | model => textOr c (some model)

/-- The parameters of the LLM node of an ad-hoc graph. -/
def allowlistParams (names : List Str) : Dict where
  members := [("tools_allowlist", .arr (names.map .str))]
  nodup := List.nodup_singleton _
  wf m hm := by
    rw [List.mem_singleton.mp hm]
    refine itemsWF_iff.mpr fun v hv => ?_
    obtain ⟨name, -, rfl⟩ := List.mem_map.mp hv
    exact trivial

/-- The graph as which an agent executes: `prompt` is its system prompt with the knowledge and the
style, and `id` a new identifier. -/
def adhocGraph (c : Conversions) (agentId id prompt : Str) (m : AgentManifest) :
    Option AgentGraph :=
  (manifestToolNames c m).map fun names => {
    id
    name := if (m .name).truthy then c.str (m .name) else agentId
    description := c.str (m .description)
    nodes := [
      ("start", { type := .start, label := "Start" }),
      ("llm-1", {
        type := .llm
        label := "Agent LLM"
        model := manifestModelId c m
        systemPrompt := prompt
        toolParams := allowlistParams (names.map (bridgeToolName agentId))
        loopMode := "agent"
        maxLoopIterations := 8 })]
    edges := [{ sourceId := "start", targetId := "llm-1" }]
    startNodeId := "start"
    nodup := by
      change List.Nodup ["start".toList, "llm-1".toList]
      decide }

/-- The manifest, as `sync_agent_tools` reads it. -/
def AgentManifest.toolManifest (c : Conversions) (m : AgentManifest) : Platform.ToolManifest where
  status := c.str (m .status)
  versionInt := (pyInt (m .versionInt)).getD 0
  author := textOr c (some (m .author))
  tools := (Platform.iterate (manifestTools m)).getD []

/-- The tools of the registry that a tool of an agent is: the one of its name, and its capability
tools. -/
def toolNames (c : Conversions) (agentId : Str) (m : AgentManifest) (tool : Str) : List Str :=
  tool :: bridgeToolName agentId tool ::
    ((Platform.byName c (m.toolManifest c).tools).lookup tool).toList.map fun entry =>
      bridgeToolName agentId (Platform.capabilityOf c tool entry)

def AgentFiles.deniedNames (c : Conversions) (agentId : Str) (files : AgentFiles) : List Str :=
  files.deniedTools.flatMap (toolNames c agentId files.manifest)

/-- The graph of a run: the ad-hoc graph, or a graph of the agent's own. -/
inductive GraphSource where
  | adhoc (id prompt : Str)
  | own (graph : AgentGraph)

def AgentFiles.graph (c : Conversions) (agentId : Str) (files : AgentFiles) :
    GraphSource → Option AgentGraph
  | .adhoc id prompt => adhocGraph c agentId id prompt files.manifest
  | .own graph => some graph

/-! ### The tools that are offered -/

/-- `_dynamic_tool_schemas`: the tools that are part of the runtime. -/
def dynamicTools : List Str := ["register_tool", "unregister_tool"]

/-- The tools that a role sees, by their names: capability tools have the role `"all"`, and `roles`
are those of the other tools. -/
def toOpenaiSchemas (roles : Str → List Str) (role : Str) (tools : ToolRegistry) : List Str :=
  (tools.filter fun t =>
    role = "all" ||
      match t.2 with
      | .bridge _ => true
      | .other => "all" ∈ roles t.1 || role ∈ roles t.1).map Prod.fst

/-- `xs[:n]`. -/
def sliceTo {α : Type} (n : ℤ) (xs : List α) : List α :=
  xs.take (if n < 0 then xs.length + n else n).toNat

/-- What the schemas of a run depend on besides the registry and the graph: the roles of the tools,
the role of the run, and how many schemas are put inline if `tool_search` finds the others. -/
structure Offering where
  roles : Str → List Str
  role : Str
  inlineLimit : Option ℤ := none

/-- The schemas of the registry, and those of the tools that are part of the runtime if a node
allows them. -/
def allSchemas (o : Offering) (g : AgentGraph) (tools : ToolRegistry) : List Str :=
  toOpenaiSchemas o.roles o.role tools ++
    if g.nodes.any fun n => n.2.allowDynamicTools then dynamicTools else []

/-- `tools_schema`: the schemas of a run, or those of an error handler, which puts all inline. -/
def toolsSchema (o : Offering) (handler : Bool) (g : AgentGraph) (tools : ToolRegistry) :
    List Str :=
  match o.inlineLimit with
  | none => allSchemas o g tools
  | some limit =>
    if handler ∨ ((allSchemas o g tools).length : ℤ) ≤ limit then allSchemas o g tools
    else sliceTo limit (allSchemas o g tools)

/-- `set(allowlist)`, as far as it has names; a value that cannot be in a set raises an exception.
-/
def allowlistOf (value : Json) : Option (List Str) :=
  (Platform.iterate value).bind fun items =>
    if items.any fun
        | .arr _ | .obj _ => true
        | _ => false
    then none
    else some (items.filterMap decodeStr)

/-- The schemas that an LLM node passes on to the model; `none` is an exception. -/
def nodeTools (node : NodeConfig) (schemas : List Str) : Option (List Str) :=
  let schemas := if node.disableTools then [] else schemas
  match (param node "tools_allowlist").filter Json.truthy with
  | none => some schemas
  | some allowlist => (allowlistOf allowlist).map fun want => schemas.filter fun name => name ∈ want

/-! ### Runs -/

def asksModel (q : Step) : Bool :=
  match q.call with
  | .chat _ _ => true
  | _ => false

def executedTool (q : Step) : Option Str :=
  match q.call with
  | .execute _ name _ => some name
  | .registerTool _ => some "register_tool".toList
  | .unregisterTool _ => some "unregister_tool".toList
  | _ => none

def inHandler (g : AgentGraph) (q : Step) : Bool :=
  (g.getNode q.ctx.currentNodeId).any fun node => node.type = .errorHandler

/-- The nodes that ask the model: the one that is dispatched, for a `rag` node also what it passes
on, and all of them if an error handler executes the one that has failed. -/
def askingNodes (g : AgentGraph) (q : Step) : List NodeConfig :=
  let nodes :=
    if inHandler g q then g.nodes.map Prod.snd else (g.getNode q.ctx.currentNodeId).toList
  nodes.flatMap fun node =>
    if node.type = .rag then [node, Exec.augmentedNode node []]
    else if node.type = .llm then [node]
    else []

/-- A run, with the registry from which the schemas of a question are made. -/
structure AgentRun where
  entry : Entry
  offering : Offering
  registry : Step → ToolRegistry
  trace : List (Event Step.Answer)
  result : Except Stop Unit × Run
  traced : (executeGraph entry).Traced trace result

namespace AgentRun

variable (r : AgentRun)

/-- The tools that the model is shown at a question. -/
def offered (q : Step) : List Str :=
  let schemas := toolsSchema r.offering (inHandler r.entry.graph q) r.entry.graph (r.registry q)
  (askingNodes r.entry.graph q).flatMap fun node => (nodeTools node schemas).getD []

def Offers (name : Str) : Prop := ∃ ev ∈ r.trace, asksModel ev.1 = true ∧ name ∈ r.offered ev.1

def Executes (name : Str) : Prop := ∃ ev ∈ r.trace, executedTool ev.1 = some name

/-- The run is one of an agent that has some files. -/
def IsOf (c : Conversions) (agentId : Str) (files : AgentFiles) : Prop :=
  ∃ source, files.graph c agentId source = some r.entry.graph

end AgentRun

end AgentStudio.Agents

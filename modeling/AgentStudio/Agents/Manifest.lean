import AgentStudio.Graph.Basic
import Mathlib.Logic.Function.Basic

/-!
# Agents, their manifests and their snapshots

The handlers of `agent_runtime/dispatchers/agent.py` that write the manifest of an agent: `create`,
`update`, `configure`, `publish`, `archive` and `unpublish`, and `snapshot` and `restore_version`
over the version store of `agent_runtime/agent_version.py`.

A manifest (`AgentManifest`) has a value for each of its fields; no handler checks the type of one,
so a value is any JSON value. Each handler has its own list of the fields that it writes
(`createKeys`, `updateKeys`, `restoreKeys`).

A package is what its directory holds of the manifest, the names of the skills and the soul. The
index of agents, which repeats the manifest, is left out: none of these handlers reads it.
`int(value)` and `value + 1` raise an exception for some values (`Answer.raised`); nothing has been
saved then.
-/

namespace AgentStudio.Agents

open PyText PyDict PyJson

/-! ### Manifests -/

/-- A field of `AgentManifest`. -/
inductive Field where
  | name
  | version
  | description
  | model
  | systemPrompt
  | temperature
  | maxTokens
  | tools
  | capabilities
  | safetyLevel
  | tags
  | author
  | createdAt
  | status
  | versionInt
  | publishedAt
  | knowledgeBaseIds
  | visibility
  | ragStrategy
  | webSearchEnabled
  | deepResearchEnabled
  | connectorIds
  | style
  | topP
  | contextWindow
  | rateLimitQps
  | maxIterations
deriving DecidableEq

namespace Field

/-- The key of a field in `manifest.json`. -/
def key : Field → Str
  | name => "name"
  | version => "version"
  | description => "description"
  | model => "model"
  | systemPrompt => "system_prompt"
  | temperature => "temperature"
  | maxTokens => "max_tokens"
  | tools => "tools"
  | capabilities => "capabilities"
  | safetyLevel => "safety_level"
  | tags => "tags"
  | author => "author"
  | createdAt => "created_at"
  | status => "status"
  | versionInt => "version_int"
  | publishedAt => "published_at"
  | knowledgeBaseIds => "knowledge_base_ids"
  | visibility => "visibility"
  | ragStrategy => "rag_strategy"
  | webSearchEnabled => "web_search_enabled"
  | deepResearchEnabled => "deep_research_enabled"
  | connectorIds => "connector_ids"
  | style => "style"
  | topP => "top_p"
  | contextWindow => "context_window"
  | rateLimitQps => "rate_limit_qps"
  | maxIterations => "max_iterations"

def all : List Field :=
  [name, version, description, model, systemPrompt, temperature, maxTokens, tools, capabilities,
    safetyLevel, tags, author, createdAt, status, versionInt, publishedAt, knowledgeBaseIds,
    visibility, ragStrategy, webSearchEnabled, deepResearchEnabled, connectorIds, style, topP,
    contextWindow, rateLimitQps, maxIterations]

def default : Field → Json
  | version => .str "0.1.0"
  | temperature => .num Graph.Number.pointSeven
  | maxTokens => .num 4096
  | tools | capabilities | tags | knowledgeBaseIds | connectorIds => .arr []
  | safetyLevel => .str "L1"
  | status => .str "draft"
  | versionInt | topP => .num 1
  | publishedAt => .null
  | visibility => .str "private"
  | ragStrategy => .str "hybrid"
  | webSearchEnabled | deepResearchEnabled => .bool false
  | contextWindow => .num 32768
  | rateLimitQps | maxIterations => .num 0
  | name | description | model | systemPrompt | author | createdAt | style => .str []

def ofKey (k : Str) : Option Field := all.find? fun f => f.key = k

theorem ofKey_key (f : Field) : ofKey f.key = some f := by cases f <;> rfl

theorem key_injective : Function.Injective key := fun f g h => by
  have hfg := congrArg ofKey h
  rw [ofKey_key, ofKey_key] at hfg
  exact Option.some.inj hfg

theorem mem_all (f : Field) : f ∈ all := by cases f <;> decide

end Field

abbrev Members := List (Str × Json)

/-- `AgentManifest`. -/
abbrev AgentManifest := Field → Json

namespace AgentManifest

/-- `AgentManifest()`. -/
def default : AgentManifest := Field.default

/-- `to_dict`. -/
def toDict (m : AgentManifest) : Members := Field.all.map fun f => (f.key, m f)

/-- `from_dict`. -/
def fromDict (data : Members) : AgentManifest := fun f => (data.lookup f.key).getD f.default

/-- `setattr(manifest, key, data[key])` for some fields, where the dictionary has the key. -/
def setFrom (keys : List Field) (data : Members) (m : AgentManifest) : AgentManifest := fun f =>
  if f ∈ keys then (data.lookup f.key).getD (m f) else m f

def set (f : Field) (value : Json) (m : AgentManifest) : AgentManifest := Function.update m f value

theorem lookup_toDict (m : AgentManifest) (f : Field) : m.toDict.lookup f.key = some (m f) := by
  have hlist : ∀ fs : List Field, f ∈ fs →
      (fs.map fun g => (g.key, m g)).lookup f.key = some (m f) := fun fs hf => by
    induction fs with
    | nil => exact absurd hf List.not_mem_nil
    | cons g fs ih =>
      by_cases hg : f = g
      · simp [hg]
      · have hkey : f.key ≠ g.key := fun h => hg (Field.key_injective h)
        rw [List.map_cons, List.lookup_cons, beq_eq_false_iff_ne.mpr hkey]
        exact ih (List.mem_of_ne_of_mem hg hf)
  exact hlist Field.all f.mem_all

end AgentManifest

/-! ### The studio -/

/-- A package: the manifest, the names of the skills and the soul. -/
structure AgentPackage where
  manifest : AgentManifest
  skills : List Str
  soul : Str

/-- `VersionRecord`. -/
structure VersionRecord where
  versionId : Str
  agentId : Str
  snapshotData : Members
  createdAt : Json
  label : Json

/-- The packages of the agents, and the version store. -/
structure Studio where
  agents : Str → Option AgentPackage
  versions : Str → List VersionRecord

def Studio.empty : Studio := ⟨fun _ => none, fun _ => []⟩

inductive Answer where
  | error (message : Str)
  | raised
  | created (agentId : Str) (manifest : AgentManifest)
  | updated (manifest : AgentManifest)
  | configured (manifest : AgentManifest)
  | published (version publishedAt : Json)
  | archived
  | unpublished (previousStatus : Json)
  | snapshot (record : VersionRecord)
  | restored (manifest : AgentManifest) (skills : List Str) (hasSoul : Bool)

def defaultSoul : Str := "# Agent Soul\n\nDefine your agent's personality here.\n"

/-- `value + 1`: a truth value counts as a number, and other values raise an exception. -/
def increment : Json → Option Json
  | .num n => some (.num n.succ)
  | .bool b => some (.num (if b then 2 else 1))
  | _ => none

/-- The fields that `agent.create` takes from the request, besides the name. -/
def createKeys : List Field :=
  [.model, .systemPrompt, .temperature, .maxTokens, .tools, .capabilities, .safetyLevel, .tags,
    .author, .description, .status, .versionInt, .publishedAt, .knowledgeBaseIds, .visibility,
    .ragStrategy, .webSearchEnabled, .deepResearchEnabled, .connectorIds, .style, .topP,
    .contextWindow, .rateLimitQps]

/-- The fields that `agent.update` takes from the request. -/
def updateKeys : List Field :=
  [.name, .model, .systemPrompt, .temperature, .maxTokens, .safetyLevel, .description, .author,
    .version, .status, .versionInt, .publishedAt, .knowledgeBaseIds, .visibility, .ragStrategy,
    .webSearchEnabled, .deepResearchEnabled, .connectorIds, .style, .topP, .contextWindow,
    .rateLimitQps, .tools, .capabilities, .tags]

/-- The fields that `agent.configure` takes from the request as they are. -/
def configureKeys : List Field :=
  [.model, .temperature, .maxTokens, .systemPrompt, .tools, .capabilities, .safetyLevel]

/-- The fields that `agent.restore_version` takes from a snapshot. -/
def restoreKeys : List Field :=
  [.name, .model, .systemPrompt, .temperature, .maxTokens, .safetyLevel, .description, .author,
    .version, .status, .versionInt, .publishedAt, .knowledgeBaseIds, .visibility, .ragStrategy,
    .webSearchEnabled, .deepResearchEnabled, .connectorIds, .style, .topP, .contextWindow,
    .rateLimitQps, .tools, .capabilities, .tags]

/-- `int(config[key])` for a field, where the configuration has the key. -/
def setInt (f : Field) (config : Members) (m : AgentManifest) : Option AgentManifest :=
  match config.lookup f.key with
  | none => some m
  | some value => (pyInt value).map fun n => m.set f (.num (Number.ofInt n))

def AgentManifest.hasStatus (m : AgentManifest) (status : String) : Bool :=
  decodeStr (m .status) = some status.toList

/-- `_agent_snapshot_data`. -/
def AgentPackage.snapshotData (p : AgentPackage) : Members :=
  setItem "has_soul" (.bool (strip p.soul ≠ []))
    (setItem "skills" (.arr (p.skills.map .str)) p.manifest.toDict)

namespace Studio

variable (s : Studio)

/-- A handler of a request for an agent: it needs an identifier and a package. -/
def withPackage (agentId : Str) (f : AgentPackage → Answer × Studio) : Answer × Studio :=
  if agentId = [] then (.error "agent_id parameter required", s)
  else
    match s.agents agentId with
    | none => (.error ("Agent not found: " ++ agentId), s)
    | some p => f p

/-- `save_manifest`. -/
def save (agentId : Str) (p : AgentPackage) (m : AgentManifest) : Studio :=
  { s with agents := Function.update s.agents agentId (some { p with manifest := m }) }

/-- `agent.create`; the identifier is the one of the request or a new one. -/
def create (agentId name soul : Str) (params : Members) : Answer × Studio :=
  if name = [] then (.error "name parameter required", s)
  else
    let start := AgentManifest.default.set .systemPrompt
      (.str ("You are " ++ name ++ "."))
    let manifest := (start.setFrom createKeys params).set .name (.str name)
    let old := s.agents agentId
    let kept := (old.map AgentPackage.soul).getD defaultSoul
    let p : AgentPackage := ⟨manifest, (old.map AgentPackage.skills).getD [],
      if soul = [] then kept else soul⟩
    (.created agentId manifest, { s with agents := Function.update s.agents agentId (some p) })

/-- `agent.update`. -/
def update (agentId : Str) (params : Members) : Answer × Studio :=
  s.withPackage agentId fun p =>
    let manifest := p.manifest.setFrom updateKeys params
    (.updated manifest, s.save agentId p manifest)

/-- `agent.configure`. -/
def configure (agentId : Str) (config : Members) : Answer × Studio :=
  s.withPackage agentId fun p =>
    if config = [] then (.error "config parameter required", s)
    else
      match (setInt .contextWindow config (p.manifest.setFrom configureKeys config)).bind
        (setInt .maxIterations config) with
      | none => (.raised, s)
      | some manifest => (.configured manifest, s.save agentId p manifest)

/-- `agent.publish`. -/
def publish (agentId : Str) (now : Json) : Answer × Studio :=
  s.withPackage agentId fun p =>
    if p.manifest.hasStatus "published" then (.error "Agent already published", s)
    else
      match increment (p.manifest .versionInt) with
      | none => (.raised, s)
      | some version =>
        (.published version now, s.save agentId p
          (((p.manifest.set .status (.str "published")).set .versionInt version).set
            .publishedAt now))

/-- `agent.archive`. -/
def archive (agentId : Str) : Answer × Studio :=
  s.withPackage agentId fun p =>
    (.archived, s.save agentId p (p.manifest.set .status (.str "archived")))

/-- `agent.unpublish`; `str` is the text of a status in a message. -/
def unpublish (agentId : Str) (str : Json → Str) : Answer × Studio :=
  s.withPackage agentId fun p =>
    if p.manifest.hasStatus "published" || p.manifest.hasStatus "archived" then
      (.unpublished (p.manifest .status), s.save agentId p
        ((p.manifest.set .status (.str "draft")).set .publishedAt .null))
    else
      (.error ("Agent not published/archived (current: " ++ str (p.manifest .status) ++
        ")"), s)

/-- `agent.snapshot`, with a new identifier for the version. -/
def snapshot (agentId versionId : Str) (label now : Json) : Answer × Studio :=
  s.withPackage agentId fun p =>
    let record : VersionRecord := ⟨versionId, agentId, p.snapshotData, now, label⟩
    (.snapshot record, { s with
      versions := Function.update s.versions agentId (s.versions agentId ++ [record]) })

/-- `get_version`. -/
def getVersion (agentId versionId : Str) : Option VersionRecord :=
  (s.versions agentId).find? fun r => r.versionId = versionId

/-- `agent.restore_version`. -/
def restoreVersion (agentId versionId : Str) : Answer × Studio :=
  if agentId = [] ∨ versionId = [] then
    (.error "agent_id and version_id parameters required", s)
  else
    match s.getVersion agentId versionId with
    | none => (.error ("Version not found: " ++ versionId ++ " for agent " ++
        agentId), s)
    | some record =>
      s.withPackage agentId fun p =>
        let manifest := p.manifest.setFrom restoreKeys record.snapshotData
        (.restored manifest p.skills (strip p.soul ≠ []), s.save agentId p manifest)

end Studio

/-! ### Requests -/

inductive Request where
  | create (agentId name soul : Str) (params : Members)
  | update (agentId : Str) (params : Members)
  | configure (agentId : Str) (config : Members)
  | publish (agentId : Str) (now : Json)
  | archive (agentId : Str)
  | unpublish (agentId : Str) (str : Json → Str)
  | snapshot (agentId versionId : Str) (label now : Json)
  | restoreVersion (agentId versionId : Str)

def Studio.handle (s : Studio) : Request → Answer × Studio
  | .create agentId name soul params => s.create agentId name soul params
  | .update agentId params => s.update agentId params
  | .configure agentId config => s.configure agentId config
  | .publish agentId now => s.publish agentId now
  | .archive agentId => s.archive agentId
  | .unpublish agentId str => s.unpublish agentId str
  | .snapshot agentId versionId label now => s.snapshot agentId versionId label now
  | .restoreVersion agentId versionId => s.restoreVersion agentId versionId

end AgentStudio.Agents

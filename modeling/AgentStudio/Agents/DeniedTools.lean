import AgentStudio.Agents.Permissions
import AgentStudio.Execution.ToolUse

/-!
# Denied tools are used

`permission.update` keeps the deny list of an agent, and no run reads it: what a run offers and
executes depends on the registry alone. A run offers only tools of the registry and those of the
runtime (`mem_of_offers`), and executes no other (`mem_of_executes`), since a tool is found before
it is executed. So a denied tool is out of reach of all runs of its agent if and only if the
registry does not have it while they last, and it is none of the runtime (`denied_unused_iff`).

The tools of an agent's manifest are in the registry, since `sync_agent_tools` puts them there
before a run: `uses_denied` is a run that offers and executes one of them after it was denied.
-/

namespace AgentStudio.Agents

open PyText PyDict PyJson AgentStudio.Graph AgentStudio.Execution Programs
open Platform (Conversions ToolRegistry bridgeToolName)

/-! ### What a run can use -/

/-- What a run can use if the registry has some tools: these, and those of the runtime. -/
def usableTools (tools : List Str) : List Str := tools ++ dynamicTools

/-- While the run lasts, the registry has no other tools than some. -/
structure AgentRun.Within (r : AgentRun) (tools : List Str) : Prop where
  schemas : ∀ q, ∀ t ∈ r.registry q, t.1 ∈ tools
  found : ∀ ev ∈ r.trace, ∀ name, ev.1.call.finds name ev.2 = true → name ∈ tools

variable {r : AgentRun} {tools : List Str} {name : Str}

theorem mem_toolsSchema {o : Offering} {handler : Bool} {g : AgentGraph} {registry : ToolRegistry}
    (h : name ∈ toolsSchema o handler g registry) :
    name ∈ usableTools (registry.map Prod.fst) := by
  have hall : name ∈ allSchemas o g registry := by
    unfold toolsSchema at h
    cases hlimit : o.inlineLimit with
    | none => rwa [hlimit] at h
    | some limit =>
      rw [hlimit] at h
      dsimp only at h
      split_ifs at h
      · exact h
      · exact List.mem_of_mem_take h
  refine List.mem_append.mpr ((List.mem_append.mp hall).imp (fun hname => ?_) fun hname => ?_)
  · obtain ⟨t, ht, rfl⟩ := List.mem_map.mp hname
    exact List.mem_map_of_mem (List.mem_of_mem_filter ht)
  · split_ifs at hname
    · exact hname
    · exact absurd hname List.not_mem_nil

theorem mem_nodeTools {node : NodeConfig} {schemas : List Str}
    (h : name ∈ (nodeTools node schemas).getD []) : name ∈ schemas := by
  have hkept : name ∈ if node.disableTools then [] else schemas := by
    unfold nodeTools at h
    dsimp only at h
    cases hlist : (param node "tools_allowlist").filter Json.truthy with
    | none => rwa [hlist] at h
    | some allowlist =>
      rw [hlist] at h
      dsimp only at h
      cases hwant : allowlistOf allowlist with
      | none =>
        rw [hwant] at h
        exact absurd h List.not_mem_nil
      | some want =>
        rw [hwant] at h
        exact List.mem_of_mem_filter h
  split_ifs at hkept
  · exact absurd hkept List.not_mem_nil
  · exact hkept

/-- **What is offered** is in the registry, or part of the runtime. -/
theorem AgentRun.Within.mem_of_offers (h : r.Within tools) (hoffers : r.Offers name) :
    name ∈ usableTools tools := by
  obtain ⟨ev, -, -, hname⟩ := hoffers
  obtain ⟨node, -, hnode⟩ := List.mem_flatMap.mp hname
  refine List.mem_append.mpr ((List.mem_append.mp (mem_toolsSchema (mem_nodeTools hnode))).imp_left
    fun hmem => ?_)
  obtain ⟨t, ht, rfl⟩ := List.mem_map.mp hmem
  exact h.schemas _ t ht

/-- **What is executed** has been found in the registry, or is part of the runtime. -/
theorem AgentRun.Within.mem_of_executes (h : r.Within tools) (hexecutes : r.Executes name) :
    name ∈ usableTools tools := by
  obtain ⟨ev, hev, hname⟩ := hexecutes
  cases hcall : ev.1.call with
  | execute site toolName args =>
    rw [executedTool, hcall] at hname
    obtain rfl : toolName = name := Option.some.inj hname
    obtain ⟨ev', hev', hfound⟩ := exists_found_of_executed r.traced hev hcall
    exact List.mem_append_left _ (h.found ev' hev' _ hfound)
  | registerTool args =>
    rw [executedTool, hcall] at hname
    rw [← Option.some.inj hname]
    exact List.mem_append_right _ List.mem_cons_self
  | unregisterTool args =>
    rw [executedTool, hcall] at hname
    rw [← Option.some.inj hname]
    exact List.mem_append_right _ (List.mem_cons_of_mem _ List.mem_cons_self)
  | _ =>
    rw [executedTool, hcall] at hname
    exact absurd hname.symm (Option.some_ne_none _)

/-! ### A run that is offered everything -/

/-- A graph of one LLM node, which may register tools. -/
def openGraph : AgentGraph where
  id := "g"
  nodes := [("s", { type := .start }),
    ("l", { type := .llm, model := "m", allowDynamicTools := true })]
  edges := [{ sourceId := "s", targetId := "l" }]
  startNodeId := "s"
  nodup := by
    change List.Nodup ["s".toList, "l".toList]
    decide

def openEntry : Entry := { rt := { process := plainProcess }, graph := openGraph }

/-- A run of that graph in which the model calls no tool, with the same registry from beginning to
end. -/
def openRun (tools : List Str) : AgentRun where
  entry := openEntry
  offering := { roles := fun _ => [], role := "all" }
  registry _ := tools.map fun name => (name, .other)
  trace := (obligingRun {} openEntry).1
  result := (obligingRun {} openEntry).2
  traced := traced_obligingRun {} openEntry

def looksUp (q : Step) : Bool :=
  match q.call with
  | .getTool _ => true
  | _ => false

theorem looksUp_of_finds {ev : Event Step.Answer} (h : ev.1.call.finds name ev.2 = true) :
    looksUp ev.1 = true := by
  obtain ⟨⟨c, ctx, call⟩, a⟩ := ev
  cases call with
  | getTool name' => rfl
  | _ => exact absurd h Bool.false_ne_true

theorem openRun_within (tools : List Str) : (openRun tools).Within tools where
  schemas q t ht := by
    obtain ⟨name, hname, rfl⟩ := List.mem_map.mp ht
    exact hname
  found ev hev name hfound := by
    have hnone : ((obligingRun {} openEntry).1.all fun ev => !looksUp ev.1) = true := by
      decide +kernel
    have hev' := List.all_eq_true.mp hnone ev hev
    rw [looksUp_of_finds hfound] at hev'
    exact absurd hev' Bool.false_ne_true

theorem openRun_offers {tools : List Str} (h : name ∈ usableTools tools) :
    (openRun tools).Offers name := by
  have hasks : ((obligingRun {} openEntry).1.any fun ev =>
      asksModel ev.1 && ev.1.ctx.currentNodeId = "l") = true := by
    decide +kernel
  obtain ⟨ev, hev, hask⟩ := List.any_eq_true.mp hasks
  obtain ⟨hask, hnode⟩ := Bool.and_eq_true_iff.mp hask
  refine ⟨ev, hev, hask, ?_⟩
  have hget : openGraph.getNode ev.1.ctx.currentNodeId =
      some { type := .llm, model := "m", allowDynamicTools := true } := by
    rw [of_decide_eq_true hnode]
    rfl
  have hasking : askingNodes openGraph ev.1 =
      [{ type := .llm, model := "m", allowDynamicTools := true }] := by
    unfold askingNodes inHandler
    rw [hget]
    rfl
  have hschemas (handler : Bool) : toolsSchema (openRun tools).offering handler openGraph
      ((openRun tools).registry ev.1) = usableTools tools := by
    change toOpenaiSchemas _ _ (tools.map fun name => (name, Platform.Tool.other)) ++ dynamicTools =
      tools ++ dynamicTools
    have hall : toOpenaiSchemas (openRun tools).offering.roles (openRun tools).offering.role
        (tools.map fun name => (name, Platform.Tool.other)) = tools := by
      simp [toOpenaiSchemas, openRun, Function.comp_def]
    rw [hall]
  change name ∈ (askingNodes openGraph ev.1).flatMap fun node => (nodeTools node
    (toolsSchema (openRun tools).offering (inHandler openGraph ev.1) openGraph
      ((openRun tools).registry ev.1))).getD []
  rw [hasking, hschemas]
  exact List.mem_flatMap.mpr ⟨_, List.mem_singleton_self _, h⟩

/-! ### Denied tools -/

/-- The tools of the registry that an agent is denied, if it has a package. -/
def deniedNames (c : Conversions) (agentId : Str) (d : AgentsDir) : List Str :=
  ((d agentId).map (AgentFiles.deniedNames c agentId)).getD []

def AgentRun.StartsIn (r : AgentRun) (c : Conversions) (agentId : Str) (d : AgentsDir) : Prop :=
  ∃ files, d agentId = some files ∧ r.IsOf c agentId files

/-- **Denied tools.** Whatever has happened to the deny lists: no run of an agent offers or executes
a tool that it is denied, while the registry has no other tools than some, if and only if these
tools and those of the runtime are none that the agent is denied. -/
theorem denied_unused_iff (same : Json → Json → Bool) (c : Conversions) (ops : List FilesOp)
    (d : AgentsDir) (agentId : Str) (tools : List Str) :
    (∀ r : AgentRun, r.StartsIn c agentId (Machine.run (filesStep same) ops d).2 →
      r.Within tools → ∀ name ∈ deniedNames c agentId (Machine.run (filesStep same) ops d).2,
        ¬ r.Offers name ∧ ¬ r.Executes name) ↔
      ∀ name ∈ deniedNames c agentId (Machine.run (filesStep same) ops d).2,
        name ∉ usableTools tools := by
  generalize (Machine.run (filesStep same) ops d).2 = d'
  constructor
  · intro h name hname husable
    cases hfiles : d' agentId with
    | none =>
      rw [deniedNames, hfiles] at hname
      exact absurd hname List.not_mem_nil
    | some files =>
      have hstarts : (openRun tools).StartsIn c agentId d' :=
        ⟨files, hfiles, .own openGraph, rfl⟩
      exact (h (openRun tools) hstarts (openRun_within tools) name hname).1 (openRun_offers husable)
  · intro h r _ hwithin name hname
    exact ⟨fun hoffers => h name hname (hwithin.mem_of_offers hoffers),
      fun hexecutes => h name hname (hwithin.mem_of_executes hexecutes)⟩

def plainConversions : Conversions where
  text _ := []
  float _ := none

/-- The files of an agent with a model and one tool, whose parameters are in the manifest. -/
def fetcher : AgentFiles where
  manifest := (AgentManifest.default.set .model (.str "m")).set .tools (.arr [.obj
    [("name", .str "fetch"),
      ("config", .obj [("cap_params", .obj [])])]])

def fetcherDir : AgentsDir := Function.update (fun _ => none) "a" (some fetcher)

def denyFetch : List FilesOp :=
  [.permissionUpdate "a" (.str "fetch") (.str "deny")]

/-- `==` of texts. -/
def sameText (v w : Json) : Bool := (decodeStr v).isSome && decodeStr v = decodeStr w

def fetcherDenied : AgentFiles where
  manifest := fetcher.manifest
  definition := some [(deniedKey, .arr [.str "fetch"])]

theorem denyFetch_denies :
    (Machine.run (filesStep sameText) denyFetch fetcherDir).2 "a" = some fetcherDenied := rfl

def fetchGraph : AgentGraph :=
  (adhocGraph plainConversions "a" "g" [] fetcher.manifest).get rfl

/-- What `agent.execute` starts. -/
def fetchEntry : Entry where
  rt := { process := plainProcess, maxIterations := 3 }
  graph := fetchGraph

/-- The model calls the capability tool of the agent in every answer. -/
def callsFetch : LLMResponse where
  toolCalls := [{ id := "1", call := .ok ("bt_a_fetch", Dict.empty) }]

/-- The run, after `sync_agent_tools` has put the tools of the manifest into the registry. -/
def fetchRun : AgentRun where
  entry := fetchEntry
  offering := { roles := fun _ => [], role := "all" }
  registry _ := Platform.syncAgentTools plainConversions [] "a"
    (fetcher.manifest.toolManifest plainConversions) []
  trace := (obligingRun callsFetch fetchEntry).1
  result := (obligingRun callsFetch fetchEntry).2
  traced := traced_obligingRun callsFetch fetchEntry

theorem fetchRun_uses : fetchRun.Offers "bt_a_fetch" ∧
    fetchRun.Executes "bt_a_fetch" := by
  constructor
  · have hoffers : ((obligingRun callsFetch fetchEntry).1.any fun ev =>
        asksModel ev.1 && decide ("bt_a_fetch".toList ∈ fetchRun.offered ev.1)) = true := by
      decide +kernel
    obtain ⟨ev, hev, h⟩ := List.any_eq_true.mp hoffers
    obtain ⟨hask, hname⟩ := Bool.and_eq_true_iff.mp h
    exact ⟨ev, hev, hask, of_decide_eq_true hname⟩
  · have hexecutes : ((obligingRun callsFetch fetchEntry).1.any fun ev =>
        decide (executedTool ev.1 = some "bt_a_fetch".toList)) = true := by
      decide +kernel
    obtain ⟨ev, hev, h⟩ := List.any_eq_true.mp hexecutes
    exact ⟨ev, hev, of_decide_eq_true h⟩

/-- A tool that was denied to its agent is offered and executed in a run of `agent.execute`. -/
theorem not_denied_unused : ¬ ∀ (same : Json → Json → Bool) (c : Conversions) (ops : List FilesOp)
    (d : AgentsDir) (agentId : Str) (r : AgentRun),
    r.StartsIn c agentId (Machine.run (filesStep same) ops d).2 →
      ∀ name ∈ deniedNames c agentId (Machine.run (filesStep same) ops d).2,
        ¬ r.Offers name ∧ ¬ r.Executes name := by
  intro h
  have hstarts : fetchRun.StartsIn plainConversions "a".toList
      (Machine.run (filesStep sameText) denyFetch fetcherDir).2 :=
    ⟨fetcherDenied, denyFetch_denies, .adhoc "g".toList [], rfl⟩
  have hdenied : "bt_a_fetch".toList ∈ deniedNames plainConversions "a".toList
      (Machine.run (filesStep sameText) denyFetch fetcherDir).2 := by
    rw [deniedNames, denyFetch_denies]
    decide
  exact (h sameText plainConversions denyFetch fetcherDir "a".toList fetchRun hstarts _ hdenied).1
    fetchRun_uses.1

end AgentStudio.Agents

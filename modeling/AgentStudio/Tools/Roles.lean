import AgentStudio.Agents.Permissions
import AgentStudio.Execution.ToolUse
import AgentStudio.Tools.Registry

/-!
# Roles

A run has a role, and the registry may have tools that the role does not see. What the run puts
into the schemas of its LLM nodes is filtered by the role (`toolsSchema`), but `tool_search`
searches without a role, and a tool is looked up by the name that the model or a node gives.

A `RoleRun` is a run with its role and the registry at each of its questions. A run inside it has a
context and a role of its own, so only the questions of the runtime of the run itself are looked at
(`RoleRun.own`). It is `Confined` if it shows, finds and executes no tool that the role does not
see. While it looks up visible tools only, this is a matter of its searches alone
(`confined_iff_searches`).
-/

namespace AgentStudio.Tools

open PyText PyJson PyDict AgentStudio.Graph AgentStudio.Execution Programs
open Agents (allowlistOf askingNodes asksModel inHandler sliceTo)

/-! ### The schemas of a run -/

def property (type description : String) : Json :=
  .obj [("type", .str type.toList), ("description", .str description.toList)]

/-- `_dynamic_tool_schemas`. -/
def dynamicToolSchemas : List ToolSchema := [
  { name := "register_tool"
    description := ("Register a new tool dynamically during execution. Creates a tool that can " ++
      "be used in subsequent steps.").toList
    properties := [
      ("name", property "string" "Unique name for the tool"),
      ("type", .obj [("type", .str "string"),
        ("description", .str "Tool type (all types use safe subprocess execution)"),
        ("default", .str "custom")]),
      ("description", property "string" "What this tool does"),
      ("parameters", property "object" "OpenAI-style parameter definitions")]
    required := ["name"] },
  { name := "unregister_tool"
    description := ("Remove a tool from the registry. It will no longer be available for " ++
      "subsequent steps.").toList
    properties := [("name", property "string" "Name of the tool to remove")]
    required := ["name"] }]

/-- The schemas of the registry for a role, and those of the runtime if a node allows them. -/
def allSchemas (role : Str) (g : AgentGraph) (registry : ToolRegistry) : List ToolSchema :=
  registry.toOpenaiSchemas role ++
    if g.nodes.any fun n => n.2.allowDynamicTools then dynamicToolSchemas else []

/-- `tools_schema`: the schemas of a run, the first ones if `tool_search` is to find the others, or
those of an error handler, which has all of them. -/
def toolsSchema (inlineLimit : Option ℤ) (handler : Bool) (role : Str) (g : AgentGraph)
    (registry : ToolRegistry) : List ToolSchema :=
  match inlineLimit with
  | none => allSchemas role g registry
  | some limit =>
    if handler ∨ ((allSchemas role g registry).length : ℤ) ≤ limit then allSchemas role g registry
    else sliceTo limit (allSchemas role g registry)

/-- The schemas that an LLM node passes on to the model; `none` is an exception. -/
def nodeSchemas (node : NodeConfig) (schemas : List ToolSchema) : Option (List ToolSchema) :=
  let schemas := if node.disableTools then [] else schemas
  match (param node "tools_allowlist").filter Json.truthy with
  | none => some schemas
  | some allowlist =>
    (allowlistOf allowlist).map fun want => schemas.filter fun schema => schema.name ∈ want

theorem mem_toolsSchema {inlineLimit : Option ℤ} {handler : Bool} {role : Str} {g : AgentGraph}
    {registry : ToolRegistry} {schema : ToolSchema}
    (h : schema ∈ toolsSchema inlineLimit handler role g registry) :
    schema ∈ dynamicToolSchemas ∨
      ∃ t, registry.get t.name = some t ∧ t.VisibleTo role ∧ t.openaiSchema = schema := by
  have hall : schema ∈ allSchemas role g registry := by
    cases inlineLimit with
    | none => exact h
    | some limit =>
      rw [toolsSchema] at h
      split_ifs at h
      · exact h
      · exact List.mem_of_mem_take h
  rcases List.mem_append.mp hall with hlisted | hruntime
  · exact .inr (ToolRegistry.mem_toOpenaiSchemas.mp hlisted)
  · split_ifs at hruntime
    · exact .inl hruntime
    · exact absurd hruntime List.not_mem_nil

theorem mem_nodeSchemas {node : NodeConfig} {schemas : List ToolSchema} {schema : ToolSchema}
    (h : schema ∈ (nodeSchemas node schemas).getD []) : schema ∈ schemas := by
  have hsome {xs : List ToolSchema} (hxs : schema ∈ xs)
      (hsub : xs ⊆ if node.disableTools then [] else schemas) : schema ∈ schemas := by
    have hmem := hsub hxs
    split_ifs at hmem
    · exact absurd hmem List.not_mem_nil
    · exact hmem
  rw [nodeSchemas] at h
  cases hparam : (param node "tools_allowlist").filter Json.truthy with
  | none =>
    rw [hparam] at h
    exact hsome h (List.Subset.refl _)
  | some allowlist =>
    rw [hparam] at h
    dsimp only at h
    cases hwant : allowlistOf allowlist with
    | none => simp [hwant] at h
    | some want =>
      rw [hwant, Option.map_some, Option.getD_some] at h
      exact hsome h List.filter_sublist.subset

/-! ### Runs -/

/-- The tool that a question has found, with its answer. -/
def foundName : (call : Call) → call.Answer → Option Str
  | .getTool name, true => some name
  | _, _ => none

/-- A run with its role: `schemas` is the registry from which the schemas of a question are made,
and `registry` the one at the question. -/
structure RoleRun where
  entry : Entry
  role : Str
  inlineLimit : Option ℤ := none
  schemas : Step → ToolRegistry
  registry : Step → ToolRegistry
  trace : List (Event Step.Answer)
  result : Except Stop Unit × Run
  traced : (executeGraph entry).Traced trace result
  found : ∀ ev ∈ trace, ∀ name ∈ foundName ev.1.call ev.2, (registry ev.1).has name = true

namespace RoleRun

variable (r : RoleRun)

/-- The question is one of the run itself: the runs inside it have deeper runtimes. -/
def own (c : Scope) : Bool := c.rt.subGraphDepth = r.entry.rt.subGraphDepth

def events : List (Event Step.Answer) := r.trace.filter fun ev => r.own ev.1.scope

/-- The schemas that the model is shown at a question. -/
def offered (q : Step) : List ToolSchema :=
  (askingNodes r.entry.graph q).flatMap fun node =>
    (nodeSchemas node (toolsSchema r.inlineLimit (inHandler r.entry.graph q) r.role r.entry.graph
      (r.schemas q))).getD []

/-- The arguments of a question that executes a `ToolSearchTool`. -/
def searchArgs (q : Step) : Option (List (Str × Json)) :=
  match q.call with
  | .execute _ name args =>
    if ((r.registry q).get name).any BaseTool.isToolSearch then some args.members else none
  | _ => none

/-- The tools that a question finds, if it executes a `ToolSearchTool`. -/
def searched (q : Step) : List BaseTool :=
  ((r.searchArgs q).map (toolSearch r.entry.rt.process.str (r.registry q))).getD []

/-- The run shows, finds and executes no tool that its role does not see. -/
structure Confined : Prop where
  offered : ∀ ev ∈ r.events, asksModel ev.1 = true → ∀ schema ∈ r.offered ev.1,
    schema ∈ dynamicToolSchemas ∨
      ∃ t, (r.schemas ev.1).get t.name = some t ∧ t.VisibleTo r.role ∧ t.openaiSchema = schema
  searched : ∀ ev ∈ r.events, ∀ t ∈ r.searched ev.1, t.VisibleTo r.role
  executed : ∀ ev ∈ r.events, ∀ site name args, ev.1.call = .execute site name args →
    ¬ (r.registry ev.1).Hides r.role name

/-- The run looks up no name that is at some point that of a tool which its role does not see. -/
def LooksUpVisible : Prop :=
  ∀ ev ∈ r.events, ∀ name ∈ foundName ev.1.call ev.2, ∀ ev' ∈ r.events,
    ¬ (r.registry ev'.1).Hides r.role name

/-- Every search of the run finds what it would find with the role. -/
def SearchesAlike : Prop :=
  ∀ ev ∈ r.events, ∀ args ∈ r.searchArgs ev.1,
    searchAs r.role r.entry.rt.process.str (r.registry ev.1) args =
      toolSearch r.entry.rt.process.str (r.registry ev.1) args

variable {r}

theorem of_mem_offered {q : Step} {schema : ToolSchema} (h : schema ∈ r.offered q) :
    schema ∈ dynamicToolSchemas ∨
      ∃ t, (r.schemas q).get t.name = some t ∧ t.VisibleTo r.role ∧ t.openaiSchema = schema := by
  obtain ⟨node, -, hnode⟩ := List.mem_flatMap.mp h
  exact mem_toolsSchema (mem_nodeSchemas hnode)

theorem mem_foundName {call : Call} {a : call.Answer} {name : Str} (h : call.finds name a = true) :
    name ∈ foundName call a := by
  cases call with
  | getTool name' =>
    obtain ⟨hname, rfl⟩ := Bool.and_eq_true_iff.mp h
    rw [← of_decide_eq_true hname]
    rfl
  | _ => exact absurd h (by simp [Call.finds])

theorem exists_foundName {ev : Event Step.Answer} (hev : ev ∈ r.events) {site : ToolSite}
    {name : Str} {args : Dict} (hcall : ev.1.call = .execute site name args) :
    ∃ ev' ∈ r.events, name ∈ foundName ev'.1.call ev'.2 := by
  obtain ⟨hmem, hown⟩ := List.mem_filter.mp hev
  obtain ⟨ev', hmem', hown', hfound⟩ := exists_found_of_executed_in r.own r.traced hmem hown hcall
  exact ⟨ev', List.mem_filter.mpr ⟨hmem', hown'⟩, mem_foundName hfound⟩

end RoleRun

/-! ### A search -/

def searchGraph : AgentGraph where
  id := "g"
  nodes := [("start", { type := .start }),
    ("search", { type := .llm, model := "m" })]
  edges := [{ sourceId := "start", targetId := "search" }]
  startNodeId := "start"
  nodup := by
    change List.Nodup ["start".toList, "search".toList]
    decide

def searchEntry : Entry where
  rt := { process := plainProcess, maxIterations := 3 }
  graph := searchGraph

/-- The model calls `tool_search` in every answer. -/
def callsSearch : LLMResponse where
  toolCalls := [{ id := "1", call := .ok ("tool_search", Dict.empty) }]

/-- A registry of `tool_search` and a tool for some roles. -/
def searchRegistry (roles : List Str) : ToolRegistry where
  tools := [
    ("tool_search", { name := "tool_search", isToolSearch := true }),
    ("backup", { name := "backup", roles })]
  nodup := by
    change List.Nodup ["tool_search".toList, "backup".toList]
    decide
  named := by
    intro t ht
    rcases List.mem_cons.mp ht with rfl | ht
    · rfl
    · rw [List.mem_singleton.mp ht]

/-- A run of a viewer in which the model searches, while a tool is registered for some roles. -/
def searchRun (roles : List Str) : RoleRun where
  entry := searchEntry
  role := "viewer"
  schemas _ := searchRegistry roles
  registry _ := searchRegistry roles
  trace := (obligingRun callsSearch searchEntry).1
  result := (obligingRun callsSearch searchEntry).2
  traced := traced_obligingRun callsSearch searchEntry
  found := by
    have hall : ((obligingRun callsSearch searchEntry).1.all fun ev =>
        (foundName ev.1.call ev.2).all (· = "tool_search".toList)) = true := by
      decide +kernel
    intro ev hev name hname
    have hev' := List.all_eq_true.mp hall ev hev
    rw [hname, Option.all_some, decide_eq_true_eq] at hev'
    rw [hev']
    rfl

theorem searchRun_looksUpVisible : (searchRun ["viewer"]).LooksUpVisible := by
  rintro ev - name - ev' - ⟨t, hget, hhidden⟩
  rcases List.mem_cons.mp (ToolRegistry.get_eq_some_iff.mp hget) with heq | hmem
  · rw [(Prod.mk.inj heq).2] at hhidden
    exact hhidden (by decide)
  · rw [(Prod.mk.inj (List.mem_singleton.mp hmem)).2] at hhidden
    exact hhidden (by decide)

end AgentStudio.Tools

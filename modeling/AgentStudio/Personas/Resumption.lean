import AgentStudio.Execution.Pending
import AgentStudio.Execution.ToolArgs
import AgentStudio.Personas.Gate
import AgentStudio.Tools.Roles

/-!
# What a resumed run is under

`_save_checkpoint` and `resume_from_checkpoint` of `agent_runtime/_runtime_checkpoint.py`. A run is
under its role, the declarations of its persona, the configurations of its tools, and `plan_mode`
while that is on. A checkpoint has the messages, the counters, the variables and the open tool calls
of a context (`saveCheckpoint`), and none of these restrictions; the run that goes on from it starts
with a fresh context (`resumedContext`, `RunIdentity` with its defaults).

A `GuardedRun` is a run with what it is under. `SameRestrictions` compares the run that goes on from
a checkpoint of it with the run at that point: the tools that it lists and executes, what the gate
of its persona does to each call, what each tool finds in its arguments, and `plan_mode` at its
start. `sameRestrictions_iff`: these are the same exactly if there was nothing to be lost.
-/

namespace AgentStudio.Personas

open PyText PyJson PyDict AgentStudio.Execution AgentStudio.Graph AgentStudio.Tools Programs

/-! ### Checkpoints -/

structure CheckpointState where
  messages : List Message := []
  iterationCount : ℤ := 0
  vars : Vars := []
  toolCallChainCount : ℕ := 0
  pendingToolCalls : List ToolCall := []

/-- `Checkpoint`, as far as a run is resumed from it. -/
structure Checkpoint where
  currentNodeId : Str
  state : CheckpointState

/-- What `_save_checkpoint` stores of a context. -/
def saveCheckpoint (ctx : AgentContext) : Checkpoint where
  currentNodeId := ctx.currentNodeId
  state :=
    { messages := ctx.messages
      iterationCount := ctx.iterationCount
      vars := ctx.vars.getD []
      toolCallChainCount := ctx.toolCallChainCount
      pendingToolCalls := extractPendingToolCalls (ctx.messages.map some) }

/-- The context with which `resume_from_checkpoint` goes on: the variables are those of the
checkpoint and then what people have decided in the meantime. -/
def resumedContext (g : AgentGraph) (checkpoint : Checkpoint) (humanInputs : Vars) :
    AgentContext where
  messages := checkpoint.state.messages
  currentNodeId := Runtime.orText checkpoint.currentNodeId g.startNodeId
  iterationCount := checkpoint.state.iterationCount
  toolCallChainCount := checkpoint.state.toolCallChainCount
  vars := some ((checkpoint.state.vars ++ humanInputs).foldl
    (fun vars m => setItem m.1 m.2 vars) [])

/-! ### Restrictions -/

/-- The fields of `AgentContext` that say on whose behalf a run is made and what it may do: the
agent, also that of the metadata, the tenant and the team of the metadata, the role, the
configurations of tools, and the declarations of the persona. -/
structure RunIdentity where
  agentId : Str := []
  metadataAgentId : Str := []
  tenantId : Str := []
  teamId : Str := []
  role : Str := "all"
  toolConfigs : Configs := []
  personaDeclarations : Declarations := {}

/-- What the runtime has when a run is resumed: its tools, their configurations, the persona layers
of an agent, unless resolving them raises an exception, and what the gate gets. -/
structure Host where
  registry : ToolRegistry
  toolConfigs : Configs
  resolvePersona : Str → Str → Str → Option Declarations
  harness : Harness

/-- `_resolve_persona_declarations`. -/
def resolvePersonaDeclarations (host : Host) (identity : RunIdentity) : RunIdentity :=
  let agentId := Runtime.orText identity.agentId identity.metadataAgentId
  if agentId = [] then identity
  else
    match host.resolvePersona agentId identity.tenantId identity.teamId with
    | none => identity
    | some d => if d.declares then { identity with personaDeclarations := d } else identity

def RunIdentity.admitCall (identity : RunIdentity) (host : Host) (toolName : Str)
    (args : List (Str × Json)) : Except Str (List (Str × Json)) :=
  admitPersona host.harness identity.personaDeclarations toolName args

/-- What a tool finds under a name, in a call with some arguments. -/
def RunIdentity.argument (identity : RunIdentity) (host : Host) (toolName : Str)
    (args : List (Str × Json)) (name : Str) : Option Json :=
  (mergeToolConfigDefaults host.toolConfigs (some identity.toolConfigs) toolName args).lookup name

/-- The identity of a resumed run, whose context is made with its session only. -/
def resumedIdentity (host : Host) : RunIdentity := resolvePersonaDeclarations host {}

/-! ### Runs -/

/-- A run with what it is under; `host` is the runtime when the run is resumed. -/
structure GuardedRun where
  entry : Entry
  started : RunIdentity
  host : Host
  trace : List (Event Step.Answer)
  result : Except Stop Unit × Run
  traced : (executeGraph entry).Traced trace result

namespace GuardedRun

variable (r : GuardedRun)

def identity : RunIdentity := resolvePersonaDeclarations r.host r.started

/-- A context with which a checkpoint of the run may be saved: one at a question of the run itself,
whose runtime is that of the run, or the one at its end. -/
structure Point where
  ctx : AgentContext
  reached : (∃ ev ∈ r.trace, ev.1.scope.rt.subGraphDepth = r.entry.rt.subGraphDepth ∧
    ev.1.ctx = ctx) ∨ r.result.2.ctx = ctx

variable {r}

/-- What `resume_from_checkpoint` starts, with the checkpoint of a point of the run. -/
def Point.continued (p : r.Point) (humanInputs : Vars) (stream : Bool) : Entry where
  rt := r.entry.rt
  graph := r.entry.graph
  ctx := resumedContext r.entry.graph (saveCheckpoint p.ctx) humanInputs
  stream := stream

/-- The runs that go on from a point, with the tools of the runtime. -/
structure Point.ResumedBy (p : r.Point) (r' : RoleRun) : Prop where
  entry : ∃ humanInputs stream, r'.entry = p.continued humanInputs stream
  role : r'.role = (resumedIdentity r.host).role
  registry : ∀ q, r'.registry q = r.host.registry

/-- The run that goes on from a point is under what the run is under there. -/
structure SameRestrictions (p : r.Point) : Prop where
  offered : ∀ schema ∈ r.host.registry.toOpenaiSchemas (resumedIdentity r.host).role,
    ∃ t, r.host.registry.get t.name = some t ∧ t.VisibleTo r.identity.role ∧
      t.openaiSchema = schema
  executed : ∀ r', p.ResumedBy r' → ∀ ev ∈ r'.events, ∀ site name args,
    ev.1.call = .execute site name args → ¬ r.host.registry.Hides r.identity.role name
  persona : ∀ toolName args, (resumedIdentity r.host).admitCall r.host toolName args =
    r.identity.admitCall r.host toolName args
  configs : ∀ toolName args, (args.map Prod.fst).Nodup → ∀ name,
    (resumedIdentity r.host).argument r.host toolName args name =
      r.identity.argument r.host toolName args name
  planMode : ∀ humanInputs stream t result,
    (executeGraph (p.continued humanInputs stream)).Traced t result →
      ∀ ev ∈ t.head?, ev.1.ctx.planMode = p.ctx.planMode

/-- What the run is under at a point makes no difference: its role sees all tools, the gate of its
persona is open, its configurations have what those of the runtime have, and `plan_mode` is as the
graph says. -/
structure Unrestricted (p : r.Point) : Prop where
  role : ∀ t ∈ r.host.registry.values, t.VisibleTo r.identity.role
  persona : ∀ gate, personaGateFor r.host.harness r.identity.personaDeclarations = some gate →
    gate.Open
  configs : ∀ toolName cfg, r.identity.toolConfigs.lookup toolName = some cfg → ∀ name,
    cfg.lookup name = ((r.host.toolConfigs.lookup toolName).getD []).lookup name
  planMode : p.ctx.planMode = r.entry.graph.planMode

/-! ### Each restriction -/

theorem offered_iff {registry : ToolRegistry} {role : Str} :
    (∀ schema ∈ registry.toOpenaiSchemas "all",
      ∃ t, registry.get t.name = some t ∧ t.VisibleTo role ∧ t.openaiSchema = schema) ↔
      ∀ t ∈ registry.values, t.VisibleTo role := by
  constructor
  · intro h t ht
    have hget := ToolRegistry.mem_values_iff.mp ht
    obtain ⟨t', hget', hvisible, hschema⟩ := h t.openaiSchema
      (ToolRegistry.mem_toOpenaiSchemas.mpr ⟨t, hget, ToolRegistry.visibleTo_all t, rfl⟩)
    -- a schema has the name of its tool, and a name has one tool
    have hname : t'.name = t.name := congrArg ToolSchema.name hschema
    rw [hname, hget] at hget'
    rwa [Option.some.inj hget']
  · intro h schema hschema
    obtain ⟨t, hget, -, rfl⟩ := ToolRegistry.mem_toOpenaiSchemas.mp hschema
    exact ⟨t, hget, h t (ToolRegistry.mem_values_iff.mpr hget), rfl⟩

theorem not_hides_of_visible {registry : ToolRegistry} {role : Str}
    (h : ∀ t ∈ registry.values, t.VisibleTo role) (name : Str) : ¬ registry.Hides role name := by
  rintro ⟨t, hget, hhidden⟩
  refine hhidden (h t (ToolRegistry.mem_values_iff.mpr ?_))
  rwa [ToolRegistry.name_of_get hget]

theorem configs_iff {host : Host} {identity : RunIdentity} :
    (∀ toolName args, (args.map Prod.fst).Nodup → ∀ name,
      (resumedIdentity host).argument host toolName args name =
        identity.argument host toolName args name) ↔
      ∀ toolName cfg, identity.toolConfigs.lookup toolName = some cfg → ∀ name,
        cfg.lookup name = ((host.toolConfigs.lookup toolName).getD []).lookup name := by
  have hof : ∀ toolName, host.toolConfigs.of (some (resumedIdentity host).toolConfigs) toolName =
      (host.toolConfigs.lookup toolName).getD [] := fun _ => rfl
  have hself : ∀ {toolName cfg}, identity.toolConfigs.lookup toolName = some cfg →
      host.toolConfigs.of (some identity.toolConfigs) toolName = cfg := by
    intro toolName cfg hcfg
    rw [Configs.of, Option.bind_some, hcfg, Option.some_or, Option.getD_some]
  constructor
  · intro h toolName cfg hcfg name
    have hname := h toolName [] List.nodup_nil name
    have hnil : (([] : List (Str × Json)).map Prod.fst).Nodup := List.nodup_nil
    rw [RunIdentity.argument, RunIdentity.argument, lookup_mergeToolConfigDefaults _ _ _ hnil,
      lookup_mergeToolConfigDefaults _ _ _ hnil, List.lookup_nil, Option.none_or, Option.none_or,
      hof, hself hcfg] at hname
    exact hname.symm
  · intro h toolName args hargs name
    rw [RunIdentity.argument, RunIdentity.argument, lookup_mergeToolConfigDefaults _ _ _ hargs,
      lookup_mergeToolConfigDefaults _ _ _ hargs, hof]
    cases hcfg : identity.toolConfigs.lookup toolName with
    | none => rw [Configs.of, Option.bind_some, hcfg, Option.none_or]
    | some cfg => rw [hself hcfg, h toolName cfg hcfg name]

private theorem exists_start (e : Entry) : ∃ q next, executeGraph e = .ask q next ∧
    q.ctx.planMode = (e.graph.planMode || e.ctx.planMode) :=
  ⟨_, _, rfl, rfl⟩

theorem planMode_of_head {e : Entry} {t : List (Event Step.Answer)}
    {result : Except Stop Unit × Run} (ht : (executeGraph e).Traced t result) :
    ∃ ev, t.head? = some ev ∧ ev.1.ctx.planMode = (e.graph.planMode || e.ctx.planMode) := by
  obtain ⟨q, next, hask, hplan⟩ := exists_start e
  rw [hask] at ht
  cases ht with
  | ask a h => exact ⟨_, rfl, hplan⟩

theorem planMode_iff {p : r.Point} :
    (∀ humanInputs stream t result,
      (executeGraph (p.continued humanInputs stream)).Traced t result →
        ∀ ev ∈ t.head?, ev.1.ctx.planMode = p.ctx.planMode) ↔
      p.ctx.planMode = r.entry.graph.planMode := by
  have hstart : ∀ humanInputs stream, ((p.continued humanInputs stream).graph.planMode ||
      (p.continued humanInputs stream).ctx.planMode) = r.entry.graph.planMode :=
    fun _ _ => Bool.or_false _
  constructor
  · intro h
    obtain ⟨ev, hev, hplan⟩ := planMode_of_head (traced_obligingRun {} (p.continued [] false))
    exact (h [] false _ _ (traced_obligingRun {} (p.continued [] false)) ev hev).symm.trans
      (hplan.trans (hstart [] false))
  · intro h humanInputs stream t result ht ev hev
    obtain ⟨ev', hev', hplan⟩ := planMode_of_head ht
    rw [Option.mem_def.mp hev] at hev'
    rw [Option.some.inj hev', hplan, hstart, h]

/-- **Resuming a run.** What goes on from a point of a run, under any role, agent, configurations
and `plan_mode`, is under the same restrictions as the run is there if and only if these make no
difference. -/
theorem sameRestrictions_iff (p : r.Point) : r.SameRestrictions p ↔ r.Unrestricted p := by
  have hpersona : (∀ toolName args, (resumedIdentity r.host).admitCall r.host toolName args =
      r.identity.admitCall r.host toolName args) ↔
        ∀ toolName args, r.identity.admitCall r.host toolName args = .ok args :=
    forall₂_congr fun _ _ => eq_comm
  constructor
  · intro h
    exact ⟨offered_iff.mp h.offered, admitPersona_eq_ok_iff.mp (hpersona.mp h.persona),
      configs_iff.mp h.configs, planMode_iff.mp h.planMode⟩
  · intro h
    exact ⟨offered_iff.mpr h.role, fun _ _ _ _ _ name _ _ => not_hides_of_visible h.role name,
      hpersona.mpr (admitPersona_eq_ok_iff.mpr h.persona), configs_iff.mpr h.configs,
      planMode_iff.mpr h.planMode⟩

/-! ### A viewer -/

/-- A run of a viewer, in a runtime that has a tool for the operator only. -/
def viewerRun : GuardedRun where
  entry := searchEntry
  started := { role := "viewer" }
  host :=
    { registry := searchRegistry ["operator"]
      toolConfigs := []
      resolvePersona := fun _ _ _ => none
      harness := { engine := fun _ => none, str := fun _ => [] } }
  trace := (obligingRun callsSearch searchEntry).1
  result := (obligingRun callsSearch searchEntry).2
  traced := traced_obligingRun callsSearch searchEntry

/-- What goes on from the end of that run lists the tool. -/
theorem not_sameRestrictions : ¬ ∀ (r : GuardedRun) (p : r.Point), r.SameRestrictions p := by
  intro h
  have hoffered := (h viewerRun ⟨viewerRun.result.2.ctx, .inr rfl⟩).offered
  have hvisible := offered_iff.mp hoffered
    { name := "backup", roles := ["operator"] }
    (List.mem_cons_of_mem _ List.mem_cons_self)
  exact absurd hvisible (by decide)

end GuardedRun

end AgentStudio.Personas

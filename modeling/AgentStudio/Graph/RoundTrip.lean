import AgentStudio.Graph.Serialize

/-!
# What loading makes of a saved graph

A saved field is read back if its value is true; otherwise the default of the class takes its
place (`lookup_toDict` and the `field_` lemmas). For most fields the default is the only false
value, so nothing is lost. The exceptions make up `NodeConfig.reloaded`: a zero temperature, a
zero token limit and a zero iteration limit come back as `0.7`, `4096` and `10`, an empty tool
choice dictionary as the empty string, and the retry settings, which are not saved, as `3` and
`1`.
-/

namespace AgentStudio.Graph

open PyText PyDict PyJson

private theorem bind_of_eq {α β : Type} {x : Option α} {a : α} (h : x = some a)
    (f : α → Option β) : x >>= f = f a := by
  rw [h]
  rfl

/-! ### Nodes -/

namespace ToolChoice

/-- The tool choice after saving and loading. -/
def reloaded : ToolChoice → ToolChoice
  | mode s => mode s
  | spec d => if d.members = [] then mode [] else spec d

theorem reloaded_eq_self_iff {c : ToolChoice} : c.reloaded = c ↔ c ≠ spec Dict.empty := by
  cases c with
  | mode s => simp [reloaded]
  | spec d =>
    have hempty : d.members = [] ↔ d = Dict.empty := by
      constructor
      · intro h
        cases d
        simp only at h
        subst h
        rfl
      · rintro rfl
        rfl
    rw [reloaded]
    split_ifs with h
    · simp [hempty.mp h]
    · simpa [hempty] using h

end ToolChoice

namespace NodeConfig

variable (n : NodeConfig)

/-- A node after saving and loading. -/
def reloaded : NodeConfig :=
  { n with
    temperature := if n.temperature = 0 then Number.pointSeven else n.temperature
    maxTokens := if n.maxTokens = 0 then 4096 else n.maxTokens
    maxIterations := if n.maxIterations = 0 then 10 else n.maxIterations
    maxRetries := 3
    retryDelay := 1
    toolChoice := n.toolChoice.reloaded
    modelRouter := [] }

/-- The settings of a node that come back from saving and loading. -/
structure Survives : Prop where
  type : n.type.toStr ≠ []
  temperature : n.temperature ≠ 0
  maxTokens : n.maxTokens ≠ 0
  maxIterations : n.maxIterations ≠ 0
  maxRetries : n.maxRetries = 3
  retryDelay : n.retryDelay = 1
  toolChoice : n.toolChoice ≠ .spec Dict.empty

variable {n}

theorem reloaded_eq_self_iff (htype : n.type.toStr ≠ []) (hrouter : n.modelRouter = []) :
    n.reloaded = n ↔ n.Survives := by
  have hseven : Number.pointSeven ≠ 0 := by decide
  constructor
  · intro h
    refine ⟨htype, fun h0 => ?_, fun h0 => ?_, fun h0 => ?_, ?_, ?_, ?_⟩
    · have := congrArg NodeConfig.temperature h
      rw [reloaded, if_pos h0, h0] at this
      exact hseven this
    · have := congrArg NodeConfig.maxTokens h
      simp [reloaded, h0] at this
    · have := congrArg NodeConfig.maxIterations h
      simp [reloaded, h0] at this
    · exact (congrArg NodeConfig.maxRetries h).symm
    · exact (congrArg NodeConfig.retryDelay h).symm
    · exact ToolChoice.reloaded_eq_self_iff.mp (congrArg NodeConfig.toolChoice h)
  · intro h
    have hchoice := ToolChoice.reloaded_eq_self_iff.mpr h.toolChoice
    rw [reloaded, if_neg h.temperature, if_neg h.maxTokens, if_neg h.maxIterations, hchoice,
      ← h.maxRetries, ← h.retryDelay, ← hrouter]

def savedNames : List Str :=
  ["type", "label", "model", "system_prompt", "temperature", "max_tokens", "tool_name",
    "tool_params", "condition_expr", "max_iterations", "retry_on_error", "allow_dynamic_tools",
    "disable_tools", "effort", "tool_choice", "parallel_tool_calls", "loop_mode",
    "max_loop_iterations", "stop_sequences", "x", "y", "parent", "post_action_capture",
    "assertion"].map String.toList

private theorem map_fst_saved : n.saved.map Prod.fst = savedNames := rfl

theorem nodup_saved : (n.saved.map Prod.fst).Nodup := by
  rw [map_fst_saved]
  decide

theorem nodup_toDict : (n.toDict.map Prod.fst).Nodup :=
  nodup_saved.sublist (List.filter_sublist.map _)

theorem lookup_toDict {k : Str} {v : Json} (h : n.saved.lookup k = some v) :
    n.toDict.lookup k = if v.truthy then some v else none := by
  rw [toDict, lookup_filter nodup_saved, h]
  cases hv : v.truthy <;> simp [Option.filter, hv]

theorem lookup_toDict_of_none {k : Str} (h : n.saved.lookup k = none) :
    n.toDict.lookup k = none := by
  rw [toDict, lookup_filter nodup_saved, h]
  rfl

theorem merged_toDict : merged n.toDict = n.toDict := by
  have hconfig : n.toDict.lookup "config".toList = none := lookup_toDict_of_none rfl
  have hposition : n.toDict.lookup "position".toList = none := lookup_toDict_of_none rfl
  have hknown : n.toDict.filter (·.1 ∈ known) = n.toDict := by
    refine List.filter_eq_self.mpr fun m hm => ?_
    have hsaved : ∀ k ∈ savedNames, k ∈ known := by decide
    have hmem : m.1 ∈ n.saved.map Prod.fst := List.mem_map_of_mem (List.mem_filter.mp hm).1
    exact decide_eq_true (hsaved _ (map_fst_saved (n := n) ▸ hmem))
  rw [merged, hconfig, hposition, hknown]
  exact ofPairs_of_nodup nodup_toDict

section Fields

variable (n) (key : String)

private theorem field_str {s : Str} (h : n.saved.lookup key.toList = some (.str s)) :
    field n.toDict key decodeStr [] = some s := by
  rw [field, lookup_toDict h]
  cases s <;> rfl

private theorem field_bool {b : Bool} (h : n.saved.lookup key.toList = some (.bool b)) :
    field n.toDict key decodeBool false = some b := by
  rw [field, lookup_toDict h]
  cases b <;> rfl

private theorem field_num {x : Number} (d : Number)
    (h : n.saved.lookup key.toList = some (.num x)) :
    field n.toDict key decodeNum d = some (if x = 0 then d else x) := by
  rw [field, lookup_toDict h]
  by_cases hx : x = 0 <;> simp [Json.truthy, decodeNum, hx]

private theorem field_int {m : ℤ} (d : ℤ)
    (h : n.saved.lookup key.toList = some (.num (.ofInt m))) :
    field n.toDict key decodeInt d = some (if m = 0 then d else m) := by
  have hzero : Number.ofInt m = 0 ↔ m = 0 := by
    constructor
    · exact congrArg Number.mantissa
    · rintro rfl
      rfl
  rw [field, lookup_toDict h]
  have hdecode : decodeInt (.num (.ofInt m)) = some m := rfl
  by_cases hm : m = 0
  · subst hm
    rfl
  · have hm' : Number.ofInt m ≠ 0 := fun h => hm (hzero.mp h)
    simp [Json.truthy, hm, hm', hdecode]

private theorem field_dict {d : Dict} (h : n.saved.lookup key.toList = some d.toJson) :
    field n.toDict key decodeDict Dict.empty = some d := by
  rw [field, lookup_toDict h]
  obtain ⟨ms, hnd, hwf⟩ := d
  cases ms with
  | nil => rfl
  | cons m ms => exact Dict.ofMembers_members ⟨m :: ms, hnd, hwf⟩

private theorem field_items {l : Items} (h : n.saved.lookup key.toList = some l.toJson) :
    field n.toDict key decodeItems Items.empty = some l := by
  rw [field, lookup_toDict h]
  obtain ⟨vs, hwf⟩ := l
  cases vs with
  | nil => rfl
  | cons v vs => exact Items.ofList_items ⟨v :: vs, hwf⟩

private theorem field_toolChoice {c : ToolChoice} (h : n.saved.lookup key.toList = some c.toJson) :
    field n.toDict key decodeToolChoice (.mode []) = some c.reloaded := by
  rw [field, lookup_toDict h]
  cases c with
  | mode s => cases s <;> rfl
  | spec d =>
    obtain ⟨ms, hnd, hwf⟩ := d
    cases ms with
    | nil => rfl
    | cons m ms =>
      have hself := Dict.ofMembers_members ⟨m :: ms, hnd, hwf⟩
      simp [ToolChoice.toJson, Dict.toJson, Json.truthy, decodeToolChoice, hself,
        ToolChoice.reloaded]

private theorem field_absent {α : Type} {decode : Json → Option α} {d : α}
    (h : n.saved.lookup key.toList = none) : field n.toDict key decode d = some d := by
  rw [field, lookup_toDict_of_none h]

end Fields

/-- **A node.** Saving and loading resets the settings whose false values are not their
defaults. -/
theorem fromDict_toDict :
    fromDict n.toDict = if n.type.toStr = [] then none else some n.reloaded := by
  have htype : (n.toDict.lookup "type".toList).bind decodeStr
      = if n.type.toStr = [] then none else some n.type.toStr := by
    rw [lookup_toDict (v := .str n.type.toStr) rfl]
    cases n.type.toStr <;> rfl
  have hx : (if n.x = 0 then 0 else n.x) = n.x := by split_ifs with h <;> simp [h]
  have hy : (if n.y = 0 then 0 else n.y) = n.y := by split_ifs with h <;> simp [h]
  have hloop : (if n.maxLoopIterations = 0 then 0 else n.maxLoopIterations)
      = n.maxLoopIterations := by split_ifs with h <;> simp [h]
  rw [fromDict, merged_toDict, ofFields, htype]
  by_cases hempty : n.type.toStr = []
  · rw [if_pos hempty, if_pos hempty]
    rfl
  · rw [if_neg hempty, if_neg hempty, bind_of_eq rfl,
      bind_of_eq (field_str n "label" rfl), bind_of_eq (field_str n "model" rfl),
      bind_of_eq (field_str n "system_prompt" rfl), bind_of_eq (field_num n "temperature" _ rfl),
      bind_of_eq (field_int n "max_tokens" _ rfl), bind_of_eq (field_str n "tool_name" rfl),
      bind_of_eq (field_dict n "tool_params" rfl), bind_of_eq (field_str n "condition_expr" rfl),
      bind_of_eq (field_int n "max_iterations" _ rfl),
      bind_of_eq (field_absent n "max_retries" rfl),
      bind_of_eq (field_absent n "retry_delay" rfl),
      bind_of_eq (field_bool n "retry_on_error" rfl),
      bind_of_eq (field_bool n "allow_dynamic_tools" rfl),
      bind_of_eq (field_bool n "disable_tools" rfl), bind_of_eq (field_str n "effort" rfl),
      bind_of_eq (field_toolChoice n "tool_choice" rfl),
      bind_of_eq (field_bool n "parallel_tool_calls" rfl),
      bind_of_eq (field_str n "loop_mode" rfl),
      bind_of_eq (field_int n "max_loop_iterations" _ rfl),
      bind_of_eq (field_items n "stop_sequences" rfl), bind_of_eq (field_num n "x" _ rfl),
      bind_of_eq (field_num n "y" _ rfl), bind_of_eq (field_str n "parent" rfl),
      bind_of_eq (field_absent n "model_router" rfl),
      bind_of_eq (field_bool n "post_action_capture" rfl),
      bind_of_eq (field_dict n "assertion" rfl), hx, hy, hloop, NodeType.ofStr_toStr]
    rfl

end NodeConfig

/-! ### Edges and graphs -/

private theorem Edge.fromDict_toDict (e : Edge) : Edge.fromDict e.toDict = some e := rfl

private theorem mapM_eq_map {α β : Type} {f : α → Option β} {h : α → β} {l : List α}
    (hf : ∀ a ∈ l, f a = some (h a)) : l.mapM f = some (l.map h) := by
  induction l with
  | nil => rfl
  | cons a l ih =>
    rw [List.mapM_cons, hf a List.mem_cons_self, ih fun b hb => hf b (List.mem_cons_of_mem a hb)]
    rfl

private theorem mapM_eq_none {α β : Type} {f : α → Option β} {l : List α} {a : α} (ha : a ∈ l)
    (hf : f a = none) : l.mapM f = none := by
  induction l with
  | nil => exact absurd ha List.not_mem_nil
  | cons b l ih =>
    rw [List.mapM_cons]
    rcases List.mem_cons.mp ha with rfl | ha
    · rw [hf]
      rfl
    · rw [ih ha]
      cases f b <;> rfl

namespace AgentGraph

variable (g : AgentGraph)

/-- A graph after saving and loading. -/
def reloaded : AgentGraph :=
  { g with
    nodes := g.nodes.map fun n => (n.1, n.2.reloaded)
    nodup := by simpa [Function.comp_def] using g.nodup }

theorem toDict_wf : Json.WF (.obj g.toDict) := by
  have hchoice : ∀ c : ToolChoice, c.toJson.WF := fun c => by
    cases c with
    | mode s => trivial
    | spec d => exact d.toJson_wf
  have hsaved : ∀ n : NodeConfig, ∀ m ∈ n.saved, m.2.WF := fun n => membersWF_iff.mp
    ⟨trivial, trivial, trivial, trivial, trivial, trivial, trivial, n.toolParams.toJson_wf,
      trivial, trivial, trivial, trivial, trivial, trivial, hchoice n.toolChoice, trivial, trivial,
      trivial, n.stopSequences.toJson_wf, trivial, trivial, trivial, trivial,
      n.assertion.toJson_wf, trivial⟩
  have hnode : ∀ n : NodeConfig, Json.WF (.obj n.toDict) := fun n =>
    ⟨NodeConfig.nodup_toDict, membersWF_iff.mpr fun m hm => hsaved n m (List.mem_filter.mp hm).1⟩
  have hnodes : Json.WF (.obj (g.nodes.map fun n => (n.1, .obj n.2.toDict))) := by
    refine ⟨by simpa [Function.comp_def] using g.nodup, membersWF_iff.mpr fun m hm => ?_⟩
    obtain ⟨n, -, rfl⟩ := List.mem_map.mp hm
    exact hnode n.2
  have hedges : Json.WF (.arr (g.edges.map fun e => .obj e.toDict)) := by
    refine itemsWF_iff.mpr fun v hv => ?_
    obtain ⟨e, -, rfl⟩ := List.mem_map.mp hv
    exact ⟨by simp [Edge.toDict], trivial, trivial, trivial, trivial⟩
  have hpolicy : ((g.confirmationPolicy.map Dict.toJson).getD .null).WF := by
    cases g.confirmationPolicy with
    | none => trivial
    | some d => exact d.toJson_wf
  have hnames : g.toDict.map Prod.fst = ["id", "name", "description", "nodes", "edges",
      "start_node_id", "version", "agent_id", "plan_mode", "stop_on_tool_error",
      "confirmation_policy"].map String.toList := rfl
  exact ⟨by rw [hnames]; decide, trivial, trivial, trivial, hnodes, hedges, trivial, trivial,
    trivial, trivial, trivial, hpolicy, trivial⟩

variable {g}

private theorem field_toDict {α : Type} (key : String) (decode : Json → Option α)
    {d a : α} {v : Json} (hv : g.toDict.lookup key.toList = some v) (ha : decode v = some a) :
    field g.toDict key decode d = some a := by
  rw [field, hv, ← ha]

private theorem decodePolicy_toJson (p : Option Dict) :
    decodePolicy ((p.map Dict.toJson).getD .null) = some p := by
  cases p with
  | none => rfl
  | some d => exact congrArg (Option.map some) (Dict.ofMembers_members d)

private theorem decodeEdges_toDict : decodeEdges g.toDict = some g.edges := by
  have hlookup : g.toDict.lookup "edges".toList
      = some (.arr (g.edges.map fun e => .obj e.toDict)) := rfl
  have hedge : ∀ e ∈ g.edges, (decodeObj (.obj e.toDict)).bind Edge.fromDict = some e :=
    fun e _ => by rw [decodeObj, Option.bind_some, Edge.fromDict_toDict]
  rw [decodeEdges, hlookup]
  simp only [List.mapM_map, Function.comp_def]
  rw [mapM_eq_map (h := fun e => e) hedge, List.map_id']

private theorem decodeNodes_toDict :
    decodeNodes g.toDict = nodesOfMembers (g.nodes.map fun n => (n.1, .obj n.2.toDict)) := rfl

private theorem fromDict_toDict (uuid : Str) :
    fromDict uuid g.toDict = (decodeNodes g.toDict).bind fun nodes =>
      ofFields uuid g.id g.name g.description nodes g.edges g.startNodeId g.version g.agentId
        g.planMode g.stopOnToolError g.confirmationPolicy := by
  rw [fromDict]
  refine congrArg _ (funext fun nodes => ?_)
  rw [bind_of_eq decodeEdges_toDict, bind_of_eq (field_toDict "start_node_id" decodeStr rfl rfl),
    bind_of_eq (field_toDict "id" decodeStr rfl rfl),
    bind_of_eq (field_toDict "name" decodeStr rfl rfl),
    bind_of_eq (field_toDict "description" decodeStr rfl rfl),
    bind_of_eq (field_toDict "version" decodeStr rfl rfl),
    bind_of_eq (field_toDict "agent_id" decodeStr rfl rfl),
    bind_of_eq (field_toDict "plan_mode" decodeBool rfl rfl),
    bind_of_eq (field_toDict "stop_on_tool_error" decodeBool rfl rfl),
    bind_of_eq (field_toDict "confirmation_policy" decodePolicy rfl (decodePolicy_toJson _))]

private theorem fromJson_toJson_eq (uuid : Str) :
    fromJson uuid g.toJson = fromDict uuid g.toDict := by
  rw [fromJson, toJson, loads_dumps _ g.toDict_wf, bind_of_eq rfl]
  rfl

/-- The node that a graph without start node starts at. -/
def firstStart (nodes : List (Str × NodeConfig)) : Str :=
  ((nodes.find? (·.2.type = .start)).map Prod.fst).getD []

/-- The graph that loading makes of a saved one: an empty id is replaced, and so is an empty start
node. -/
def reread (g : AgentGraph) (uuid : Str) : AgentGraph :=
  { g.reloaded with
    id := if g.id = [] then uuid else g.id
    startNodeId := if g.startNodeId = [] then firstStart g.reloaded.nodes else g.startNodeId }

theorem fromJson_toJson_eq_reread (uuid : Str) (htype : ∀ n ∈ g.nodes, n.2.type.toStr ≠ []) :
    fromJson uuid g.toJson = some (g.reread uuid) := by
  have hnodes : decodeNodes g.toDict = some g.reloaded.nodes := by
    rw [decodeNodes_toDict, nodesOfMembers, List.mapM_map, reloaded]
    refine mapM_eq_map fun n hn => ?_
    simp [decodeObj, NodeConfig.fromDict_toDict, htype n hn]
  rw [fromJson_toJson_eq, fromDict_toDict, hnodes, Option.bind_some, ofFields,
    dif_pos g.reloaded.nodup]
  rfl

/-- **A graph.** A graph with an id, a start node and no nameless node type comes back with the
same fields, up to the settings that its nodes lose. -/
theorem fromJson_toJson (uuid : Str) (hid : g.id ≠ []) (hstart : g.startNodeId ≠ [])
    (htype : ∀ n ∈ g.nodes, n.2.type.toStr ≠ []) : fromJson uuid g.toJson = some g.reloaded := by
  rw [fromJson_toJson_eq_reread uuid htype, reread, if_neg hid, if_neg hstart]
  rfl

theorem fromJson_toJson_eq_none (uuid : Str) {n : Str × NodeConfig} (hn : n ∈ g.nodes)
    (htype : n.2.type.toStr = []) : fromJson uuid g.toJson = none := by
  have hnodes : decodeNodes g.toDict = none := by
    rw [decodeNodes_toDict, nodesOfMembers, List.mapM_map]
    refine mapM_eq_none hn ?_
    simp [decodeObj, NodeConfig.fromDict_toDict, htype]
  rw [fromJson_toJson_eq, fromDict_toDict, hnodes]
  rfl

theorem reloaded_eq_self_iff : g.reloaded = g ↔ ∀ n ∈ g.nodes, n.2.reloaded = n.2 := by
  have hmap : g.reloaded.nodes = g.nodes ↔ ∀ n ∈ g.nodes, n.2.reloaded = n.2 := by
    have hid : g.nodes = g.nodes.map fun n => n := (List.map_id' _).symm
    conv_lhs => rw [hid]
    rw [reloaded, List.map_inj_left]
    simp [Prod.ext_iff]
  rw [← hmap]
  refine ⟨congrArg AgentGraph.nodes, fun h => ?_⟩
  obtain ⟨⟩ := g
  simpa [reloaded] using h

/-- **The round trip.** Saving and loading a graph is exact when every node keeps its settings,
and only then. -/
theorem fromJson_toJson_eq_self_iff (uuid : Str) (hid : g.id ≠ []) (hstart : g.startNodeId ≠ [])
    (hrouter : ∀ n ∈ g.nodes, n.2.modelRouter = []) :
    fromJson uuid g.toJson = some g ↔ ∀ n ∈ g.nodes, n.2.Survives := by
  by_cases htype : ∀ n ∈ g.nodes, n.2.type.toStr ≠ []
  · rw [fromJson_toJson uuid hid hstart htype, Option.some.injEq, reloaded_eq_self_iff]
    exact forall₂_congr fun n hn => NodeConfig.reloaded_eq_self_iff (htype n hn) (hrouter n hn)
  · obtain ⟨n, hn, hnil⟩ : ∃ n ∈ g.nodes, n.2.type.toStr = [] := by simpa using htype
    rw [fromJson_toJson_eq_none uuid hn hnil]
    exact ⟨fun h => absurd h (by simp), fun h => absurd hnil (h n hn).type⟩

/-- A graph that comes back from saving and loading. -/
structure Survives (g : AgentGraph) : Prop where
  id : g.id ≠ []
  start : g.startNodeId = [] → firstStart g.nodes = []
  nodes : ∀ n ∈ g.nodes, n.2.Survives ∧ n.2.modelRouter = []

/-- The round trip of any graph, where the id of a graph without one is new. -/
theorem fromJson_toJson_iff_survives {uuid : Str} (huuid : uuid ≠ []) :
    fromJson uuid g.toJson = some g ↔ g.Survives := by
  by_cases htype : ∀ n ∈ g.nodes, n.2.type.toStr ≠ []
  · rw [fromJson_toJson_eq_reread uuid htype, Option.some.injEq]
    constructor
    · intro h
      have hid : g.id ≠ [] := fun hid => by
        have hnew := congrArg AgentGraph.id h
        rw [reread, if_pos hid, hid] at hnew
        exact huuid hnew
      have hrouter : ∀ n ∈ g.nodes, n.2.modelRouter = [] := fun n hn => by
        rw [← h] at hn
        obtain ⟨m, -, rfl⟩ := List.mem_map.mp hn
        rfl
      have hself : g.reloaded = g := reloaded_eq_self_iff.mpr fun n hn => by
        have hnodes : g.nodes.map (fun n => (n.1, n.2.reloaded)) = g.nodes.map fun n => n :=
          (congrArg AgentGraph.nodes h).trans (List.map_id' _).symm
        exact congrArg Prod.snd (List.map_inj_left.mp hnodes n hn)
      refine ⟨hid, fun hstart => ?_, fun n hn => ⟨?_, hrouter n hn⟩⟩
      · have hnew := congrArg AgentGraph.startNodeId h
        rw [reread, hself, hstart] at hnew
        simpa using hnew
      · exact (NodeConfig.reloaded_eq_self_iff (htype n hn) (hrouter n hn)).mp
          (reloaded_eq_self_iff.mp hself n hn)
    · intro h
      have hself : g.reloaded = g := reloaded_eq_self_iff.mpr fun n hn =>
        (NodeConfig.reloaded_eq_self_iff (htype n hn) (h.nodes n hn).2).mpr (h.nodes n hn).1
      rw [reread, hself, if_neg h.id]
      by_cases hstart : g.startNodeId = []
      · rw [if_pos hstart, h.start hstart, ← hstart]
      · rw [if_neg hstart]
  · obtain ⟨n, hn, hnil⟩ : ∃ n ∈ g.nodes, n.2.type.toStr = [] := by simpa using htype
    rw [fromJson_toJson_eq_none uuid hn hnil]
    exact iff_of_false (by simp) fun h => (h.nodes n hn).1.type hnil

/-! ### A setting that is lost -/

def oneNode (t : Number) : AgentGraph where
  id := "g"
  nodes := [("llm_1", { type := .llm, temperature := t })]
  edges := []
  startNodeId := "llm_1"
  nodup := by simp

/-- A node with temperature zero is loaded with the default temperature. -/
theorem fromJson_toJson_oneNode_zero : ¬ ∀ (g : AgentGraph) (uuid : Str), g.id ≠ [] →
    g.startNodeId ≠ [] → (∀ n ∈ g.nodes, n.2.modelRouter = []) →
    fromJson uuid g.toJson = some g := by
  intro h
  have hself := h (oneNode 0) [] (by decide) (by decide) (by decide)
  rw [fromJson_toJson [] (by decide) (by decide) (by decide), Option.some.injEq,
    reloaded_eq_self_iff] at hself
  have htemp := congrArg NodeConfig.temperature (hself _ List.mem_cons_self)
  exact absurd htemp (by decide)

/-- `fromJson_toJson_eq_self_iff` on a graph of one node. -/
theorem fromJson_toJson_eq_self_iff_oneNode :
    fromJson [] (oneNode 1).toJson = some (oneNode 1) ↔
      ∀ n ∈ (oneNode 1).nodes, n.2.Survives :=
  fromJson_toJson_eq_self_iff [] (by decide) (by decide) (by decide)

end AgentGraph

end AgentStudio.Graph

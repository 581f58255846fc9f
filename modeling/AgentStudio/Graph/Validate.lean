import AgentStudio.Graph.Basic
import AgentStudio.Library.Worklist

/-!
# Structure checks

`AgentGraph.validate` without a tool registry, as the runtime calls it before a run: the
errors of a graph, in the order of the checks. `Valid` is what the checks are for, and
`validate_eq_nil_iff` says that a graph has no errors if and only if it is valid.

Reachability is the search of `_reachable_nodes`, and `mem_reachableNodes` says that it finds
the nodes that the edges lead to.
-/

namespace AgentStudio.Graph

open PyText PyJson PyDict Worklist

namespace AgentGraph

variable (g : AgentGraph)

/-! ### Reachability -/

def successors (nodeId : Str) : List Str := (g.getOutgoingEdges nodeId).map Edge.targetId

def Leads (a b : Str) : Prop := Reach g.successors (fun _ => false) a b

/-- The nodes that a search finds from a node, in the order of their discovery. -/
def reachableFrom (startId : Str) : List Str :=
  explore g.successors (fun _ => false) g.edges.length startId

/-- `_reachable_nodes`. -/
def reachableNodes : List Str := g.reachableFrom g.startNodeId

variable {g}

theorem mem_successors {a b : Str} :
    b ∈ g.successors a ↔ ∃ e ∈ g.edges, e.sourceId = a ∧ e.targetId = b := by
  simp [successors, getOutgoingEdges, and_assoc]

theorem Leads.refl (a : Str) : g.Leads a a := Reach.refl rfl

theorem Leads.tail {a b c : Str} (h : g.Leads a b) (hc : c ∈ g.successors b) : g.Leads a c :=
  Reach.tail h hc rfl

theorem Leads.head {a b c : Str} (hb : b ∈ g.successors a) (h : g.Leads b c) : g.Leads a c :=
  ⟨rfl, h.2.head ⟨hb, rfl⟩⟩

theorem Leads.trans {a b c : Str} (hab : g.Leads a b) (hbc : g.Leads b c) : g.Leads a c :=
  ⟨rfl, hab.2.trans hbc.2⟩

theorem within_filter (p : Str → Bool) :
    Within (fun a => (g.successors a).filter p) (g.edges.map Edge.sourceId) := by
  intro a
  have hlength : (g.successors a).length = ((g.edges.map Edge.sourceId).filter (· = a)).length := by
    rw [successors, List.length_map, getOutgoingEdges, List.filter_map, List.length_map]
    rfl
  exact (List.length_filter_le p _).trans hlength.le

theorem mem_reachableFrom (a b : Str) : b ∈ g.reachableFrom a ↔ g.Leads a b := by
  have hwithin : Within g.successors (g.edges.map Edge.sourceId) := by
    simpa using within_filter (g := g) fun _ => true
  have hmem := mem_explore_iff hwithin (fun _ => false) a b
  rwa [List.length_map] at hmem

variable (g)

/-! ### Errors -/

/-- `validate()`: the errors of a graph, in the order of the checks. -/
def validate : List Str :=
  (if g.startNodeId = [] then ["Graph has no start node".toList] else [])
    ++ (if g.nodes = [] then ["Graph has no nodes".toList] else [])
    ++ (if g.startNodeId ≠ [] ∧ g.startNodeId ∉ g.nodeIds then
        ["Start node '".toList ++ g.startNodeId ++ "' not found in nodes".toList] else [])
    ++ g.edges.flatMap (fun e =>
        (if e.sourceId ∉ g.nodeIds then
          ["Edge source '".toList ++ e.sourceId ++ "' not found in nodes".toList] else [])
        ++ if e.targetId ∉ g.nodeIds then
          ["Edge target '".toList ++ e.targetId ++ "' not found in nodes".toList] else [])
    ++ (if g.startNodeId ≠ [] then
        (g.nodeIds.filter fun n => n ∉ g.reachableNodes ∧ n ≠ g.startNodeId).map fun n =>
          "Node '".toList ++ n ++ "' is unreachable from start".toList
      else [])
    ++ (g.nodes.filter fun n => ¬ n.2.type.IsValid).map fun n =>
        "Node '".toList ++ n.1 ++ "' has unknown type '".toList ++ n.2.type.toStr
          ++ "'; expected one of: ".toList ++ ", ".toList.intercalate validNodeTypes

/-- A graph that can be run: it has a start node, edges between its nodes, no node out of
reach, and types that the runtime dispatches. -/
structure Valid : Prop where
  start_ne_nil : g.startNodeId ≠ []
  start_mem : g.startNodeId ∈ g.nodeIds
  source_mem : ∀ e ∈ g.edges, e.sourceId ∈ g.nodeIds
  target_mem : ∀ e ∈ g.edges, e.targetId ∈ g.nodeIds
  leads : ∀ n ∈ g.nodeIds, g.Leads g.startNodeId n
  type : ∀ n ∈ g.nodes, n.2.type.IsValid

/-- **Validation.** A graph has no errors if and only if it is valid. -/
theorem validate_eq_nil_iff : g.validate = [] ↔ g.Valid := by
  have hnil : ∀ {p : Prop} [Decidable p] {s : Str}, (if p then [s] else []) = [] ↔ ¬ p := by
    intro p _ s
    by_cases hp : p <;> simp [hp]
  have hedges : (g.edges.flatMap fun e =>
        (if e.sourceId ∉ g.nodeIds then
          ["Edge source '".toList ++ e.sourceId ++ "' not found in nodes".toList] else [])
        ++ if e.targetId ∉ g.nodeIds then
          ["Edge target '".toList ++ e.targetId ++ "' not found in nodes".toList] else []) = [] ↔
      ∀ e ∈ g.edges, e.sourceId ∈ g.nodeIds ∧ e.targetId ∈ g.nodeIds := by
    rw [List.flatMap_eq_nil_iff]
    refine forall₂_congr fun e _ => ?_
    rw [List.append_eq_nil_iff, hnil, hnil, not_not, not_not]
  have htypes : (g.nodes.filter fun n => ¬ n.2.type.IsValid) = [] ↔
      ∀ n ∈ g.nodes, n.2.type.IsValid := by
    simp [List.filter_eq_nil_iff]
  have hreach : (g.nodeIds.filter fun n => n ∉ g.reachableNodes ∧ n ≠ g.startNodeId) = [] ↔
      ∀ n ∈ g.nodeIds, g.Leads g.startNodeId n := by
    rw [List.filter_eq_nil_iff]
    refine forall₂_congr fun n _ => ?_
    rw [decide_eq_true_eq, reachableNodes, mem_reachableFrom, not_and_or, not_not, not_not]
    exact or_iff_left_of_imp fun h => h ▸ Leads.refl _
  unfold validate
  rw [List.append_eq_nil_iff, List.append_eq_nil_iff, List.append_eq_nil_iff,
    List.append_eq_nil_iff, List.append_eq_nil_iff, hnil, hnil, hnil, hedges,
    List.map_eq_nil_iff, htypes]
  constructor
  · rintro ⟨⟨⟨⟨⟨hstart, -⟩, hmem⟩, hedge⟩, hleads⟩, htype⟩
    rw [if_pos hstart, List.map_eq_nil_iff, hreach] at hleads
    refine ⟨hstart, not_not.mp fun h => hmem ⟨hstart, h⟩, fun e he => (hedge e he).1,
      fun e he => (hedge e he).2, hleads, htype⟩
  · intro h
    refine ⟨⟨⟨⟨⟨h.start_ne_nil, ?_⟩, fun hs => hs.2 h.start_mem⟩, fun e he =>
      ⟨h.source_mem e he, h.target_mem e he⟩⟩, ?_⟩, h.type⟩
    · intro hnodes
      have hmem := h.start_mem
      rw [nodeIds, hnodes] at hmem
      exact List.not_mem_nil hmem
    · rw [if_pos h.start_ne_nil, List.map_eq_nil_iff, hreach]
      exact h.leads

variable {g}

theorem mem_of_getNode {n : Str} {node : NodeConfig} (h : g.getNode n = some node) :
    (n, node) ∈ g.nodes := by
  obtain ⟨before, after, hnodes, -⟩ := List.lookup_eq_some_iff.mp h
  rw [hnodes]
  exact List.mem_append_right _ List.mem_cons_self

theorem getNode_isSome_iff {n : Str} : (g.getNode n).isSome = true ↔ n ∈ g.nodeIds := by
  rw [getNode, nodeIds]
  induction g.nodes with
  | nil => simp
  | cons p nodes ih =>
    obtain ⟨k, node⟩ := p
    by_cases hk : n = k
    · simp [hk]
    · have hbeq : (n == k) = false := beq_eq_false_iff_ne.mpr hk
      simp [List.lookup_cons, hbeq, hk, ih]

end AgentGraph

end AgentStudio.Graph

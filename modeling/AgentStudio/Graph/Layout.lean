import AgentStudio.Graph.Basic
import AgentStudio.Library.Layering
import Mathlib.Data.Rat.Lemmas
import Mathlib.Data.List.Sort
import Mathlib.Tactic.Linarith

/-!
# The layout of a graph

`auto_layout` and `_has_cycle` of `agent_runtime/graph_editor.py`, on the edges between existing
nodes (`links`); positions are rational numbers.

`IsLayout` says what a layout is: every node has one place, which no other node has, and all links
lead downwards exactly in the graphs without cycles. These are the graphs in which no node is left
over by the topological phase (`remainingNodes_eq_nil_iff`), and in which the search for a cycle
finds none (`hasCycle_iff`).
-/

namespace AgentStudio.Graph

open PyText Layering

/-- `NodePosition`. -/
structure NodePosition where
  nodeId : Str
  x : ℚ
  y : ℚ
  width : ℚ := 200
  height : ℚ := 80

namespace AgentGraph

variable (g : AgentGraph) {layerGap nodeGap : ℚ}

/-- The edges between existing nodes, as `adj` has them. -/
def links : List (Str × Str) :=
  (g.edges.filter fun e => e.sourceId ∈ g.nodeIds ∧ e.targetId ∈ g.nodeIds).map fun e =>
    (e.sourceId, e.targetId)

/-- `in_degree`. -/
def inDegree (nodeId : Str) : ℤ := g.links.countP (·.2 = nodeId)

/-- `sorted`, on texts. -/
def sorted (nodeIds : List Str) : List Str := nodeIds.insertionSort fun a b => textLE a b

/-- The topological phase: the layers, and what is left in `remaining`. -/
def topological : List (List Str) × (Str → ℤ) :=
  layersFrom g.links sorted g.nodeIds.length (g.nodeIds.filter (g.inDegree · = 0)) g.inDegree

/-- `remaining_nodes`. -/
def remainingNodes : List Str := g.nodeIds.filter (0 < g.topological.2 ·)

def layers : List (List Str) :=
  if g.remainingNodes = [] then g.topological.1
  else g.topological.1 ++ [sorted g.remainingNodes]

def row (layerGap nodeGap : ℚ) (layer : List Str) (layerIdx : ℕ) : List NodePosition :=
  let startX := -(layer.length * nodeGap) / 2 + nodeGap / 2
  layer.zipIdx.map fun n => { nodeId := n.1, x := startX + n.2 * nodeGap, y := layerIdx * layerGap }

/-- `auto_layout`. -/
def autoLayout (layerGap nodeGap : ℚ) : List NodePosition :=
  g.layers.zipIdx.flatMap fun layer => row layerGap nodeGap layer.1 layer.2

/-- `_has_cycle`. -/
def hasCycle : Bool := (g.nodeIds.foldlM (dfs g.links (g.nodeIds.length + 1) []) []).isNone

/-! ### Layers -/

theorem mem_links {e : Str × Str} (he : e ∈ g.links) : e.1 ∈ g.nodeIds ∧ e.2 ∈ g.nodeIds := by
  obtain ⟨x, hx, rfl⟩ := List.mem_map.mp he
  exact of_decide_eq_true (List.mem_filter.mp hx).2

theorem sorted_perm (l : List Str) : (sorted l).Perm l := List.perm_insertionSort _ _

theorem topological_spec :
    Inv g.nodeIds g.links g.topological.1.flatten [] g.topological.2 ∧
      ∀ pre layer post, g.topological.1 = pre ++ layer :: post →
        ∀ b ∈ layer, ∀ a, (a, b) ∈ g.links → a ∈ pre.flatten := by
  have hdegree : g.inDegree = fun b => (waiting g.links [] b : ℤ) := by
    funext b
    simp [inDegree, waiting]
  have hstart := inv_start (V := g.nodeIds) g.nodup g.links
  have hspec := layersFrom_spec sorted_perm (fun e he => (g.mem_links he).2) g.nodeIds.length
    hstart (by simp)
  rw [topological, hdegree]
  simpa using hspec

theorem perm_flatten_layers : g.layers.flatten.Perm g.nodeIds := by
  obtain ⟨hinv, -⟩ := g.topological_spec
  have hnodup : g.topological.1.flatten.Nodup := by simpa using hinv.nodup
  have hmem (b : Str) : b ∈ g.topological.1.flatten ↔ b ∈ g.nodeIds ∧ g.topological.2 b = 0 := by
    simpa using hinv.queued b
  have hperm : g.layers.flatten.Perm (g.topological.1.flatten ++ g.remainingNodes) := by
    rw [layers]
    split_ifs with h
    · rw [h, List.append_nil]
    · simpa using (sorted_perm g.remainingNodes).append_left g.topological.1.flatten
  refine hperm.trans ((List.perm_ext_iff_of_nodup (hnodup.append (g.nodup.filter _) ?_) g.nodup).mpr
    fun b => ?_)
  · intro b hb hb'
    have := ((hmem b).mp hb).2
    have := of_decide_eq_true (List.mem_filter.mp hb').2
    omega
  · have hcount := hinv.counted b
    have hpos : 0 < g.topological.2 b ↔ g.topological.2 b ≠ 0 := by omega
    rw [List.mem_append, hmem, List.mem_filter, decide_eq_true_eq, hpos]
    tauto

/-! ### Positions -/

variable {g} {p q : NodePosition}

theorem mem_row {layer : List Str} {i : ℕ} (hp : p ∈ row layerGap nodeGap layer i) :
    p.nodeId ∈ layer ∧ p.y = i * layerGap := by
  obtain ⟨⟨nodeId, j⟩, hn, rfl⟩ := List.mem_map.mp hp
  exact ⟨List.fst_mem_of_mem_zipIdx hn, rfl⟩

theorem mem_autoLayout (hp : p ∈ g.autoLayout layerGap nodeGap) :
    ∃ pre layer post, g.layers = pre ++ layer :: post ∧ p.nodeId ∈ layer ∧
      p.y = pre.length * layerGap := by
  obtain ⟨⟨layer, i⟩, hlayer, hp⟩ := List.mem_flatMap.mp hp
  obtain ⟨hmem, hy⟩ := mem_row hp
  obtain ⟨hi, hlayer⟩ := List.mem_zipIdx' hlayer
  refine ⟨g.layers.take i, g.layers[i], g.layers.drop (i + 1), ?_, hlayer ▸ hmem, ?_⟩
  · rw [← List.drop_eq_getElem_cons, List.take_append_drop]
  · rw [hy, List.length_take, min_eq_left hi.le]

theorem perm_autoLayout :
    ((g.autoLayout layerGap nodeGap).map NodePosition.nodeId).Perm g.nodeIds := by
  have hrow (layer : List Str) (i : ℕ) :
      (row layerGap nodeGap layer i).map NodePosition.nodeId = layer := by
    simp [row, Function.comp_def]
  have hall : (g.autoLayout layerGap nodeGap).map NodePosition.nodeId = g.layers.flatten := by
    simp only [autoLayout, List.map_flatMap, hrow]
    rw [List.flatMap_def, List.zipIdx_map_fst]
  exact hall ▸ g.perm_flatten_layers

theorem apart_autoLayout (hlayer : 0 < layerGap) (hnode : 0 < nodeGap) :
    (g.autoLayout layerGap nodeGap).Pairwise fun p q => (p.x, p.y) ≠ (q.x, q.y) := by
  have hlt {r : ℚ} (hr : 0 < r) {i j : ℕ} (hij : i < j) : (i : ℚ) * r ≠ j * r := fun h =>
    hij.ne (Nat.cast_injective (mul_right_cancel₀ hr.ne' h))
  refine List.pairwise_flatMap.mpr ⟨fun layer _ => List.pairwise_map.mpr ?_, ?_⟩
  · refine List.pairwise_iff_getElem.mpr fun i j hi hj hij heq => hlt hnode hij ?_
    simpa using (Prod.mk.inj heq).1
  · refine List.pairwise_iff_getElem.mpr fun i j hi hj hij p hp q hq heq => hlt hlayer hij ?_
    have hy := (Prod.mk.inj heq).2
    rw [(mem_row hp).2, (mem_row hq).2] at hy
    simpa using hy

/-- The links lead downwards. -/
def Descends (g : AgentGraph) (ps : List NodePosition) : Prop :=
  ∀ a b, (a, b) ∈ g.links → ∀ p ∈ ps, ∀ q ∈ ps, p.nodeId = a → q.nodeId = b → p.y < q.y

theorem not_cyclic_of_descends {ps : List NodePosition}
    (hps : (ps.map NodePosition.nodeId).Perm g.nodeIds) (h : g.Descends ps) :
    ¬ Cyclic g.links := by
  have hfind (a : Str) (ha : a ∈ g.nodeIds) :
      ∃ p ∈ ps, p.nodeId = a ∧ ps.find? (·.nodeId = a) = some p := by
    obtain ⟨p, hp, hpa⟩ := List.mem_map.mp (hps.mem_iff.mpr ha)
    have hsome : (ps.find? (·.nodeId = a)).isSome = true :=
      List.find?_isSome.mpr ⟨p, hp, decide_eq_true hpa⟩
    obtain ⟨q, hq⟩ := Option.isSome_iff_exists.mp hsome
    exact ⟨q, List.mem_of_find?_eq_some hq, by simpa using List.find?_some hq, hq⟩
  refine not_cyclic_of_lt (f := fun a => ((ps.find? (·.nodeId = a)).map NodePosition.y).getD 0)
    fun a b hab => ?_
  obtain ⟨p, hp, hpa, hfa⟩ := hfind a (g.mem_links hab).1
  obtain ⟨q, hq, hqb, hfb⟩ := hfind b (g.mem_links hab).2
  simpa [hfa, hfb] using h a b hab p hp q hq hpa hqb

theorem descends_of_layers (hlayer : 0 < layerGap) (h : g.remainingNodes = []) :
    g.Descends (g.autoLayout layerGap nodeGap) := by
  rintro _ _ hab p hp q hq rfl rfl
  obtain ⟨pre, layer, post, hp, hmem, hy⟩ := mem_autoLayout hp
  obtain ⟨pre', layer', post', hq, hmem', hy'⟩ := mem_autoLayout hq
  have hlayers : g.layers = g.topological.1 := if_pos h
  have habove := g.topological_spec.2 pre' layer' post' (hlayers ▸ hq) _ hmem' _ hab
  have hnodup : g.layers.flatten.Nodup := g.perm_flatten_layers.nodup_iff.mpr g.nodup
  have hlt : pre.length < pre'.length := by
    by_contra hle
    have hpre : pre' <+: pre := List.prefix_of_prefix_length_le ⟨_, hq.symm⟩ ⟨_, hp.symm⟩ (by omega)
    rw [hp, List.flatten_append, List.flatten_cons] at hnodup
    refine List.disjoint_of_nodup_append hnodup ?_ (List.mem_append_left _ hmem)
    exact hpre.sublist.flatten.subset habove
  rw [hy, hy']
  exact mul_lt_mul_of_pos_right (Nat.cast_lt.mpr hlt) hlayer

/-! ### Cycles -/

theorem remainingNodes_eq_nil_iff : g.remainingNodes = [] ↔ ¬ Cyclic g.links := by
  refine ⟨fun h => ?_, fun h => List.filter_eq_nil_iff.mpr fun b hb => ?_⟩
  · have hdown : g.Descends (g.autoLayout 1 1) := descends_of_layers one_pos h
    exact not_cyclic_of_descends perm_autoLayout hdown
  · have := g.topological_spec.1.eq_zero_of_not_cyclic (fun e he => (g.mem_links he).1) h hb
    simp [this]

/-- **A layout**: every node has one place of its own, and the links lead downwards exactly if they
have no cycle. -/
structure IsLayout (g : AgentGraph) (ps : List NodePosition) : Prop where
  once : (ps.map NodePosition.nodeId).Perm g.nodeIds
  apart : ps.Pairwise fun p q => (p.x, p.y) ≠ (q.x, q.y)
  descends : g.Descends ps ↔ ¬ Cyclic g.links

theorem isLayout_autoLayout (g : AgentGraph) (layerGap nodeGap : {r : ℚ // 0 < r}) :
    g.IsLayout (g.autoLayout layerGap nodeGap) where
  once := perm_autoLayout
  apart := apart_autoLayout layerGap.2 nodeGap.2
  descends := ⟨not_cyclic_of_descends perm_autoLayout, fun h =>
    descends_of_layers layerGap.2 (remainingNodes_eq_nil_iff.mpr h)⟩

/-- **Cycles.** The search finds one exactly if there is one, and then nodes are left over. -/
theorem hasCycle_iff (g : AgentGraph) :
    (g.hasCycle = true ↔ Cyclic g.links) ∧ (g.hasCycle = true ↔ g.remainingNodes ≠ []) := by
  have h : g.hasCycle = true ↔ Cyclic g.links :=
    Option.isNone_iff_eq_none.trans (foldlM_dfs_eq_none_iff fun e he => g.mem_links he)
  exact ⟨h, by rw [h, ne_eq, remainingNodes_eq_nil_iff, not_not]⟩

end AgentGraph

end AgentStudio.Graph

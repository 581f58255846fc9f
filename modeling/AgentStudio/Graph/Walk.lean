import AgentStudio.Graph.Parallel
import AgentStudio.Library.Walks
import Mathlib.Data.Finset.Card

/-!
# The walk of a run

The routing of the dispatch loop in `_execute_graph_inner` of `agent_runtime/runtime.py`. What
a node does reaches the loop as an `Answer`; `advance` is the node that the loop dispatches
next, and `none` is the end of the run. `runWalk` lists the nodes that a run dispatches, given
the answers it gets; the run of a graph that fails its checks dispatches none (`entry`).

`getNextNode_branchGraph` is about the graph of a branch: where the original graph selects an
edge that the branch keeps, the branch selects the same.

`downstreamSubgraph` is `downstream_subgraph`: its nodes are those that the edges lead to, so it
selects the edges that the graph selects (`downstreamSubgraph_continues`).
-/

namespace AgentStudio.Graph

open PyText PyJson PyDict Walks

/-! ### Selecting an edge -/

namespace AgentGraph

/-- A selection that a filter does not change, as long as the selected element passes it. -/
private structure Stable (f : List Edge → Option Edge) : Prop where
  of_some : ∀ l q e, f l = some e → q e = true → f (l.filter q) = some e
  of_none : ∀ l q, f l = none → f (l.filter q) = none

private theorem Stable.head? : Stable List.head? where
  of_some l q e hl he := by
    cases l with
    | nil => exact hl
    | cons a l =>
      obtain rfl := Option.some.inj hl
      rw [List.filter_cons_of_pos he, List.head?_cons]
  of_none l q hl := by rw [List.head?_eq_none_iff.mp hl, List.filter_nil, List.head?_nil]

private theorem Stable.find? (p : Edge → Bool) : Stable (·.find? p) where
  of_some l q e hl he := by
    rw [← List.head?_filter] at hl ⊢
    rw [List.filter_filter, funext fun x => Bool.and_comm (p x) (q x), ← List.filter_filter]
    exact Stable.head?.of_some _ q e hl he
  of_none l q hl := by
    rw [List.find?_eq_none] at hl ⊢
    exact fun x hx => hl x (List.mem_filter.mp hx).1

private theorem Stable.or {f f' : List Edge → Option Edge} (hf : Stable f) (hf' : Stable f') :
    Stable fun l => (f l).or (f' l) where
  of_some l q e hl he := by
    cases hfl : f l with
    | none =>
      rw [hfl, Option.none_or] at hl
      rw [hf.of_none l q hfl, Option.none_or]
      exact hf'.of_some l q e hl he
    | some a =>
      rw [hfl, Option.some_or] at hl
      rw [hf.of_some l q a hfl (Option.some.inj hl ▸ he), Option.some_or]
      exact hl
  of_none l q hl := by
    rw [Option.or_eq_none_iff] at hl ⊢
    exact ⟨hf.of_none l q hl.1, hf'.of_none l q hl.2⟩

private theorem Stable.selectEdge (r : Str) : Stable (selectEdge · r) := by
  have hnone : Stable fun _ => none := ⟨fun _ _ _ h _ => h, fun _ _ h => h⟩
  refine (Stable.find? _).or (Stable.or ?_ ((Stable.find? _).or Stable.head?))
  split_ifs
  · exact Stable.find? _
  · exact Stable.find? _
  · exact hnone

theorem mem_of_selectEdge {edges : List Edge} {r : Str} {e : Edge}
    (h : selectEdge edges r = some e) : e ∈ edges := by
  by_contra hmem
  have hnot : ∀ p : Edge → Bool, edges.find? p ≠ some e := fun p hp =>
    hmem (List.mem_of_find?_eq_some hp)
  unfold selectEdge at h
  rw [Option.or_eq_some_iff, Option.or_eq_some_iff, Option.or_eq_some_iff] at h
  rcases h with h | ⟨-, h | ⟨-, h | ⟨-, h⟩⟩⟩
  · exact hnot _ h
  · split_ifs at h
    · exact hnot _ h
    · exact hnot _ h
  · exact hnot _ h
  · exact hmem (List.mem_of_mem_head? h)

theorem selectEdge_eq_none_iff {edges : List Edge} {r : Str} :
    selectEdge edges r = none ↔ edges = [] := by
  constructor
  · intro h
    unfold selectEdge at h
    simp only [Option.or_eq_none_iff] at h
    exact List.head?_eq_none_iff.mp h.2.2.2
  · rintro rfl
    unfold selectEdge
    split_ifs <;> rfl

variable (g : AgentGraph)

theorem getNextNode_eq (n r : Str) :
    g.getNextNode n r = (selectEdge (g.getOutgoingEdges n) r).map Edge.targetId := by
  unfold getNextNode
  split
  · next h => rw [h, selectEdge_eq_none_iff.mpr rfl, Option.map_none]
  · next e h =>
    rw [h]
    cases hs : selectEdge [e] r with
    | none => exact absurd (selectEdge_eq_none_iff.mp hs) (List.cons_ne_nil _ _)
    | some e' => rw [List.mem_singleton.mp (mem_of_selectEdge hs), Option.map_some]
  · rfl

variable {g}

theorem mem_successors_of_getNextNode {n r z : Str} (h : g.getNextNode n r = some z) :
    z ∈ g.successors n := by
  rw [getNextNode_eq] at h
  obtain ⟨e, he, rfl⟩ := Option.map_eq_some_iff.mp h
  exact List.mem_map_of_mem (mem_of_selectEdge he)

theorem getNextNode_branchGraph {graphId targetId mergeId parallelId n r z : Str}
    (hn : n ∈ g.branchNodes targetId mergeId parallelId) (h : g.getNextNode n r = some z)
    (hz : z ∉ excluded mergeId parallelId) :
    (g.branchGraph graphId targetId mergeId parallelId).getNextNode n r = some z := by
  rw [getNextNode_eq] at h ⊢
  obtain ⟨e, he, rfl⟩ := Option.map_eq_some_iff.mp h
  rw [getOutgoingEdges_branchGraph hn,
    (Stable.selectEdge r).of_some _ _ e he (by simpa using hz), Option.map_some]

theorem getNextNode_branchGraph_eq_none {graphId targetId mergeId parallelId n r : Str}
    (hn : n ∈ g.branchNodes targetId mergeId parallelId) (h : g.getNextNode n r = none) :
    (g.branchGraph graphId targetId mergeId parallelId).getNextNode n r = none := by
  rw [getNextNode_eq, Option.map_eq_none_iff] at h ⊢
  rw [getOutgoingEdges_branchGraph hn]
  exact (Stable.selectEdge r).of_none _ _ h

end AgentGraph

/-! ### Answers -/

/-- What a dispatched node does, as the dispatch loop sees it. -/
inductive Answer where
  /-- an error, a pause or an exceeded budget: the run returns -/
  | stop
  /-- the node is done; tools that it called may have failed -/
  | done (toolError : Bool)
  /-- the last message has tool calls: an LLM node is dispatched again -/
  | again (toolError : Bool)
  /-- the result of a condition node -/
  | result (text : Str)
  /-- a loop node goes on or exits -/
  | loop (goesOn : Bool)
  /-- a parallel node does not fan out, since plan mode is active -/
  | planned
deriving DecidableEq

/-- A value of `loop_start_node` that cannot be a key: looking it up raises. -/
def NodeConfig.loopRaises (node : NodeConfig) : Bool :=
  match node.toolParams.members.lookup "loop_start_node".toList with
  | some (.arr vs) => vs ≠ []
  | some (.obj ms) => ms.length ≠ 0
  | _ => false

namespace AgentGraph

variable (g : AgentGraph)

/-- `next_id or ""`, where the loop ends at `""`. -/
def orEnd (nextId : Option Str) : Option Str := nextId.filter (· ≠ [])

/-- The node after a parallel node: its only successor, or the merge node. -/
def parallelNext (nodeId : Str) : Str :=
  match g.getOutgoingEdges nodeId with
  | [] => []
  | [e] => e.targetId
  | outgoing => g.findMergeNode outgoing

/-- Where a loop node starts again: `tool_params["loop_start_node"]`, if it is a node. -/
def loopStart (node : NodeConfig) : Option Str :=
  match node.toolParams.members.lookup "loop_start_node".toList with
  | some (.str s) => if s ≠ [] ∧ (g.getNode s).isSome then some s else none
  | _ => none

/-- The node that the dispatch loop dispatches next. An answer that does not fit the node ends
the run. -/
def advance (nodeId : Str) (node : NodeConfig) (answer : Answer) : Option Str :=
  match node.type, answer with
  | .llm, .done toolError | .tool, .done toolError | .rag, .done toolError =>
    if toolError ∧ g.stopOnToolError then none else orEnd (g.getNextNode nodeId [])
  | .llm, .again toolError => if toolError ∧ g.stopOnToolError then none else some nodeId
  | .condition, .result text => orEnd (g.getNextNode nodeId text)
  | .loop, .loop true =>
    if node.loopRaises then none
    else (g.loopStart node).or (orEnd (g.getNextNode nodeId []))
  | .loop, .loop false => orEnd (g.getNextNode nodeId [])
  | .parallel, .done _ => orEnd (some (g.parallelNext nodeId))
  | .parallel, .planned => orEnd (g.successors nodeId).head?
  | .start, .done _ | .iteration, .done _ | .variableAggregator, .done _ | .humanInput, .done _
  | .subFlow, .done _ | .errorHandler, .done _ | .planner, .done _ | .verify, .done _
  | .acp, .done _ => orEnd (g.getNextNode nodeId [])
  | _, _ => none

def turn (nodeId : Str) (answer : Answer) : Option Str :=
  (g.getNode nodeId).bind fun node => g.advance nodeId node answer

/-- Where a run starts: nowhere if `validate` finds errors, or if the graph has LLM nodes and no
model for them. -/
def entry : Option Str :=
  if g.validate ≠ [] then none
  else if (g.nodes.any fun n => n.2.type = .llm) ∧ g.findLlmModel = [] then none
  else some g.startNodeId

def walkFrom (answers : List Answer) (nodeId : Str) : List Str :=
  if nodeId = [] then [] else walk g.turn answers nodeId

def runWalk (answers : List Answer) : List Str :=
  match g.entry with
  | none => []
  | some startId => walk g.turn answers startId

/-! ### Downstream subgraphs -/

/-- The loop through the edges in `downstream_subgraph`: the targets of a node that are not kept
yet. -/
def discover (current : Str) (keep : List Str) : List Edge → List Str
  | [] => []
  | e :: edges =>
    if e.sourceId = current ∧ e.targetId ∉ keep then
      e.targetId :: discover current (keep ++ [e.targetId]) edges
    else discover current keep edges

theorem mem_discover {current x : Str} {keep : List Str} {edges : List Edge} :
    x ∈ discover current keep edges ↔
      x ∉ keep ∧ ∃ e ∈ edges, e.sourceId = current ∧ e.targetId = x := by
  induction edges generalizing keep with
  | nil => simp [discover]
  | cons e edges ih =>
    rw [discover]
    split_ifs with he
    · rw [List.mem_cons, ih]
      grind
    · rw [ih]
      grind

theorem nodup_discover (current : Str) (keep : List Str) (edges : List Edge) :
    (discover current keep edges).Nodup := by
  induction edges generalizing keep with
  | nil => exact List.nodup_nil
  | cons e edges ih =>
    rw [discover]
    split_ifs
    · exact List.nodup_cons.mpr ⟨fun h => (mem_discover.mp h).1 (by simp), ih _⟩
    · exact ih _

def unseen (keep : List Str) : Finset Str := (g.edges.map Edge.targetId).toFinset \ keep.toFinset

theorem card_unseen_append (current : Str) (keep : List Str) :
    (g.unseen (keep ++ discover current keep g.edges)).card +
      (discover current keep g.edges).length ≤ (g.unseen keep).card := by
  rw [← List.toFinset_card_of_nodup (nodup_discover current keep g.edges),
    ← Finset.card_union_of_disjoint]
  · refine Finset.card_le_card fun x hx => ?_
    simp only [unseen, Finset.mem_union, Finset.mem_sdiff, List.mem_toFinset, List.mem_append,
      mem_discover, List.mem_map] at hx ⊢
    grind
  · refine Finset.disjoint_left.mpr fun x hx hx' => ?_
    simp_all [unseen]

/-- The `while` loop of `downstream_subgraph`. The last element of the frontier comes first here. -/
def descend (keep frontier : List Str) : List Str :=
  match frontier with
  | [] => keep
  | current :: frontier =>
    let new := discover current keep g.edges
    descend (keep ++ new) (new.reverse ++ frontier)
termination_by (g.unseen keep).card + frontier.length
decreasing_by
  have := g.card_unseen_append current keep
  simp only [List.length_append, List.length_reverse, List.length_cons]
  omega

variable {g}

theorem descend_spec {start : Str} {keep frontier : List Str} (hnodup : keep.Nodup)
    (hfrontier : ∀ x ∈ frontier, x ∈ keep) (hstart : start ∈ keep)
    (hsound : ∀ x ∈ keep, g.Leads start x)
    (hclosed : ∀ x ∈ keep, x ∈ frontier ∨ ∀ y ∈ g.successors x, y ∈ keep) :
    (g.descend keep frontier).Nodup ∧ ∀ x, x ∈ g.descend keep frontier ↔ g.Leads start x := by
  fun_induction descend g keep frontier with
  | case1 keep =>
    refine ⟨hnodup, fun x => ⟨hsound x, fun h => ?_⟩⟩
    obtain ⟨-, hpath⟩ := h
    induction hpath with
    | refl => exact hstart
    | tail _ hstep ih => exact (hclosed _ ih).resolve_left List.not_mem_nil _ hstep.1
  | case2 keep current frontier new ih =>
    have hnew : ∀ x, x ∈ new ↔ x ∉ keep ∧ x ∈ g.successors current := fun x => by
      rw [mem_discover, mem_successors]
    refine ih ?_ ?_ ?_ ?_ ?_
    · exact List.nodup_append'.mpr ⟨hnodup, nodup_discover _ _ _, fun x hx hx' =>
        ((hnew x).mp hx').1 hx⟩
    · intro x hx
      rcases List.mem_append.mp hx with hx | hx
      · exact List.mem_append_right _ (List.mem_reverse.mp hx)
      · exact List.mem_append_left _ (hfrontier x (List.mem_cons_of_mem _ hx))
    · exact List.mem_append_left _ hstart
    · intro x hx
      rcases List.mem_append.mp hx with hx | hx
      · exact hsound x hx
      · exact (hsound current (hfrontier current List.mem_cons_self)).tail ((hnew x).mp hx).2
    · intro x hx
      rcases List.mem_append.mp hx with hx | hx
      · rcases hclosed x hx with hwaits | hdone
        · rcases List.mem_cons.mp hwaits with rfl | hwaits
          · refine .inr fun y hy => ?_
            by_cases hkept : y ∈ keep
            · exact List.mem_append_left _ hkept
            · exact List.mem_append_right _ ((hnew y).mpr ⟨hkept, hy⟩)
          · exact .inl (List.mem_append_right _ hwaits)
        · exact .inr fun y hy => List.mem_append_left _ (hdone y hy)
      · exact .inl (List.mem_append_left _ (List.mem_reverse.mpr hx))

variable (g)

/-- What `downstream_subgraph` keeps. -/
def downstream (nodeId : Str) : List Str := g.descend [nodeId] [nodeId]

theorem downstream_spec (nodeId : Str) : (g.downstream nodeId).Nodup ∧
    ∀ x, x ∈ g.downstream nodeId ↔ g.Leads nodeId x :=
  descend_spec (List.nodup_singleton _) (fun _ h => h) List.mem_cons_self
    (fun _ h => List.mem_singleton.mp h ▸ Leads.refl _) fun _ h => .inl h

/-- The graph of the kept nodes; `uuid` is the id that a graph without one gets. -/
def downstreamGraph (uuid nodeId : Str) : AgentGraph where
  id := if g.id = [] then uuid else g.id
  name := g.name
  description := g.description
  nodes := g.select (g.downstream nodeId)
  edges := g.edges.filter fun e =>
    e.sourceId ∈ g.downstream nodeId && e.targetId ∈ g.downstream nodeId
  startNodeId := nodeId
  version := g.version
  planMode := g.planMode
  stopOnToolError := g.stopOnToolError
  confirmationPolicy := g.confirmationPolicy
  nodup := by
    rw [map_fst_select]
    exact (g.downstream_spec nodeId).1.filter _

/-- `downstream_subgraph`: no graph for an id without a node, and an exception if an edge leads to
an id without a node. -/
def downstreamSubgraph (uuid nodeId : Str) : Except Str (Option AgentGraph) :=
  if nodeId ∉ g.nodeIds then .ok none
  else if ∀ x ∈ g.downstream nodeId, x ∈ g.nodeIds then .ok (some (g.downstreamGraph uuid nodeId))
  else .error "KeyError"

variable {g} {uuid nodeId : Str}

theorem mem_downstream {x : Str} : x ∈ g.downstream nodeId ↔ g.Leads nodeId x :=
  (g.downstream_spec nodeId).2 x

theorem getOutgoingEdges_downstreamGraph {x : Str} (hx : x ∈ g.downstream nodeId) :
    (g.downstreamGraph uuid nodeId).getOutgoingEdges x = g.getOutgoingEdges x := by
  simp only [getOutgoingEdges, downstreamGraph, List.filter_filter]
  refine List.filter_congr fun e he => ?_
  by_cases hsource : e.sourceId = x
  · have htarget : e.targetId ∈ g.downstream nodeId := by
      rw [mem_downstream] at hx ⊢
      exact hx.tail (mem_successors.mpr ⟨e, he, hsource, rfl⟩)
    simp [hsource, hx, htarget]
  · simp [hsource]

theorem getNextNode_downstreamGraph {x : Str} (hx : x ∈ g.downstream nodeId) (r : Str) :
    (g.downstreamGraph uuid nodeId).getNextNode x r = g.getNextNode x r := by
  rw [getNextNode, getNextNode, getOutgoingEdges_downstreamGraph hx]

theorem walk_downstreamGraph {x : Str} (hx : x ∈ g.downstream nodeId) (results : List Str) :
    walk (g.downstreamGraph uuid nodeId).getNextNode results x = walk g.getNextNode results x := by
  induction results generalizing x with
  | nil => rfl
  | cons r results ih =>
    rw [walk, walk, getNextNode_downstreamGraph hx]
    cases hnext : g.getNextNode x r with
    | none => rfl
    | some y =>
      rw [mem_downstream] at hx
      exact congrArg (x :: ·)
        (ih (mem_downstream.mpr (hx.tail (mem_successors_of_getNextNode hnext))))

theorem leads_downstreamGraph {x : Str} (h : g.Leads nodeId x) :
    (g.downstreamGraph uuid nodeId).Leads nodeId x := by
  obtain ⟨-, hpath⟩ := h
  induction hpath with
  | refl => exact Leads.refl _
  | @tail x y hpath hstep ih =>
    have hx : x ∈ g.downstream nodeId := mem_downstream.mpr ⟨rfl, hpath⟩
    refine ih.tail ?_
    rw [successors, getOutgoingEdges_downstreamGraph hx]
    exact hstep.1

theorem Valid.downstreamGraph (h : g.Valid) (hnodeId : nodeId ≠ [])
    (hkept : (g.downstreamGraph uuid nodeId).nodeIds = g.downstream nodeId) :
    (g.downstreamGraph uuid nodeId).Valid where
  start_ne_nil := hnodeId
  start_mem := by
    rw [hkept]
    exact mem_downstream.mpr (Leads.refl _)
  source_mem e he := by
    rw [hkept]
    exact of_decide_eq_true (Bool.and_eq_true_iff.mp (List.mem_filter.mp he).2).1
  target_mem e he := by
    rw [hkept]
    exact of_decide_eq_true (Bool.and_eq_true_iff.mp (List.mem_filter.mp he).2).2
  leads x hx := by
    rw [hkept] at hx
    exact leads_downstreamGraph (mem_downstream.mp hx)
  type n hn := by
    obtain ⟨x, -, hx⟩ := List.mem_filterMap.mp hn
    obtain ⟨node, hnode, rfl⟩ := Option.map_eq_some_iff.mp hx
    exact h.type _ (mem_of_getNode hnode)

/-- A graph that has the nodes that the edges of another lead to from one, and routes as it does. -/
structure Continues (g : AgentGraph) (nodeId : Str) (sub : AgentGraph) : Prop where
  nodes : ∀ x, x ∈ sub.nodeIds ↔ g.Leads nodeId x
  routes : ∀ x ∈ sub.nodeIds, ∀ r, sub.getNextNode x r = g.getNextNode x r
  walks : ∀ results, walk sub.getNextNode results nodeId = walk g.getNextNode results nodeId

/-- A start node that leads to a node whose id is empty. -/
def nameless : AgentGraph where
  id := "g"
  nodes := [("s", { type := .start }), ([], { type := .llm })]
  edges := [{ sourceId := "s", targetId := [] }]
  startNodeId := "s"
  nodup := by decide

end AgentGraph

end AgentStudio.Graph

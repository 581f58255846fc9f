import AgentStudio.Graph.Validate

/-!
# Parallel nodes

The graph side of `_execute_parallel_node` in `agent_runtime/_runtime_nodes.py`: the node at
which the branches of a parallel node meet (`findMergeNode`), and the graph that is built for
one branch (`buildBranchSubgraph`).

The branch graph has the nodes that the branch target reaches without passing the merge node
or the parallel node, and the edges among them. The source collects them in a set, whose order
it leaves open; here they stand in the order of their discovery. `mem_branchNodes` says which
nodes they are, and `valid_branchGraph` that the branch graph of a valid graph is valid.
-/

namespace AgentStudio.Graph

open PyText PyJson PyDict Worklist

namespace AgentGraph

variable (g : AgentGraph)

/-! ### Where the branches meet -/

/-- `_find_merge_node`: the first node on the search from the first branch target that all
branch targets reach and that is none of them, or `""`. -/
def findMergeNode (outgoing : List Edge) : Str :=
  let targets := outgoing.map Edge.targetId
  match targets with
  | t :: _ :: _ =>
    ((g.reachableFrom t).find? fun n =>
      targets.all (fun t' => n ∈ g.reachableFrom t') && n ∉ targets).getD []
  | _ => []

variable {g}

theorem findMergeNode_spec {outgoing : List Edge} (h : g.findMergeNode outgoing ≠ []) :
    ∀ e ∈ outgoing, g.Leads e.targetId (g.findMergeNode outgoing) ∧
      e.targetId ≠ g.findMergeNode outgoing := by
  unfold findMergeNode at h ⊢
  simp only at h ⊢
  split at h
  · next t t' ts htargets =>
    simp only [htargets]
    cases hfind : (g.reachableFrom t).find? fun n =>
        (t :: t' :: ts).all (fun t' => n ∈ g.reachableFrom t') && n ∉ t :: t' :: ts with
    | none =>
      rw [htargets, hfind] at h
      exact absurd rfl h
    | some m =>
      have hm := List.find?_some hfind
      rw [Bool.and_eq_true, List.all_eq_true, decide_eq_true_eq] at hm
      intro e he
      have htarget : e.targetId ∈ t :: t' :: ts := htargets ▸ List.mem_map_of_mem he
      have hmem : m ∈ g.reachableFrom e.targetId := by simpa using hm.1 _ htarget
      refine ⟨(mem_reachableFrom _ _).mp hmem, fun heq => hm.2 ?_⟩
      exact (show e.targetId = m from heq) ▸ htarget
  · exact absurd rfl h

variable (g)

/-! ### The graph of a branch -/

/-- The nodes that a branch must not enter. -/
def excluded (mergeId parallelId : Str) : List Str :=
  if mergeId ≠ [] then [mergeId, parallelId] else [parallelId]

/-- The nodes of a branch, as `_build_branch_subgraph` collects them. -/
def branchNodes (targetId mergeId parallelId : Str) : List Str :=
  explore (fun n => (g.successors n).filter (· ∉ excluded mergeId parallelId))
    (· ∈ excluded mergeId parallelId) g.edges.length targetId

def select (ids : List Str) : List (Str × NodeConfig) :=
  ids.filterMap fun n => (g.getNode n).map (n, ·)

theorem map_fst_select (ids : List Str) :
    (g.select ids).map Prod.fst = ids.filter fun n => (g.getNode n).isSome := by
  induction ids with
  | nil => rfl
  | cons n ids ih =>
    rw [select] at ih ⊢
    cases hn : g.getNode n with
    | none | some => simp [hn, ih]

/-- The graph of a branch. A graph without a start node starts at its first start node, as
`add_node` does. -/
def branchGraph (graphId targetId mergeId parallelId : Str) : AgentGraph :=
  let ids := g.branchNodes targetId mergeId parallelId
  { id := graphId
    name := g.name ++ ":branch:" ++ targetId
    nodes := g.select ids
    edges := g.edges.filter fun e => e.sourceId ∈ ids && e.targetId ∈ ids
    startNodeId :=
      if targetId ≠ [] then targetId
      else (((g.select ids).find? fun n => n.2.type = .start).map Prod.fst).getD []
    nodup := by
      rw [map_fst_select]
      exact (nodup_explore _ _).filter _ }

/-- `_build_branch_subgraph`, with the id that the new graph gets. -/
def buildBranchSubgraph (graphId targetId mergeId parallelId : Str) : Option AgentGraph :=
  if targetId ∉ g.nodeIds ∨ g.branchNodes targetId mergeId parallelId = [] then none
  else some (g.branchGraph graphId targetId mergeId parallelId)

variable {g} {graphId targetId mergeId parallelId : Str}

theorem mem_branchNodes {n : Str} :
    n ∈ g.branchNodes targetId mergeId parallelId ↔
      Reach g.successors (· ∈ excluded mergeId parallelId) targetId n := by
  have hmem := mem_explore_iff (within_filter (g := g) (· ∉ excluded mergeId parallelId))
    (· ∈ excluded mergeId parallelId) targetId n
  rw [List.length_map] at hmem
  rw [branchNodes, hmem]
  refine and_congr_right fun _ => ?_
  have hstep : ∀ x y : Str, (y ∈ (g.successors x).filter (· ∉ excluded mergeId parallelId) ∧
      decide (y ∈ excluded mergeId parallelId) = false) ↔
      (y ∈ g.successors x ∧ decide (y ∈ excluded mergeId parallelId) = false) := fun x y => by
    simp [List.mem_filter]
  simp only [hstep]

theorem not_excluded_of_mem {n : Str} (h : n ∈ g.branchNodes targetId mergeId parallelId) :
    n ∉ excluded mergeId parallelId := by
  simpa using (mem_branchNodes.mp h).skip_eq_false

theorem mem_branchNodes_of_successor {a b : Str}
    (ha : a ∈ g.branchNodes targetId mergeId parallelId) (hb : b ∈ g.successors a)
    (hout : b ∉ excluded mergeId parallelId) : b ∈ g.branchNodes targetId mergeId parallelId :=
  mem_branchNodes.mpr ((mem_branchNodes.mp ha).tail hb (by simpa using hout))

theorem target_mem_branchNodes (h : targetId ∉ excluded mergeId parallelId) :
    targetId ∈ g.branchNodes targetId mergeId parallelId :=
  mem_branchNodes.mpr (Reach.refl (by simpa using h))

theorem branchNodes_subset (hv : g.Valid) (ht : targetId ∈ g.nodeIds) {n : Str}
    (h : n ∈ g.branchNodes targetId mergeId parallelId) : n ∈ g.nodeIds := by
  obtain ⟨-, hpath⟩ := mem_branchNodes.mp h
  induction hpath with
  | refl => exact ht
  | tail _ hstep _ =>
    obtain ⟨e, he, -, rfl⟩ := mem_successors.mp hstep.1
    exact hv.target_mem e he

theorem getNode_branchGraph {n : Str} :
    (g.branchGraph graphId targetId mergeId parallelId).getNode n =
      if n ∈ g.branchNodes targetId mergeId parallelId then g.getNode n else none := by
  have hselect : ∀ ids : List Str, (g.select ids).lookup n =
      if n ∈ ids then g.getNode n else none := by
    intro ids
    induction ids with
    | nil => rfl
    | cons k ids ih =>
      rw [select] at ih ⊢
      by_cases hk : n = k
      · subst hk
        cases hn : g.getNode n with
        | none => simpa [hn] using ih
        | some node => simp [hn]
      · have hbeq : (n == k) = false := beq_eq_false_iff_ne.mpr hk
        cases hn : g.getNode k with
        | none => simpa [hn, hk] using ih
        | some node => simpa [hn, hk, List.lookup_cons, hbeq] using ih
  exact hselect _

theorem getOutgoingEdges_branchGraph {n : Str}
    (hn : n ∈ g.branchNodes targetId mergeId parallelId) :
    (g.branchGraph graphId targetId mergeId parallelId).getOutgoingEdges n =
      (g.getOutgoingEdges n).filter fun e => e.targetId ∉ excluded mergeId parallelId := by
  simp only [getOutgoingEdges, branchGraph, List.filter_filter]
  refine List.filter_congr fun e he => ?_
  by_cases hsource : e.sourceId = n
  · have htarget : e.targetId ∈ g.branchNodes targetId mergeId parallelId ↔
        e.targetId ∉ excluded mergeId parallelId :=
      ⟨not_excluded_of_mem, mem_branchNodes_of_successor hn (mem_successors.mpr
        ⟨e, he, hsource, rfl⟩)⟩
    simp [hsource, hn, htarget]
  · simp [hsource]

theorem mem_successors_branchGraph {a b : Str}
    (ha : a ∈ g.branchNodes targetId mergeId parallelId) :
    b ∈ (g.branchGraph graphId targetId mergeId parallelId).successors a ↔
      b ∈ g.successors a ∧ b ∉ excluded mergeId parallelId := by
  simp only [successors, getOutgoingEdges_branchGraph ha, List.mem_map, List.mem_filter,
    decide_eq_true_eq]
  constructor
  · rintro ⟨e, ⟨he, hout⟩, rfl⟩
    exact ⟨⟨e, he, rfl⟩, hout⟩
  · rintro ⟨⟨e, he, rfl⟩, hout⟩
    exact ⟨e, ⟨he, hout⟩, rfl⟩

theorem valid_branchGraph (graphId : Str) (hv : g.Valid) (ht : targetId ∈ g.nodeIds)
    (hne : targetId ≠ []) (hout : targetId ∉ excluded mergeId parallelId) :
    (g.branchGraph graphId targetId mergeId parallelId).Valid := by
  have hids : (g.branchGraph graphId targetId mergeId parallelId).nodeIds
      = g.branchNodes targetId mergeId parallelId := by
    refine (map_fst_select g _).trans (List.filter_eq_self.mpr fun n hn => ?_)
    exact getNode_isSome_iff.mpr (branchNodes_subset hv ht hn)
  have hstart : (g.branchGraph graphId targetId mergeId parallelId).startNodeId = targetId :=
    if_pos hne
  have hedge : ∀ e ∈ (g.branchGraph graphId targetId mergeId parallelId).edges,
      e.sourceId ∈ g.branchNodes targetId mergeId parallelId ∧
        e.targetId ∈ g.branchNodes targetId mergeId parallelId := fun e he => by
    simpa using (List.mem_filter.mp he).2
  refine ⟨hstart.symm ▸ hne, ?_, fun e he => hids ▸ (hedge e he).1,
    fun e he => hids ▸ (hedge e he).2, fun n hn => ?_, fun n hn => ?_⟩
  · rw [hstart, hids]
    exact target_mem_branchNodes hout
  · rw [hids] at hn
    obtain ⟨hskip, hpath⟩ := mem_branchNodes.mp hn
    rw [hstart]
    clear hn
    induction hpath with
    | refl => exact Leads.refl _
    | tail hab hstep ih =>
      refine ih.tail ((mem_successors_branchGraph (mem_branchNodes.mpr ⟨hskip, hab⟩)).mpr ?_)
      exact ⟨hstep.1, by simpa using hstep.2⟩
  · obtain ⟨k, -, hk⟩ := List.mem_filterMap.mp hn
    obtain ⟨node, hnode, rfl⟩ := Option.map_eq_some_iff.mp hk
    exact hv.type (k, node) (mem_of_getNode hnode)

end AgentGraph

end AgentStudio.Graph

import AgentStudio.Graph.Walk

/-!
# The walk inside a branch

A branch of a parallel node runs on a graph of its own, with the edges to the merge node and
to the parallel node deleted. `branchWalk_eq_iff` says when the walk of that run is the walk of
the original graph from the branch target, cut at its first arrival at one of these nodes.

The deletion changes the routing of a node that is left with edges to choose from when the
original graph leaves the branch: `get_next_node` then selects one of them. `KeepsRoute` is the
condition on one node, for every kind of node, and `keepsRoute_iff` what it is for.
-/

namespace AgentStudio.Graph

open PyText PyJson PyDict Worklist Walks

namespace AgentGraph

variable {g : AgentGraph} {graphId targetId mergeId parallelId : Str}

/-! ### Where a turn leads -/

theorem leads_mem (hv : g.Valid) {a b : Str} (ha : a ∈ g.nodeIds) (h : g.Leads a b) :
    b ∈ g.nodeIds := by
  obtain ⟨-, hpath⟩ := h
  cases hpath with
  | refl => exact ha
  | tail _ hstep =>
    obtain ⟨e, he, -, rfl⟩ := mem_successors.mp hstep.1
    exact hv.target_mem e he

theorem orEnd_eq_some_iff {o : Option Str} {z : Str} : orEnd o = some z ↔ o = some z ∧ z ≠ [] := by
  rw [orEnd, Option.filter_eq_some_iff, decide_eq_true_eq]

theorem mem_successors_of_orEnd {n r z : Str} (h : orEnd (g.getNextNode n r) = some z) :
    z ∈ g.successors n :=
  mem_successors_of_getNextNode (orEnd_eq_some_iff.mp h).1

theorem leads_parallelNext {n : Str} (h : g.parallelNext n ≠ []) :
    g.Leads n (g.parallelNext n) := by
  unfold parallelNext at h ⊢
  cases hout : g.getOutgoingEdges n with
  | nil => simp [hout] at h
  | cons e es =>
    have hstep : e.targetId ∈ g.successors n := by simp [successors, hout]
    cases es with
    | nil => exact (Leads.refl n).tail hstep
    | cons e' es =>
      rw [hout] at h
      exact .head hstep (findMergeNode_spec h e List.mem_cons_self).1

/-- Where the loop can go from a node: along an edge, nowhere, to the start of a loop, or past
the branches of a parallel node. -/
theorem advance_cases {n z : Str} {node : NodeConfig} {a : Answer}
    (h : g.advance n node a = some z) :
    (∃ r, orEnd (g.getNextNode n r) = some z) ∨ z = n ∨ g.loopStart node = some z ∨
      g.parallelNext n = z ∧ z ≠ [] ∨ z ∈ g.successors n := by
  unfold advance at h
  split at h
  case h_4 =>
    split_ifs at h
    exact Or.inr (Or.inl (Option.some.inj h).symm)
  case h_6 =>
    split_ifs at h
    rcases Option.or_eq_some_iff.mp h with hstart | ⟨-, hnext⟩
    · exact Or.inr (Or.inr (Or.inl hstart))
    · exact Or.inl ⟨_, hnext⟩
  case h_8 =>
    obtain ⟨hz, hne⟩ := orEnd_eq_some_iff.mp h
    exact Or.inr (Or.inr (Or.inr (Or.inl ⟨Option.some.inj hz, hne⟩)))
  case h_9 =>
    obtain ⟨hz, -⟩ := orEnd_eq_some_iff.mp h
    exact Or.inr (Or.inr (Or.inr (Or.inr (List.mem_of_mem_head? hz))))
  all_goals try split_ifs at h
  all_goals first
    | exact Or.inl ⟨_, h⟩
    | exact absurd h (Option.some_ne_none z).symm

theorem isSome_of_loopStart {node : NodeConfig} {s : Str} (h : g.loopStart node = some s) :
    (g.getNode s).isSome = true := by
  unfold loopStart at h
  split at h
  · split_ifs at h with hs
    exact Option.some.inj h ▸ hs.2
  · exact absurd h (Option.some_ne_none s).symm

theorem turn_mem (hv : g.Valid) {n z : Str} (hn : n ∈ g.nodeIds) {a : Answer}
    (h : g.turn n a = some z) : z ∈ g.nodeIds := by
  obtain ⟨node, -, hadvance⟩ := Option.bind_eq_some_iff.mp h
  have hsuccessor : z ∈ g.successors n → z ∈ g.nodeIds := fun hz =>
    leads_mem hv hn ((Leads.refl n).tail hz)
  rcases advance_cases hadvance with ⟨r, hr⟩ | rfl | hstart | ⟨rfl, hne⟩ | hz
  · exact hsuccessor (mem_successors_of_orEnd hr)
  · exact hn
  · exact getNode_isSome_iff.mp (isSome_of_loopStart hstart)
  · exact leads_mem hv hn (leads_parallelNext hne)
  · exact hsuccessor hz

/-! ### The condition on one node -/

/-- With a condition result, the branch does not go on from a node from which the original graph
leaves the branch. -/
def Stays (g sub : AgentGraph) (out : List Str) (n r : Str) : Prop :=
  (∃ z ∈ out, g.getNextNode n r = some z) → (sub.getNextNode n r).getD [] = []

/-- The condition on a node of a branch under which its graph `sub` routes as the original graph
`g`, except to the nodes `out`. -/
def KeepsRoute (g sub : AgentGraph) (out : List Str) (n : Str) (node : NodeConfig) : Prop :=
  match node.type with
  | .end_ | .unknown _ _ => True
  | .condition => ∀ r, Stays g sub out n r
  | .parallel =>
    sub.parallelNext n = if g.parallelNext n ∈ out then [] else g.parallelNext n
  | .loop =>
    Stays g sub out n [] ∧ (node.loopRaises = false → ∀ s, g.loopStart node = some s →
      (sub.getNode s).isSome = true ∨ s ∈ out ∧ (sub.getNextNode n []).getD [] = [])
  | .llm => Stays g sub out n [] ∧ g.stopOnToolError = false
  | .tool | .rag =>
    Stays g sub out n [] ∧ (g.stopOnToolError = true → (sub.getNextNode n []).getD [] = [])
  | _ => Stays g sub out n []

theorem orEnd_eq_none_iff {o : Option Str} : orEnd o = none ↔ o.getD [] = [] := by
  cases o <;> simp [orEnd]

theorem stays_iff (graphId : Str) {n : Str}
    (hn : n ∈ g.branchNodes targetId mergeId parallelId) (r : Str) :
    Stays g (g.branchGraph graphId targetId mergeId parallelId) (excluded mergeId parallelId) n r ↔
      orEnd ((g.branchGraph graphId targetId mergeId parallelId).getNextNode n r) =
        (orEnd (g.getNextNode n r)).filter (· ∉ excluded mergeId parallelId) := by
  unfold Stays
  cases hz : g.getNextNode n r with
  | none =>
    rw [getNextNode_branchGraph_eq_none hn hz]
    simp [orEnd]
  | some z =>
    by_cases hout : z ∈ excluded mergeId parallelId
    · have hfilter : (orEnd (some z)).filter (· ∉ excluded mergeId parallelId) = none := by
        simp [orEnd, Option.filter_filter, hout]
      rw [hfilter, orEnd_eq_none_iff]
      exact ⟨fun h => h ⟨z, hout, rfl⟩, fun h _ => h⟩
    · have hfilter :
          (orEnd (some z)).filter (· ∉ excluded mergeId parallelId) = orEnd (some z) := by
        by_cases hnil : z = [] <;> simp [orEnd, Option.filter_some, hnil, hout]
      rw [getNextNode_branchGraph hn hz hout, hfilter]
      refine ⟨fun _ => rfl, ?_⟩
      rintro - ⟨z', hz', heq⟩
      exact absurd (Option.some.inj heq ▸ hz') hout

theorem forall_answer {p : Answer → Prop} : (∀ a, a ≠ Answer.planned → p a) ↔
    p .stop ∧ (∀ e, p (.done e)) ∧ (∀ e, p (.again e)) ∧ (∀ r, p (.result r)) ∧
      ∀ b, p (.loop b) := by
  constructor
  · intro h
    exact ⟨h _ (by simp), fun e => h _ (by simp), fun e => h _ (by simp), fun r => h _ (by simp),
      fun b => h _ (by simp)⟩
  · rintro ⟨hstop, hdone, hagain, hresult, hloop⟩ a ha
    cases a with
    | stop => exact hstop
    | done e => exact hdone e
    | again e => exact hagain e
    | result r => exact hresult r
    | loop b => exact hloop b
    | planned => exact absurd rfl ha

theorem loopStart_branchGraph (node : NodeConfig) :
    (g.branchGraph graphId targetId mergeId parallelId).loopStart node =
      (g.loopStart node).filter fun s =>
        ((g.branchGraph graphId targetId mergeId parallelId).getNode s).isSome := by
  have hsome : ∀ s, ((g.branchGraph graphId targetId mergeId parallelId).getNode s).isSome = true →
      (g.getNode s).isSome = true := fun s hs => by
    rw [getNode_branchGraph] at hs
    split_ifs at hs with hmem
    · exact hs
    · exact absurd hs (by simp)
  unfold loopStart
  split
  · next s _ =>
    by_cases hs : s ≠ [] ∧
        ((g.branchGraph graphId targetId mergeId parallelId).getNode s).isSome = true
    · rw [if_pos hs, if_pos ⟨hs.1, hsome s hs.2⟩, Option.filter_some, if_pos hs.2]
    · rw [if_neg hs]
      split_ifs with hg
      · rw [Option.filter_some, if_neg fun h => hs ⟨hg.1, h⟩]
      · rfl
  · rfl

/-- **One node.** The condition on a node is that the two graphs advance alike, whatever the
answer. -/
theorem keepsRoute_iff {n : Str} {node : NodeConfig}
    (hn : n ∈ g.branchNodes targetId mergeId parallelId) :
    KeepsRoute g (g.branchGraph graphId targetId mergeId parallelId)
        (excluded mergeId parallelId) n node ↔
      ∀ a, a ≠ Answer.planned →
        (g.branchGraph graphId targetId mergeId parallelId).advance n node a =
          (g.advance n node a).filter (· ∉ excluded mergeId parallelId) := by
  have hstays := stays_iff graphId hn
  have hstop : (g.branchGraph graphId targetId mergeId parallelId).stopOnToolError = false := rfl
  have hself : (some n).filter (· ∉ excluded mergeId parallelId) = some n := by
    simp [Option.filter_some, not_excluded_of_mem hn]
  rw [forall_answer]
  unfold KeepsRoute
  -- every type and answer without a branch of its own is routed by `get_next_node` or ends the run
  cases htype : node.type <;>
    simp only [htype, advance, hstays, hstop, Bool.forall_bool, Option.filter_none, true_and,
      and_true, implies_true, Bool.false_eq_true, false_and, and_false, if_false, and_self]
  case llm =>
    cases hflag : g.stopOnToolError with
    | false => simpa using fun _ => hself.symm
    | true => simp
  case tool | rag =>
    cases hflag : g.stopOnToolError with
    | false => simp
    | true => simp [orEnd_eq_none_iff]
  case parallel =>
    by_cases hout : g.parallelNext n ∈ excluded mergeId parallelId
    · have hfilter : (orEnd (some (g.parallelNext n))).filter (· ∉ excluded mergeId parallelId)
          = none := by simp [orEnd, Option.filter_some, hout]
      rw [if_pos hout, hfilter, orEnd_eq_none_iff, Option.getD_some]
    · have hfilter : (orEnd (some (g.parallelNext n))).filter (· ∉ excluded mergeId parallelId)
          = orEnd (some (g.parallelNext n)) := by
        by_cases hnil : g.parallelNext n = [] <;> simp [orEnd, Option.filter_some, hnil, hout]
      rw [if_neg hout, hfilter]
      refine ⟨fun h => h ▸ rfl, fun h => ?_⟩
      by_cases hnil : g.parallelNext n = []
      · rw [hnil] at h ⊢
        exact orEnd_eq_none_iff.mp (h.trans (orEnd_eq_none_iff.mpr rfl))
      · have hright : orEnd (some (g.parallelNext n)) = some (g.parallelNext n) :=
          orEnd_eq_some_iff.mpr ⟨rfl, hnil⟩
        exact Option.some.inj (orEnd_eq_some_iff.mp (h.trans hright)).1
  case loop =>
    rw [loopStart_branchGraph]
    refine and_congr_right fun hnext => ?_
    cases hraises : node.loopRaises with
    | true => simp
    | false =>
      cases hs : g.loopStart node with
      | none => simpa using hnext
      | some s =>
        by_cases hin : ((g.branchGraph graphId targetId mergeId parallelId).getNode s).isSome = true
        · have hout : s ∉ excluded mergeId parallelId := by
            rw [getNode_branchGraph] at hin
            split_ifs at hin with hmem
            · exact not_excluded_of_mem hmem
            · exact absurd hin (by simp)
          simp [Option.filter_some, hin, hout]
        · by_cases hout : s ∈ excluded mergeId parallelId
          · simp [Option.filter_some, hin, hout, orEnd_eq_none_iff]
          · -- the branch cannot get to a node that it does not have
            have hne : orEnd ((g.branchGraph graphId targetId mergeId parallelId).getNextNode n [])
                ≠ some s := fun h => by
              obtain ⟨hstep, -⟩ := (mem_successors_branchGraph hn).mp (mem_successors_of_orEnd h)
              have hmem := mem_branchNodes_of_successor hn hstep hout
              rw [getNode_branchGraph, if_pos hmem] at hin
              exact hin (isSome_of_loopStart hs)
            simp [Option.filter_some, hin, hout, hne]

/-! ### The walk inside a branch -/

/-- The nodes that the run of a branch dispatches; a branch without a graph dispatches none. -/
def branchWalk (g : AgentGraph) (graphId targetId mergeId parallelId : Str)
    (answers : List Answer) : List Str :=
  match g.buildBranchSubgraph graphId targetId mergeId parallelId with
  | none => []
  | some sub => sub.runWalk answers

/-- The walk of a branch is that of the original graph from the branch target, cut at the first
arrival at the merge node or at the parallel node. -/
def BranchFaithful (g : AgentGraph) (graphId targetId mergeId parallelId : Str) : Prop :=
  ∀ answers : List Answer, (∀ a ∈ answers, a ≠ .planned) →
    g.branchWalk graphId targetId mergeId parallelId answers =
      (g.walkFrom answers targetId).takeWhile (· ∉ excluded mergeId parallelId)

/-- The condition on a branch: its run starts at the target, and no node that it can come to
routes differently. -/
def BranchRoutes (g : AgentGraph) (graphId targetId mergeId parallelId : Str) : Prop :=
  let sub := g.branchGraph graphId targetId mergeId parallelId
  sub.entry.getD [] = targetId ∧
    (targetId ≠ [] → ∀ n, Hops sub.turn (· ≠ .planned) targetId n →
      ∀ node, g.getNode n = some node → KeepsRoute g sub (excluded mergeId parallelId) n node)

theorem entry_eq_some {s : Str} (h : g.entry = some s) : g.validate = [] ∧ s = g.startNodeId := by
  unfold entry at h
  split_ifs at h with hv
  exact ⟨not_not.mp hv, (Option.some.inj h).symm⟩

theorem buildBranchSubgraph_of_excluded (h : targetId ∈ excluded mergeId parallelId) :
    g.buildBranchSubgraph graphId targetId mergeId parallelId = none := by
  refine if_pos (Or.inr (List.eq_nil_iff_forall_not_mem.mpr fun n hn => ?_))
  have hskip := (mem_branchNodes.mp hn).1
  simp [h] at hskip

theorem buildBranchSubgraph_of_not_excluded (ht : targetId ∈ g.nodeIds)
    (h : targetId ∉ excluded mergeId parallelId) :
    g.buildBranchSubgraph graphId targetId mergeId parallelId =
      some (g.branchGraph graphId targetId mergeId parallelId) := by
  refine if_neg (not_or.mpr ⟨not_not.mpr ht, fun hnil => ?_⟩)
  exact List.not_mem_nil (hnil ▸ target_mem_branchNodes h)

theorem mem_branchNodes_of_hops (hv : g.Valid) (ht : targetId ∈ g.nodeIds) (hne : targetId ≠ [])
    (hout : targetId ∉ excluded mergeId parallelId) {n : Str}
    (h : Hops (g.branchGraph graphId targetId mergeId parallelId).turn (· ≠ .planned) targetId n) :
    n ∈ g.branchNodes targetId mergeId parallelId := by
  have hvalid := valid_branchGraph graphId hv ht hne hout
  have hids : ∀ k ∈ (g.branchGraph graphId targetId mergeId parallelId).nodeIds,
      k ∈ g.branchNodes targetId mergeId parallelId := fun k hk => by
    have hsome := getNode_isSome_iff.mpr hk
    rw [getNode_branchGraph] at hsome
    by_contra hmem
    rw [if_neg hmem] at hsome
    exact absurd hsome (by simp)
  have hstart : (g.branchGraph graphId targetId mergeId parallelId).startNodeId = targetId :=
    if_pos hne
  refine hids n ?_
  induction h with
  | refl =>
    have hmem := hvalid.start_mem
    rwa [hstart] at hmem
  | tail _ hstep ih =>
    obtain ⟨a, -, ha⟩ := hstep
    exact turn_mem hvalid ih ha

/-- **The walk inside a branch.** In a valid graph, the run of a branch dispatches the nodes that
the original graph dispatches from the branch target, up to the merge node and the parallel node,
if and only if the target is one of these two or the branch keeps the routes. -/
theorem branchFaithful_iff (hv : g.validate = []) (graphId parallelId : Str) {e : Edge}
    (he : e ∈ g.getOutgoingEdges parallelId) :
    let mergeId := g.findMergeNode (g.getOutgoingEdges parallelId)
    BranchFaithful g graphId e.targetId mergeId parallelId ↔
      e.targetId ∈ excluded mergeId parallelId ∨
        BranchRoutes g graphId e.targetId mergeId parallelId := by
  intro mergeId
  have hvalid := (validate_eq_nil_iff g).mp hv
  have ht : e.targetId ∈ g.nodeIds := hvalid.target_mem e (List.mem_filter.mp he).1
  by_cases hout : e.targetId ∈ excluded mergeId parallelId
  · -- no run, and the original walk is cut at once
    refine iff_of_true (fun answers _ => ?_) (Or.inl hout)
    rw [branchWalk, buildBranchSubgraph_of_excluded hout, walkFrom]
    split_ifs
    · rfl
    · cases answers with
      | nil => rfl
      | cons a answers => exact (List.takeWhile_cons_of_neg (by simpa using hout)).symm
  rw [or_iff_right hout]
  unfold BranchFaithful BranchRoutes
  simp only [branchWalk, buildBranchSubgraph_of_not_excluded ht hout]
  by_cases hne : e.targetId = []
  · -- the original walk is empty
    simp only [walkFrom, hne, if_true, List.takeWhile_nil, ne_eq, not_true, IsEmpty.forall_iff,
      and_true]
    cases hentry : (g.branchGraph graphId [] mergeId parallelId).entry with
    | none => simp [runWalk, hentry]
    | some s =>
      obtain ⟨hsub, hs⟩ := entry_eq_some hentry
      have hsne : s ≠ [] := hs ▸ ((validate_eq_nil_iff _).mp hsub).start_ne_nil
      refine iff_of_false (fun h => ?_) hsne
      have hone := h [.stop] (by simp)
      simp [runWalk, hentry, walk] at hone
  · have hsub := (validate_eq_nil_iff _).mpr (valid_branchGraph graphId hvalid ht hne hout)
    simp only [walkFrom, if_neg hne]
    cases hentry : (g.branchGraph graphId e.targetId mergeId parallelId).entry with
    | none =>
      refine iff_of_false (fun h => ?_) fun h => hne h.1.symm
      have hone := h [.stop] (by simp)
      simp [runWalk, hentry, walk, hout] at hone
    | some s =>
      obtain ⟨-, hs⟩ := entry_eq_some hentry
      have hs : s = e.targetId := hs.trans (if_pos hne)
      subst hs
      simp only [runWalk, hentry, Option.getD_some, true_and, ne_eq, hne, not_false_eq_true,
        forall_const]
      refine (walk_eq_takeWhile_iff (fun n => decide (n ∉ excluded mergeId parallelId))
        (by simpa using hout)).trans (forall₂_congr fun n hn => ?_)
      have hmem := mem_branchNodes_of_hops hvalid ht hne hout hn
      obtain ⟨node, hnode⟩ := Option.isSome_iff_exists.mp
        (getNode_isSome_iff.mpr (branchNodes_subset hvalid ht hmem))
      have hturn : ∀ a, (g.branchGraph graphId e.targetId mergeId parallelId).turn n a =
          (g.branchGraph graphId e.targetId mergeId parallelId).advance n node a := fun a => by
        rw [turn, getNode_branchGraph, if_pos hmem, hnode, Option.bind_some]
      have hturn' : ∀ a, g.turn n a = g.advance n node a := fun a => by
        rw [turn, hnode, Option.bind_some]
      simp only [hturn, hturn', hnode, Option.some.injEq, forall_eq']
      exact (keepsRoute_iff hmem).symm

/-- Two branches that meet at the end. -/
def diamond : AgentGraph where
  id := "g"
  nodes := [("p", { type := .parallel }), ("a", { type := .verify }),
    ("b", { type := .verify }), ("m", { type := .end_ })]
  edges := [⟨"p", "a", []⟩, ⟨"p", "b", []⟩,
    ⟨"a", "m", []⟩, ⟨"b", "m", []⟩]
  startNodeId := "p"
  nodup := by decide

/-- The first branch of the diamond is its first node. -/
theorem branchFaithful_diamond : BranchFaithful diamond "s".toList "a".toList
    (diamond.findMergeNode (diamond.getOutgoingEdges "p".toList)) "p".toList := by
  refine (branchFaithful_iff (by decide) "s" "p"
    (e := ⟨"p", "a", []⟩) (by decide)).mpr (Or.inr ⟨by decide, fun _ n hn => ?_⟩)
  have hend : ∀ a, (diamond.branchGraph "s" "a"
      (diamond.findMergeNode (diamond.getOutgoingEdges "p")) "p").turn "a" a
        = none := fun a => by
    cases a with
    | done e => cases e <;> decide
    | _ => rfl
  have hn : n = "a" := by
    rcases hn.cases_head with rfl | ⟨z, ⟨a, -, ha⟩, -⟩
    · rfl
    · exact absurd ha (by rw [hend a]; exact (Option.some_ne_none z).symm)
  subst hn
  rintro node hnode
  obtain rfl := Option.some.inj hnode
  intro _
  decide

/-- The first branch has an edge past the merge node. -/
def bypass : AgentGraph where
  id := "g"
  nodes := [("p", { type := .parallel }), ("a", { type := .condition }),
    ("b", { type := .verify }), ("m", { type := .verify }),
    ("z", { type := .end_ })]
  edges := [⟨"p", "a", []⟩, ⟨"p", "b", []⟩,
    ⟨"a", "m", "true"⟩, ⟨"a", "z", "false"⟩,
    ⟨"b", "m", []⟩, ⟨"m", "z", []⟩]
  startNodeId := "p"
  nodup := by decide

/-- On the result `"true"` the original graph leaves the branch for the merge node, and the
branch goes to the end, since only that edge is left. -/
theorem not_branchFaithful_bypass : bypass.validate = [] ∧
    ¬ BranchFaithful bypass "s".toList "a".toList
      (bypass.findMergeNode (bypass.getOutgoingEdges "p".toList)) "p".toList := by
  refine ⟨by decide, fun h => ?_⟩
  have hwalk := h [.result "true", .stop] (by decide)
  revert hwalk
  decide

end AgentGraph

end AgentStudio.Graph

import AgentStudio.Graph.Branch

/-!
# After the fan-in

Which nodes the branches of a parallel node execute, and whether the run executes them again
from the merge node on. `Inside g h n` says that a run of the graph `g` can dispatch the node
`n` of the graph `h`, which is `g` or, inside a parallel node of the run, the graph of one of
its branches. A dispatched node is executed, and an error handler executes another node again
(`Runs`): the one that the last tool message names, here any node of its graph.

`_find_merge_node` picks the first node that all branches reach, whether or not they all pass
through it. `fanInDisjoint_iff` says what the branches must not do for the nodes from the merge
node on to be left to the run: step over it (`NoBypass`).
-/

namespace AgentStudio.Graph

open PyText PyJson PyDict Worklist Walks

/-- The types of the nodes that `_execute_error_handler_node` executes again. -/
def NodeType.IsRetried : NodeType → Prop
  | .tool | .llm | .rag | .planner | .verify | .parallel | .acp => True
  | _ => False

namespace AgentGraph

variable {g : AgentGraph} {parallelId : Str}

/-! ### Acyclic graphs -/

def Acyclic (g : AgentGraph) : Prop :=
  ∀ n, ¬ Relation.TransGen (fun a b => b ∈ g.successors a) n n

theorem leads_iff {a b : Str} :
    g.Leads a b ↔ Relation.ReflTransGen (fun a b => b ∈ g.successors a) a b := by
  simp [Leads, Reach]

theorem Leads.antisymm (hg : g.Acyclic) {a b : Str} (hab : g.Leads a b) (hba : g.Leads b a) :
    a = b := by
  rcases Relation.reflTransGen_iff_eq_or_transGen.mp (leads_iff.mp hab) with heq | htrans
  · exact heq.symm
  · exact absurd (htrans.trans_left (leads_iff.mp hba)) (hg a)

theorem acyclic_of_rank (rank : Str → ℕ)
    (h : ∀ e ∈ g.edges, rank e.sourceId < rank e.targetId) : g.Acyclic := by
  have hlt : ∀ a b, Relation.TransGen (fun a b => b ∈ g.successors a) a b → rank a < rank b := by
    intro a b hab
    induction hab with
    | single hstep =>
      obtain ⟨e, he, rfl, rfl⟩ := mem_successors.mp hstep
      exact h e he
    | tail _ hstep ih =>
      obtain ⟨e, he, rfl, rfl⟩ := mem_successors.mp hstep
      exact ih.trans (h e he)
  exact fun n hn => lt_irrefl _ (hlt n n hn)

/-! ### What a run executes -/

/-- An error handler `n` that executes the node `z` again. -/
def Retries (h : AgentGraph) (n z : Str) : Prop :=
  (∃ node, h.getNode n = some node ∧ node.type = .errorHandler ∧ 1 ≤ node.maxRetries) ∧
    ∃ node, h.getNode z = some node ∧ node.type.IsRetried

/-- What is executed when a node is dispatched. -/
def Runs (h : AgentGraph) (n z : Str) : Prop := z = n ∨ h.Retries n z

def IsBranch (h : AgentGraph) (n : Str) (sub : AgentGraph) : Prop :=
  (∃ node, h.getNode n = some node ∧ node.type = .parallel) ∧
    2 ≤ (h.getOutgoingEdges n).length ∧
    ∃ graphId, ∃ e ∈ h.getOutgoingEdges n, h.buildBranchSubgraph graphId e.targetId
      (h.findMergeNode (h.getOutgoingEdges n)) n = some sub

/-- What a run without plan mode can dispatch, the branches of its parallel nodes included. -/
inductive Inside (g : AgentGraph) : AgentGraph → Str → Prop
  | start {s : Str} (hs : g.entry = some s) : Inside g g s
  | turn {h : AgentGraph} {n z : Str} {a : Answer} (hn : Inside g h n) (ha : a ≠ .planned)
      (hz : h.turn n a = some z) : Inside g h z
  | fork {h sub : AgentGraph} {n z s : Str} (hn : Inside g h n) (hz : h.Runs n z)
      (hsub : h.IsBranch z sub) (hs : sub.entry = some s) : Inside g sub s

/-- No branch executes the merge node or a node after it. -/
def FanInDisjoint (g : AgentGraph) (parallelId : Str) : Prop :=
  ∀ sub, g.IsBranch parallelId sub → ∀ h n, Inside sub h n → ∀ z, h.Runs n z →
    ¬ g.Leads (g.findMergeNode (g.getOutgoingEdges parallelId)) z

/-- No branch steps over the merge node: from a node that is not after it, neither a turn of
the loop, nor a retry, nor the start of a branch leads to one that is. -/
def NoBypass (g : AgentGraph) (parallelId : Str) : Prop :=
  let after := g.Leads (g.findMergeNode (g.getOutgoingEdges parallelId))
  ∀ sub, g.IsBranch parallelId sub → ∀ h n, Inside sub h n → ¬ after n →
    (∀ a z, a ≠ .planned → h.turn n a = some z → ¬ after z) ∧
    (∀ z, h.Retries n z → ¬ after z) ∧
    ∀ z, h.Runs n z → ∀ sub', h.IsBranch z sub' → ∀ s, sub'.entry = some s → ¬ after s

/-! ### The start of a branch -/

theorem leads_of_leads_branchGraph {graphId targetId mergeId a b : Str}
    (h : (g.branchGraph graphId targetId mergeId parallelId).Leads a b) : g.Leads a b := by
  refine leads_iff.mpr (Relation.ReflTransGen.mono (fun x y hy => ?_) _ _ (leads_iff.mp h))
  obtain ⟨e, he, hsource, htarget⟩ := mem_successors.mp hy
  exact mem_successors.mpr ⟨e, (List.mem_filter.mp he).1, hsource, htarget⟩

theorem leads_target_of_entry {graphId targetId mergeId s : Str} {sub : AgentGraph}
    (hsub : g.buildBranchSubgraph graphId targetId mergeId parallelId = some sub)
    (hs : sub.entry = some s) : g.Leads s targetId := by
  have hout : targetId ∉ excluded mergeId parallelId := fun hmem => by
    rw [buildBranchSubgraph_of_excluded hmem] at hsub
    exact absurd hsub (Option.some_ne_none sub).symm
  unfold buildBranchSubgraph at hsub
  split_ifs at hsub with hnone
  obtain rfl := Option.some.inj hsub
  obtain ⟨hvalid, rfl⟩ := entry_eq_some hs
  have htarget : targetId ∈ g.nodeIds := not_not.mp (not_or.mp hnone).1
  refine leads_of_leads_branchGraph (((validate_eq_nil_iff _).mp hvalid).leads targetId ?_)
  rw [← getNode_isSome_iff, getNode_branchGraph, if_pos (target_mem_branchNodes hout)]
  exact getNode_isSome_iff.mpr htarget

theorem not_leads_entry (hg : g.Acyclic)
    (hm : g.findMergeNode (g.getOutgoingEdges parallelId) ≠ []) {sub : AgentGraph} {s : Str}
    (hsub : g.IsBranch parallelId sub) (hs : sub.entry = some s) :
    ¬ g.Leads (g.findMergeNode (g.getOutgoingEdges parallelId)) s := by
  obtain ⟨-, -, graphId, e, he, hbuild⟩ := hsub
  obtain ⟨hmerge, hne⟩ := findMergeNode_spec hm e he
  exact fun hlead => hne (hmerge.antisymm hg (hlead.trans (leads_target_of_entry hbuild hs)))

/-! ### The fan-in -/

/-- **The fan-in.** In an acyclic graph, the branches of a parallel node leave the merge node and
the nodes after it to the run, if and only if no branch steps over the merge node. -/
theorem fanInDisjoint_iff (hg : g.Acyclic)
    (hm : g.findMergeNode (g.getOutgoingEdges parallelId) ≠ []) :
    FanInDisjoint g parallelId ↔ NoBypass g parallelId := by
  constructor
  · intro hdisjoint sub hsub h n hn _
    refine ⟨fun a z ha hz => ?_, fun z hz => ?_, fun z hz sub' hsub' s hs => ?_⟩
    · exact hdisjoint sub hsub h z (hn.turn ha hz) z (Or.inl rfl)
    · exact hdisjoint sub hsub h n hn z (Or.inr hz)
    · exact hdisjoint sub hsub sub' s (hn.fork hz hsub' hs) s (Or.inl rfl)
  · intro hbypass sub hsub
    -- the first node after the merge node would be reached by a step over it
    have hdispatch : ∀ h n, Inside sub h n →
        ¬ g.Leads (g.findMergeNode (g.getOutgoingEdges parallelId)) n := by
      intro h n hn
      induction hn with
      | start hs => exact not_leads_entry hg hm hsub hs
      | turn hn ha hz ih => exact (hbypass sub hsub _ _ hn ih).1 _ _ ha hz
      | fork hn hz hsub' hs ih => exact (hbypass sub hsub _ _ hn ih).2.2 _ hz _ hsub' _ hs
    intro h n hn z hz
    rcases hz with rfl | hretry
    · exact hdispatch h z hn
    · exact (hbypass sub hsub h n hn (hdispatch h n hn)).2.1 z hretry

/-- A run that ends at its first node dispatches nothing else, unless the node fans out or
retries. -/
theorem Inside.eq_start {h : AgentGraph} {n : Str} {node : NodeConfig}
    (hnode : g.getNode g.startNodeId = some node) (hretry : node.type ≠ .errorHandler)
    (hfork : node.type ≠ .parallel) (hend : ∀ a, g.turn g.startNodeId a = none)
    (hn : Inside g h n) : h = g ∧ n = g.startNodeId := by
  induction hn with
  | start hs => exact ⟨rfl, (entry_eq_some hs).2⟩
  | turn _ _ hz ih =>
    obtain ⟨rfl, rfl⟩ := ih
    rw [hend] at hz
    exact absurd hz (Option.some_ne_none _).symm
  | fork _ hz hsub _ ih =>
    obtain ⟨rfl, rfl⟩ := ih
    obtain ⟨⟨node', hnode', hparallel⟩, -⟩ := hsub
    rcases hz with rfl | ⟨⟨node'', hnode'', herror, -⟩, -⟩
    · exact absurd (Option.some.inj (hnode.symm.trans hnode') ▸ hparallel) hfork
    · exact absurd (Option.some.inj (hnode.symm.trans hnode'') ▸ herror) hretry

/-- The branches of the diamond end before they meet. -/
theorem fanInDisjoint_diamond : FanInDisjoint diamond "p".toList := by
  refine (fanInDisjoint_iff (acyclic_of_rank (fun n => if n = "p" then 0 else
    if n = "m" then 2 else 1) (by decide)) (by decide)).mpr fun sub hsub h n hn _ => ?_
  obtain ⟨-, -, graphId, e, he, hbuild⟩ := hsub
  have he : e = ⟨"p", "a", []⟩ ∨ e = ⟨"p", "b", []⟩ := by
    simpa using (show e ∈ [⟨"p", "a", []⟩, ⟨"p", "b", []⟩] from he)
  have hfirst : sub.getNode sub.startNodeId = some { type := .verify } ∧
      ∀ a, sub.turn sub.startNodeId a = none := by
    rcases he with rfl | rfl
    all_goals
      obtain rfl := Option.some.inj hbuild
      exact ⟨rfl, fun a => by cases a with
        | done e => cases e <;> rfl
        | _ => rfl⟩
  obtain ⟨hnode, hend⟩ := hfirst
  obtain ⟨rfl, rfl⟩ := hn.eq_start hnode (by simp) (by simp) hend
  have hretry : ∀ z, ¬ h.Retries h.startNodeId z := by
    rintro z ⟨⟨node, hnode', herror, -⟩, -⟩
    exact absurd (Option.some.inj (hnode.symm.trans hnode') ▸ herror) (by simp)
  refine ⟨fun a z _ hz => ?_, fun z hz => absurd hz (hretry z), fun z hz sub' hsub' => ?_⟩
  · rw [hend] at hz
    exact absurd hz (Option.some_ne_none z).symm
  · obtain rfl := hz.resolve_right (hretry z)
    obtain ⟨⟨node, hnode', hparallel⟩, -⟩ := hsub'
    exact absurd (Option.some.inj (hnode.symm.trans hnode') ▸ hparallel) (by simp)

/-- The end of `bypass` is after the merge node, and its first branch executes it. -/
theorem not_fanInDisjoint_bypass : bypass.validate = [] ∧ bypass.Acyclic ∧
    bypass.findMergeNode (bypass.getOutgoingEdges "p".toList) ≠ [] ∧
    ¬ FanInDisjoint bypass "p".toList := by
  refine ⟨by decide, acyclic_of_rank (fun n => if n = "p" then 0 else
    if n = "m" then 2 else if n = "z" then 3 else 1) (by decide), by decide, ?_⟩
  intro hdisjoint
  let sub := bypass.branchGraph "s" "a" "m" "p"
  have hbranch : bypass.IsBranch "p" sub :=
    ⟨⟨{ type := .parallel }, rfl, rfl⟩, by decide, "s", ⟨"p", "a", []⟩,
      by decide, rfl⟩
  have hentry : sub.entry = some "a" := by decide
  have hturn : sub.turn "a" (.result "true") = some "z" := by decide
  have hinside : Inside sub sub "z" := (Inside.start hentry).turn (by simp) hturn
  refine hdisjoint sub hbranch sub _ hinside "z" (Or.inl rfl) ?_
  exact (mem_reachableFrom _ _).mp (by decide)

end AgentGraph

end AgentStudio.Graph

import AgentStudio.Execution.RunAudit

/-!
# Runs inside runs come to an end

A run starts further runs: those of its sub-graphs, behind the gate on the depth of its runtime,
and those of the branches of its graph, which have fewer nodes (`Starts`). That it starts no others
is read off the executors: two ways to start runs that agree on these give the same run
(`runGraph_congr`).

So the recursion of the code, in which a run is started by the function that runs it, goes down in
the depth that is left and the size of the graph (`Starts.lex`). It has exactly one solution among
programs, which come to an end when every question is answered (`recursive_allRuns`,
`eq_of_recursive`); without the gate, a graph that refers to itself would have none.

In a chain of runs that start one another the sub-graphs use up the depth
(`Chain.count_subGraph_add_le`), and what would follow as many dispatches of a loop as it has
iterations left is not reached (`dispatchThen_allRuns`). `executeGraph_ends` puts this together.
-/

namespace AgentStudio.Execution

open PyText PyJson PyDict AgentStudio.Graph Programs

/-! ### The runs that a run starts -/

inductive Start where
  | subGraph
  | branch
deriving DecidableEq

/-- The runs that a run of a graph in a runtime can start: of any graph behind the gate on the
depth, and of the branches of a node of its graph. -/
inductive Starts (rt : AgentRuntime) (g : AgentGraph) : Start → AgentRuntime → AgentGraph → Prop
  | subGraph (vars : Vars) (sub : AgentGraph)
      (hgate : rt.subGraphDepth < rt.process.maxSubGraphDepth) :
      Starts rt g .subGraph (Exec.subRuntime rt vars) sub
  | branch {uuid targetId mergeId parallelId : Str} {sub : AgentGraph}
      (hnode : parallelId ∈ g.nodeIds)
      (hsub : g.buildBranchSubgraph uuid targetId mergeId parallelId = some sub) :
      Starts rt g .branch (Exec.subRuntime rt []) sub

/-- Two ways to start runs agree on those that a run can start. -/
def AgreeAt (rt : AgentRuntime) (g : AgentGraph) (nested nested' : Nested) : Prop :=
  ∀ k rt' g', Starts rt g k rt' g' → nested rt' g' = nested' rt' g'

namespace Exec

variable {α β : Type} {rt : AgentRuntime}

/-- Two executors are the same program in a runtime. -/
def SameAt (rt : AgentRuntime) (x y : Exec α) : Prop := ∀ c s, c.rt = rt → x c s = y c s

namespace SameAt

theorem refl (x : Exec α) : SameAt rt x x := fun _ _ _ => rfl

theorem bind {x y : Exec α} {f f' : α → Exec β} (hx : SameAt rt x y)
    (hf : ∀ a, SameAt rt (f a) (f' a)) : SameAt rt (x >>= f) (y >>= f') := fun c s hc => by
  rw [bind_apply, bind_apply, hx c s hc]
  refine congrArg _ (funext fun r => ?_)
  rcases r with ⟨_ | a, s'⟩
  · rfl
  · exact hf a c s' hc

theorem after (x : Exec α) {f f' : α → Exec β} (hf : ∀ a, SameAt rt (f a) (f' a)) :
    SameAt rt (x >>= f) (x >>= f') := (refl x).bind hf

theorem scope {f f' : Scope → Exec α} (hf : ∀ c, c.rt = rt → SameAt rt (f c) (f' c)) :
    SameAt rt (Exec.scope >>= f) (Exec.scope >>= f') := fun c s hc => hf c hc c s hc

theorem ite {p : Prop} [Decidable p] {x y x' y' : Exec α} (hx : p → SameAt rt x x')
    (hy : ¬ p → SameAt rt y y') :
    SameAt rt (if p then x else y) (if p then x' else y') := by
  split_ifs with hp
  · exact hx hp
  · exact hy hp

theorem foldl {f f' : β → α → Exec β} (hf : ∀ b a, SameAt rt (f b a) (f' b a)) (b : β)
    (xs : List α) : SameAt rt (Exec.foldl f b xs) (Exec.foldl f' b xs) := by
  induction xs generalizing b with
  | nil => exact refl _
  | cons x xs ih => exact (hf b x).bind ih

theorem body {x y : Exec Unit} (h : SameAt rt x y) : SameAt rt (Exec.body x) (Exec.body y) :=
  fun c s hc => by rw [Exec.body, Exec.body, h c s hc]

theorem consumed {x y : Exec α} (h : SameAt rt x y) :
    SameAt rt (Exec.consumed x) (Exec.consumed y) := fun _ s hc => h _ s hc

theorem onBehalf (hop : Hop) {x y : Exec α} (h : SameAt rt x y) :
    SameAt rt (Exec.onBehalf hop x) (Exec.onBehalf hop y) := fun _ s hc => h _ s hc

theorem afterAnswer {x y : Exec Unit} (h : SameAt rt x y) :
    SameAt rt (Exec.afterAnswer x) (Exec.afterAnswer y) := fun c s hc => by
  rw [Exec.afterAnswer, Exec.afterAnswer, h { c with hop := answeredHop c.hop } s hc]

theorem gatherAll {ι : Type} {f f' : ι → Exec α} {xs : List ι}
    (h : ∀ i ∈ xs, SameAt rt (f i) (f' i)) :
    SameAt rt (Exec.gatherAll (xs.map f)) (Exec.gatherAll (xs.map f')) := fun c s hc => by
  have hmap : (xs.map f).map (fun x => (x c s).map Prod.fst) =
      (xs.map f').map fun x => (x c s).map Prod.fst := by
    rw [List.map_map, List.map_map]
    exact List.map_congr_left fun i hi => congrArg _ (h i hi c s hc)
  rw [Exec.gatherAll, Exec.gatherAll, hmap]

end SameAt

/-! ### The executors -/

variable {g : AgentGraph} {nested nested' : Nested} (h : AgreeAt rt g nested nested')

include h

theorem executeSubGraph_same (params : Vars) :
    SameAt rt (executeSubGraph nested params) (executeSubGraph nested' params) := by
  unfold executeSubGraph
  refine .scope fun c hc => .ite (fun _ => .refl _) fun hgate => ?_
  cases subGraphOf c.rt.process.uuid params with
  | error text => exact .refl _
  | ok sub =>
    cases mapping "input_mapping" params with
    | none => exact .refl _
    | some inputs =>
      cases mapping "output_mapping" params with
      | none => exact .refl _
      | some outputs =>
        refine .after _ fun subInput => .after _ fun subVars => .after _ fun ctx =>
          .scope fun c' _ => ?_
        have hstart := h .subGraph _ sub (.subGraph subVars sub (hc ▸ not_le.mp hgate))
        rw [hc, hstart]
        exact .refl _

theorem executeToolCall_same (node : NodeConfig) (errors : List Str) (call : ToolCall) :
    SameAt rt (executeToolCall nested node errors call)
      (executeToolCall nested' node errors call) := by
  unfold executeToolCall
  cases call.call with
  | error text => exact .refl _
  | ok named =>
    refine .after _ fun blocked => .ite (fun _ => .refl _) fun _ => .ite (fun _ => ?_) fun _ =>
      .refl _
    exact (executeSubGraph_same h _).bind fun _ => .refl _

theorem executeToolCalls_same (node : NodeConfig) (calls : List ToolCall) :
    SameAt rt (executeToolCalls nested node calls) (executeToolCalls nested' node calls) := by
  unfold executeToolCalls
  have hcalls : SameAt rt (foldl (executeToolCall nested node) [] calls)
      (foldl (executeToolCall nested' node) [] calls) := .foldl (executeToolCall_same h node) _ _
  refine .after _ fun ctx => .ite (fun _ => ?_) fun _ => hcalls
  cases parseCalls calls with
  | error text => exact .refl _
  | ok parsed =>
    cases parsed with
    | none => exact hcalls
    | some parsed => exact .refl _

theorem executeLlmNode_same (node : NodeConfig) (g' : AgentGraph) (model : Str) (stream : Bool) :
    SameAt rt (executeLlmNode nested node g' model stream)
      (executeLlmNode nested' node g' model stream) := by
  have hfollow (model : Str) (r : LLMResponse) : SameAt rt (followAnswer nested node g' model r)
      (followAnswer nested' node g' model r) :=
    .after _ fun _ => .ite (fun _ => .refl _) fun _ => .after _ fun _ => .after _ fun _ =>
      .ite (fun _ => .refl _) fun _ => (executeToolCalls_same h node _).bind fun _ => .refl _
  refine .body (.after _ fun _ => .after _ fun _ => .after _ fun _ => .after _ fun blocked => ?_)
  cases blocked with
  | some reason => exact .refl _
  | none =>
    refine .after _ fun answer => ?_
    cases answer with
    | error text => exact .refl _
    | ok r => exact .afterAnswer (hfollow _ r)

theorem executeToolNode_same (node : NodeConfig) (g' : AgentGraph) :
    SameAt rt (executeToolNode nested node g') (executeToolNode nested' node g') :=
  .body (.ite (fun _ => (executeSubGraph_same h _).bind fun _ => .refl _) fun _ => .refl _)

theorem executeItems_same (node : NodeConfig) (outputVar : Str) (results : List Json) (index : ℕ)
    (items : List Json) :
    SameAt rt (executeItems nested node outputVar results index items)
      (executeItems nested' node outputVar results index items) := by
  induction items generalizing results index with
  | nil => exact .refl _
  | cons item items ih =>
    refine .after _ fun _ => .after _ fun _ => (executeSubGraph_same h _).bind fun events =>
      .ite (fun _ => .refl _) fun _ => .after _ fun _ => ih _ _

theorem executeIterationNode_same (node : NodeConfig) :
    SameAt rt (executeIterationNode nested node) (executeIterationNode nested' node) := by
  refine .body (.scope fun c _ => ?_)
  dsimp only
  generalize c.rt.process.int _ = maxItems
  cases maxItems with
  | none => exact .refl _
  | some maxItems =>
    refine .after _ fun vars => ?_
    generalize varOrEmpty vars _ = items
    cases items with
    | arr items =>
      exact .ite (fun _ => .refl _) fun _ => (executeItems_same h node _ _ _ _).bind
        fun _ => .refl _
    | str text => cases text <;> exact .refl _
    | _ => exact .refl _

theorem executeSubFlowNode_same (node : NodeConfig) :
    SameAt rt (executeSubFlowNode nested node) (executeSubFlowNode nested' node) := by
  refine .body (.scope fun c _ => .ite (fun _ => .refl _) fun _ => .ite (fun _ => .refl _) fun _ =>
    .after _ fun flow => ?_)
  cases flow with
  | none => exact .refl _
  | some flow => exact (executeSubGraph_same h _).bind fun _ => .refl _

theorem executeRagNode_same (node : NodeConfig) (g' : AgentGraph) (model : Str) :
    SameAt rt (executeRagNode nested node g' model) (executeRagNode nested' node g' model) :=
  .after _ fun _ => .ite (fun _ => .after _ fun _ => .onBehalf _ (executeLlmNode_same h _ _ _ _))
    fun _ => (SameAt.onBehalf _ (executeLlmNode_same h _ _ _ _)).bind fun _ => .refl _

theorem runBranch_same {mergeId parallelId : Str} (hnode : parallelId ∈ g.nodeIds)
    (branch : ℕ × Edge) :
    SameAt rt (runBranch nested g mergeId parallelId branch)
      (runBranch nested' g mergeId parallelId branch) := by
  refine .scope fun c hc => .after _ fun ctx => ?_
  cases hsub : g.buildBranchSubgraph c.rt.process.uuid branch.2.targetId mergeId parallelId with
  | none => exact .refl _
  | some sub =>
    intro c' s _
    have hstart := h .branch _ sub (.branch hnode hsub)
    rw [← hc] at hstart
    dsimp only
    rw [hstart]

theorem executeParallelNode_same {nodeId : Str} (hnode : nodeId ∈ g.nodeIds) :
    SameAt rt (executeParallelNode nested g nodeId) (executeParallelNode nested' g nodeId) := by
  refine .after _ fun _ => ?_
  cases g.getOutgoingEdges nodeId with
  | nil => exact .refl _
  | cons e es =>
    exact .after _ fun _ => .ite (fun _ => .refl _) fun _ => .ite (fun _ => .refl _) fun _ =>
      (SameAt.gatherAll fun branch _ => runBranch_same h hnode branch).bind fun _ => .refl _

theorem executeFailed_same (nodeId : Str) :
    SameAt rt (executeFailed nested g nodeId) (executeFailed nested' g nodeId) := by
  unfold executeFailed
  cases hnode : g.getNode nodeId with
  | none => exact .refl _
  | some node =>
    have hmem : nodeId ∈ g.nodeIds := AgentGraph.getNode_isSome_iff.mp (by rw [hnode]; rfl)
    dsimp only
    cases node.type with
    | tool => exact executeToolNode_same h _ _
    | llm => exact executeLlmNode_same h _ _ _ _
    | rag => exact executeRagNode_same h _ _ _
    | parallel => exact (executeParallelNode_same h hmem).bind fun _ => .refl _
    | _ => exact .refl _

theorem executeErrorHandlerNode_same (node : NodeConfig) :
    SameAt rt (executeErrorHandlerNode nested node g) (executeErrorHandlerNode nested' node g) := by
  have hretry (nodeId : Str) (left attempt : ℕ) : SameAt rt
      (retryAttempts nested g nodeId left attempt)
      (retryAttempts nested' g nodeId left attempt) := by
    induction left generalizing attempt with
    | zero => exact .refl _
    | succ left ih =>
      exact .after _ fun _ => (executeFailed_same h nodeId).bind fun _ => .after _ fun _ =>
        .ite (fun _ => .refl _) fun _ => ih _
  exact .after _ fun _ => .after _ fun _ => .ite (fun _ => .refl _) fun _ =>
    (SameAt.onBehalf _ (hretry _ _ _)).bind fun _ => .refl _

theorem dispatchLlm_same (model : Str) (stream : Bool) (nodeId : Str) (node : NodeConfig) :
    SameAt rt (dispatchLlm nested g model stream nodeId node)
      (dispatchLlm nested' g model stream nodeId node) := by
  have hround (rounds : ℕ) : SameAt rt (agentRounds nested node g model stream rounds)
      (agentRounds nested' node g model stream rounds) := by
    induction rounds with
    | zero => exact .refl _
    | succ rounds ih =>
      exact .after _ fun _ => .ite (fun _ => .refl _) fun _ => .after _ fun _ => .after _ fun _ =>
        .ite (fun _ => .refl _) fun _ => .after _ fun _ => .after _ fun _ =>
          (SameAt.onBehalf _ (.consumed (executeLlmNode_same h _ _ _ _))).bind fun _ => ih
  exact (SameAt.consumed (executeLlmNode_same h _ _ _ _)).bind fun _ => .after _ fun _ =>
    .ite (fun _ => (hround _).bind fun _ => .refl _) fun _ => .refl _

theorem executeNode_same (model input : Str) (stream : Bool) {nodeId : Str}
    (hnode : nodeId ∈ g.nodeIds) (node : NodeConfig) :
    SameAt rt (executeNode nested g model input stream nodeId node)
      (executeNode nested' g model input stream nodeId node) := by
  have hgo {x y : Exec Unit} (hxy : SameAt rt x y) (next : Str) :
      SameAt rt (do x; return next) (do y; return next) := hxy.bind fun _ => .refl _
  unfold executeNode
  cases node.type with
  | llm => exact dispatchLlm_same h _ _ _ _
  | tool => exact hgo (.consumed (executeToolNode_same h _ _)) _
  | iteration => exact hgo (.consumed (executeIterationNode_same h _)) _
  | subFlow => exact hgo (.consumed (executeSubFlowNode_same h _)) _
  | errorHandler => exact hgo (executeErrorHandlerNode_same h _) _
  | rag => exact hgo (.consumed (executeRagNode_same h _ _ _)) _
  | parallel => exact .consumed (executeParallelNode_same h hnode)
  | _ => exact .refl _

theorem dispatch_same (model input : Str) (stream : Bool) (left : ℕ) (nodeId : Str) :
    SameAt rt (dispatch nested g model input stream left nodeId)
      (dispatch nested' g model input stream left nodeId) := by
  induction left generalizing nodeId with
  | zero => exact .refl _
  | succ left ih =>
    refine .after _ fun ctx => .ite (fun _ => .refl _) fun _ => ?_
    cases hnode : g.getNode nodeId with
    | none => exact .refl _
    | some node =>
      have hmem : nodeId ∈ g.nodeIds := AgentGraph.getNode_isSome_iff.mp (by rw [hnode]; rfl)
      exact .after _ fun _ => .after _ fun _ =>
        (executeNode_same h model input stream hmem node).bind ih

theorem executeGraphInner_same (input : Str) (maxIterations : ℤ) (parent : Option Bool)
    (stream : Bool) :
    SameAt rt (executeGraphInner nested g input maxIterations parent stream)
      (executeGraphInner nested' g input maxIterations parent stream) := by
  have hall (model input : Str) : SameAt rt (dispatchAll nested g model input stream)
      (dispatchAll nested' g model input stream) :=
    .after _ fun _ => .after _ fun _ => .after _ fun _ =>
      (dispatch_same h _ _ _ _ _).bind fun _ => .refl _
  exact .after _ fun _ => .ite (fun _ => .refl _) fun _ => .after _ fun _ => .after _ fun _ =>
    .after _ fun _ => .ite (fun _ => .refl _) fun _ => hall _ _

end Exec

theorem runGraph_congr {e : Entry} {nested nested' : Nested}
    (h : AgreeAt e.rt e.graph nested nested') (parent : Option Bool) (up : Option ℕ) :
    runGraph nested e parent up = runGraph nested' e parent up := by
  rw [runGraph, runGraph, Exec.executeGraphInner_same h e.input e.maxIterations parent e.stream
    { rt := e.rt, budget := _, errorStops := _ } _ rfl]

/-! ### The depth, and the size of a branch -/

def AgentRuntime.depthLeft (rt : AgentRuntime) : ℕ :=
  rt.process.maxSubGraphDepth - rt.subGraphDepth

theorem depthLeft_subRuntime (rt : AgentRuntime) (vars : Vars) :
    (Exec.subRuntime rt vars).depthLeft = rt.depthLeft - 1 := by
  change rt.process.maxSubGraphDepth - (rt.subGraphDepth + 1) = _
  rw [AgentRuntime.depthLeft]
  omega

theorem length_buildBranchSubgraph {g sub : AgentGraph} {uuid targetId mergeId parallelId : Str}
    (hnode : parallelId ∈ g.nodeIds)
    (hsub : g.buildBranchSubgraph uuid targetId mergeId parallelId = some sub) :
    sub.nodes.length < g.nodes.length := by
  have hids : sub.nodeIds =
      (g.branchNodes targetId mergeId parallelId).filter fun n => (g.getNode n).isSome := by
    unfold AgentGraph.buildBranchSubgraph at hsub
    split_ifs at hsub
    cases hsub
    exact g.map_fst_select _
  have hmem (n : Str) (hn : n ∈ sub.nodeIds) : n ∈ g.nodeIds.erase parallelId := by
    rw [hids, List.mem_filter] at hn
    refine (List.mem_erase_of_ne ?_).mpr (AgentGraph.getNode_isSome_iff.mp hn.2)
    rintro rfl
    exact AgentGraph.not_excluded_of_mem hn.1 (by unfold AgentGraph.excluded; split_ifs <;> simp)
  have hle : sub.nodeIds.length ≤ (g.nodeIds.erase parallelId).length :=
    (List.subperm_of_subset sub.nodup hmem).length_le
  have hpos := List.length_pos_of_mem hnode
  rw [List.length_erase_of_mem hnode] at hle
  rw [AgentGraph.nodeIds, List.length_map] at hle hpos
  rw [AgentGraph.nodeIds, List.length_map] at hle
  omega

namespace Starts

variable {rt rt' : AgentRuntime} {g g' : AgentGraph} {k : Start}

theorem depthLeft_eq (h : Starts rt g k rt' g') : rt'.depthLeft = rt.depthLeft - 1 := by
  cases h <;> exact depthLeft_subRuntime _ _

/-- **The measure of the recursion**: the depth that is left, and then the size of the graph. -/
theorem lex (h : Starts rt g k rt' g') :
    Prod.Lex (· < ·) (· < ·) (rt'.depthLeft, g'.nodes.length) (rt.depthLeft, g.nodes.length) := by
  have hdepth := h.depthLeft_eq
  rw [Prod.lex_def]
  cases h with
  | subGraph vars sub hgate =>
    refine .inl ?_
    have hpos : 0 < rt.depthLeft := Nat.sub_pos_of_lt hgate
    dsimp only
    omega
  | branch hnode hsub =>
    rcases Nat.eq_zero_or_pos rt.depthLeft with hzero | hpos
    · exact .inr ⟨by dsimp only; omega, length_buildBranchSubgraph hnode hsub⟩
    · exact .inl (by dsimp only; omega)

end Starts

/-! ### The recursion -/

/-- The recursion of the code: a run is started by running it. -/
def Nested.Recursive (nested : Nested) : Prop :=
  ∀ rt graph input ctx parent up,
    nested rt graph input ctx parent up = runGraph nested { rt, graph, input, ctx } parent up

def allRuns : Nested := fun rt graph input ctx parent up =>
  runGraph (nestedAt rt.depthLeft graph) { rt, graph, input, ctx } parent up

private theorem runGraph_branchesOnly (m k : ℕ) (e : Entry) (parent : Option Bool)
    (up : Option ℕ) (hrt : e.rt.depthLeft = 0) (hm : e.graph.nodes.length ≤ m)
    (hk : e.graph.nodes.length ≤ k) :
    runGraph (branchesOnly m) e parent up = runGraph (branchesOnly k) e parent up := by
  induction m generalizing k e parent up with
  | zero =>
    refine runGraph_congr (fun _ rt' g' hstart => ?_) _ _
    have hlex := Prod.lex_def.mp hstart.lex
    have hdepth := hstart.depthLeft_eq
    dsimp only at hlex
    omega
  | succ m ih =>
    refine runGraph_congr (fun _ rt' g' hstart => ?_) _ _
    have hlex := Prod.lex_def.mp hstart.lex
    have hdepth := hstart.depthLeft_eq
    dsimp only at hlex
    obtain ⟨k, rfl⟩ : ∃ n, k = n + 1 := ⟨k - 1, by omega⟩
    funext input ctx parent up
    exact ih k { rt := rt', graph := g', input, ctx } parent up (by dsimp only; omega)
      (by dsimp only; omega) (by dsimp only; omega)

theorem agreeAt_allRuns (rt : AgentRuntime) (g : AgentGraph) :
    AgreeAt rt g (nestedAt rt.depthLeft g) allRuns := by
  intro k rt' g' hstart
  have hlex := Prod.lex_def.mp hstart.lex
  have hdepth := hstart.depthLeft_eq
  dsimp only at hlex
  funext input ctx parent up
  cases hleft : rt.depthLeft with
  | zero =>
    have hzero : rt'.depthLeft = 0 := by omega
    obtain ⟨m, hm⟩ : ∃ m, g.nodes.length = m + 1 := ⟨g.nodes.length - 1, by omega⟩
    rw [nestedAt, hm, allRuns, hzero, nestedAt]
    exact runGraph_branchesOnly _ _ _ _ _ hzero (by dsimp only; omega) le_rfl
  | succ depth =>
    have hsucc : rt'.depthLeft = depth := by omega
    rw [allRuns, hsucc]
    rfl

theorem recursive_allRuns : allRuns.Recursive := fun rt graph _ _ _ _ =>
  runGraph_congr (agreeAt_allRuns rt graph) _ _

/-- **The recursion has one solution**: along the measure of what a run starts. -/
theorem eq_of_recursive {nested nested' : Nested} (h : nested.Recursive)
    (h' : nested'.Recursive) : nested = nested' := by
  suffices ∀ x : AgentRuntime × AgentGraph, nested x.1 x.2 = nested' x.1 x.2 from
    funext fun rt => funext fun g => this (rt, g)
  intro x
  have hwf : WellFounded (Prod.Lex (· < ·) (· < ·) : ℕ × ℕ → ℕ × ℕ → Prop) :=
    WellFounded.prod_lex wellFounded_lt wellFounded_lt
  induction x using (InvImage.wf (fun x : AgentRuntime × AgentGraph =>
    (x.1.depthLeft, x.2.nodes.length)) hwf).induction with
  | h x ih =>
    funext input ctx parent up
    rw [h, h']
    refine runGraph_congr (fun _ rt' g' hstart => ?_) _ _
    exact ih (rt', g') hstart.lex

/-! ### Chains of runs -/

/-- A run inside a run inside a run: what the runs between them are started for, the last one
first. -/
inductive Chain (rt : AgentRuntime) (g : AgentGraph) :
    List Start → AgentRuntime → AgentGraph → Prop
  | refl : Chain rt g [] rt g
  | tail {ks : List Start} {k : Start} {rt' rt'' : AgentRuntime} {g' g'' : AgentGraph}
      (h : Chain rt g ks rt' g') (hstart : Starts rt' g' k rt'' g'') : Chain rt g (k :: ks) rt'' g''

theorem Chain.count_subGraph_add_le {rt rt' : AgentRuntime} {g g' : AgentGraph} {ks : List Start}
    (h : Chain rt g ks rt' g') : ks.count .subGraph + rt'.depthLeft ≤ rt.depthLeft := by
  induction h with
  | refl => simp
  | tail _ hstart ih =>
    have hdepth := hstart.depthLeft_eq
    cases hstart with
    | subGraph vars sub hgate =>
      have hpos := Nat.sub_pos_of_lt hgate
      rw [← AgentRuntime.depthLeft] at hpos
      rw [List.count_cons_self]
      omega
    | branch =>
      rw [List.count_cons_of_ne (by decide)]
      omega

/-! ### The end of a run -/

theorem executeGraph_eq (e : Entry) : executeGraph e = runGraph allRuns e none none :=
  runGraph_congr (agreeAt_allRuns e.rt e.graph) _ _

theorem sound_allRuns (B : BudgetRef) : Sound B allRuns := fun _ _ _ _ _ _ h =>
  meets_runGraph (sound_nestedAt _ _) _ _ _ h

theorem dispatchThen_allRuns (rest : Str → Exec Unit) (g : AgentGraph) (model input : Str)
    (stream : Bool) (nodeId : Str) {c : Scope} (hhop : c.hop = .dispatched) (s : Run) :
    dispatchThen rest allRuns g model input stream
        (s.ctx.maxIterations - s.ctx.iterationCount).toNat nodeId c s =
      Exec.dispatch allRuns g model input stream
        (s.ctx.maxIterations - s.ctx.iterationCount).toNat nodeId c s := by
  have hdispatch := dispatchThen_dispatch allRuns g model input stream
    (s.ctx.maxIterations - s.ctx.iterationCount).toNat 0 nodeId
  rw [add_zero] at hdispatch
  rw [← hdispatch]
  exact dispatchThen_congr (sound_allRuns 0) _ _ g model input stream _ nodeId hhop s
    (Int.self_le_toNat _)

/-- **Every run comes to an end.** The recursion of the code has one solution, and a run is a run of
it; what it starts, it starts behind the gate or for a branch. So no chain of runs has more
sub-graphs than the limit, no loop goes on after as many dispatches as it has iterations left, and
no run asks for ever. -/
theorem executeGraph_ends (e : Entry) :
    (∃! nested : Nested, nested.Recursive) ∧
    (∀ nested : Nested, nested.Recursive → executeGraph e = runGraph nested e none none) ∧
    (∀ (e' : Entry) (nested nested' : Nested), AgreeAt e'.rt e'.graph nested nested' →
      ∀ parent up, runGraph nested e' parent up = runGraph nested' e' parent up) ∧
    (∀ ks rt g, Chain e.rt e.graph ks rt g →
      ks.count .subGraph ≤ e.rt.process.maxSubGraphDepth - e.rt.subGraphDepth) ∧
    (∀ nested : Nested, nested.Recursive →
      ∀ (g : AgentGraph) (rest : Str → Exec Unit) (model input nodeId : Str) (stream : Bool)
        (c : Scope) (s : Run),
        let left := (s.ctx.maxIterations - s.ctx.iterationCount).toNat
        dispatchThen rest nested g model input stream left nodeId { c with hop := .dispatched } s =
          Exec.dispatch nested g model input stream left nodeId { c with hop := .dispatched } s) ∧
    ∀ run : ℕ → Program Step.Answer (Except Stop Unit × Run), run 0 = executeGraph e →
      ¬ ∀ n, (run (n + 1)).After (run n) := by
  have hall (nested : Nested) (h : nested.Recursive) : nested = allRuns :=
    eq_of_recursive h recursive_allRuns
  refine ⟨⟨allRuns, recursive_allRuns, hall⟩, fun nested h => ?_, fun _ _ _ h => runGraph_congr h,
    fun ks rt g h => ?_, fun nested h g rest model input nodeId stream c s => ?_,
    fun run _ => Program.not_endless run⟩
  · rw [hall nested h, executeGraph_eq]
  · have hcount := h.count_subGraph_add_le
    exact le_trans (Nat.le_add_right _ _) hcount
  · obtain rfl := hall nested h
    exact dispatchThen_allRuns rest g model input stream nodeId rfl s

end AgentStudio.Execution

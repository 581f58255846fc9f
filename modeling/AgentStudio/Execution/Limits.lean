import AgentStudio.Execution.ToolTurns

/-!
# The iteration limit of a run

The loop of `_execute_graph_inner` is left for one of two reasons, no next node or no iteration
left, and what follows it looks at the counter only: `if ctx.is_max_iterations_reached()` is an
`ERROR` event. `dispatchTo` is the loop with the node that it is left at, `finish` is what follows
it, and `executeGraphInner_eq_finish` puts the run together from them.

`HasEnding` says how a run ends: inside its loop, or at the end of it, after some turns. The report
is right (`Reported ↔ CutOff`) in exactly the runs none of whose turns ends the walk with the
counter at the limit (`reported_iff_cutOff_iff`): a walk that ends by itself after as many turns as
its limit is reported as an error. No run ends silently with a next node (`always_ending`).
-/

namespace AgentStudio.Execution

open PyText PyJson PyDict AgentStudio.Graph Programs

/-! ### The loop and what follows it -/

namespace Exec

/-- The loop of `_execute_graph_inner`, from a node on: `current_node_id` when it is left. -/
def dispatchTo (nested : Nested) (g : AgentGraph) (model input : Str) (stream : Bool) :
    ℕ → Str → Exec Str
  | 0, nodeId => return nodeId
  | left + 1, nodeId => do
    if nodeId = [] ∨ (← ctx).isMaxIterationsReached then return nodeId
    else
      match g.getNode nodeId with
      | none => abort ("Node '" ++ nodeId ++ "' not found")
      | some node => do
        modify fun ctx =>
          { ctx with iterationCount := ctx.iterationCount + 1, currentNodeId := nodeId }
        ask (.visit node.type)
        let next ← executeNode nested g model input stream nodeId node
        dispatchTo nested g model input stream left next

def finish : Exec Unit := do
  if (← ctx).isMaxIterationsReached then
    setStopReason "max_iterations"
    setError "Max iterations exceeded"
    emit ⟨.error, "Max iterations exceeded"⟩

def leaveLoop (nested : Nested) (g : AgentGraph) (input : Str) (maxIterations : ℤ)
    (parent : Option Bool) (stream : Bool) : Exec Str := do
  let input ← prelude g input maxIterations parent
  modify ({ · with currentNodeId := g.startNodeId })
  let left := (← ctx).maxIterations - (← ctx).iterationCount
  dispatchTo nested g g.findLlmModel input stream left.toNat g.startNodeId

section Eq

variable (nested : Nested) (g : AgentGraph) (model input : Str) (stream : Bool)

private theorem dispatchTo_succ (left : ℕ) (nodeId : Str) (c : Scope) (s : Run) :
    dispatchTo nested g model input stream (left + 1) nodeId c s =
      if nodeId = [] ∨ s.ctx.isMaxIterationsReached then .ret (.ok nodeId, s)
      else
        match g.getNode nodeId with
        | none => abort ("Node '" ++ nodeId ++ "' not found") c s
        | some node =>
          .ask ⟨c, (s.visit nodeId).ctx, .visit node.type⟩ fun _ =>
            (executeNode nested g model input stream nodeId node >>=
              dispatchTo nested g model input stream left) c (s.visit nodeId) := by
  rw [dispatchTo]
  change (if _ then _ else _ : Exec Str) c s = _
  split_ifs
  · rfl
  · cases g.getNode nodeId <;> rfl

theorem dispatch_eq (left : ℕ) (nodeId : Str) :
    dispatch nested g model input stream left nodeId =
      dispatchTo nested g model input stream left nodeId >>= fun _ => pure () := by
  induction left generalizing nodeId with
  | zero => rfl
  | succ left ih =>
    funext c s
    rw [bind_apply, dispatchTo_succ, dispatch]
    change (if _ then _ else _ : Exec Unit) c s = _
    split_ifs
    · rfl
    · cases g.getNode nodeId with
      | none =>
        have habort := abort_bind ("Node '" ++ nodeId ++ "' not found")
          fun _ : Str => (pure () : Exec Unit)
        exact (congrFun (congrFun habort c) s).symm
      | some node =>
        refine congrArg (Program.ask _) (funext fun _ => ?_)
        change (executeNode nested g model input stream nodeId node >>=
          dispatch nested g model input stream left) c (s.visit nodeId) =
            ((executeNode nested g model input stream nodeId node >>=
              dispatchTo nested g model input stream left) >>= fun _ => pure ()) c (s.visit nodeId)
        rw [bind_bind, funext ih]

/-- **A run is its loop and what follows it.** -/
theorem executeGraphInner_eq_finish (maxIterations : ℤ) (parent : Option Bool) :
    executeGraphInner nested g input maxIterations parent stream =
      leaveLoop nested g input maxIterations parent stream >>= fun _ => finish := by
  rw [executeGraphInner_eq]
  simp only [leaveLoop, bind_bind, dispatchAll, dispatch_eq]
  rfl

end Eq

end Exec

/-! ### The end of the loop -/

section Leaves

variable (nested : Nested) (g : AgentGraph) (model input : Str) (stream : Bool) (c : Scope)

/-- The turns of a loop that is left, each with the node that it goes on with, and the node and the
run that it is left at. -/
inductive Leaves : ℕ → Str → Run → List (Turn × Str) → Str → Run → Prop
  | done {left : ℕ} {nodeId : Str} {s : Run}
      (h : left = 0 ∨ nodeId = [] ∨ s.ctx.isMaxIterationsReached = true) :
      Leaves left nodeId s [] nodeId s
  | turn {left : ℕ} {nodeId next last : Str} {s s' s'' : Run} {node : NodeConfig}
      {log : List (Turn × Str)} (hid : nodeId ≠ []) (hleft : s.ctx.isMaxIterationsReached = false)
      (hnode : g.getNode nodeId = some node)
      (h : (Exec.executeNode nested g model input stream nodeId node c (s.visit nodeId)).Returns
        (.ok next, s')) (hrest : Leaves left next s' log last s'') :
      Leaves (left + 1) nodeId s ((⟨nodeId, s.visit nodeId, s'⟩, next) :: log) last s''

end Leaves

variable {nested : Nested} {g : AgentGraph} {model input : Str} {stream : Bool} {c : Scope}

variable {s s' : Run} {nodeId last : Str} {left : ℕ} {log : List (Turn × Str)}

theorem leaves_of_returns
    (h : (Exec.dispatchTo nested g model input stream left nodeId c s).Returns (.ok last, s')) :
    ∃ log, Leaves nested g model input stream c left nodeId s log last s' := by
  induction left generalizing nodeId s with
  | zero =>
    obtain ⟨hlast, rfl⟩ := Prod.mk.inj (Program.returns_ret.mp h)
    obtain rfl := Except.ok.inj hlast
    exact ⟨[], .done (.inl rfl)⟩
  | succ left ih =>
    rw [Exec.dispatchTo_succ] at h
    by_cases hover : nodeId = [] ∨ s.ctx.isMaxIterationsReached = true
    · rw [if_pos hover] at h
      obtain ⟨hlast, rfl⟩ := Prod.mk.inj (Program.returns_ret.mp h)
      obtain rfl := Except.ok.inj hlast
      exact ⟨[], .done (.inr hover)⟩
    · rw [if_neg hover] at h
      rw [not_or, Bool.not_eq_true] at hover
      cases hnode : g.getNode nodeId with
      | none =>
        rw [hnode] at h
        exact absurd (Exec.returns_abort h).2 (by simp)
      | some node =>
        rw [hnode, Program.returns_ask] at h
        obtain ⟨-, h⟩ := h
        rw [bind_apply, Program.returns_bind] at h
        obtain ⟨⟨stop | next, s₁⟩, hexec, hrest⟩ := h
        · exact absurd (Prod.mk.inj (Program.returns_ret.mp hrest)).1 (by simp)
        · obtain ⟨log, hlog⟩ := ih hrest
          exact ⟨_, .turn hover.1 hover.2 hnode hexec hlog⟩

theorem forall_turn_iff_of_leaves {p : Run → Prop} (hid : nodeId ≠ [])
    (h : Leaves nested g model input stream c left nodeId s log last s') :
    (∀ x ∈ log, x.2 = [] → p x.1.after) ↔ (last = [] → p s') := by
  induction h with
  | done => simp [hid]
  | @turn left nodeId next last s s₁ s' node log _ _ _ _ hrest ih =>
    rw [List.forall_mem_cons]
    by_cases hnext : next = []
    · subst hnext
      cases hrest with
      | done => simp
      | turn hne => exact absurd rfl hne
    · rw [ih hnext]
      simp [hnext]

/-- The iterations that are left are enough for the loop: it is left without a next node, or at the
limit. -/
theorem over_of_leaves {B : BudgetRef} (hnested : Sound B nested) (hhop : c.hop = .dispatched)
    (h : Leaves nested g model input stream c left nodeId s log last s')
    (hleft : s.ctx.maxIterations - s.ctx.iterationCount ≤ left) :
    last = [] ∨ s'.ctx.isMaxIterationsReached = true := by
  induction h with
  | @done left nodeId s h =>
    obtain rfl | h | h := h
    · refine .inr ?_
      simp only [AgentContext.isMaxIterationsReached, decide_eq_true_eq]
      omega
    · exact .inl h
    · exact .inr h
  | @turn left nodeId next last s s₁ s' node log _ _ _ hexec _ ih =>
    have hadv : Advances (s.visit nodeId).ctx s₁.ctx :=
      Program.always_iff.mp ((Settles.executeNode hnested g model input stream nodeId node c
        (s.visit nodeId) hhop fun _ => trivial).always fun _ _ h => h.2) _ hexec
    refine ih ?_
    have hmax : s₁.ctx.maxIterations = s.ctx.maxIterations := hadv.maxIterations
    have hcount : s.ctx.iterationCount + 1 ≤ s₁.ctx.iterationCount := hadv.iterationCount
    omega

/-! ### The end of a run -/

/-- How a run ends: its turns and the node that its loop is left at, if it is, and the run before
and after what follows the loop. -/
structure Ending where
  turns : List (Turn × Str)
  last : Option Str
  before : Run
  after : Run

namespace Ending

/-- The run yields the error that its iterations are used up. -/
def Reported (E : Ending) : Prop :=
  E.after.events = E.before.events ++ [⟨.error, "Max iterations exceeded"⟩]

/-- The limit was reached while a next node remained to be executed. -/
def CutOff (E : Ending) : Prop :=
  E.before.ctx.isMaxIterationsReached = true ∧ ∃ nodeId, E.last = some nodeId ∧ nodeId ≠ []

end Ending

/-- The ends of the runs of an entry: a run ends inside its loop, or its loop is left. -/
inductive Entry.HasEnding (e : Entry) (nested : Nested) (parent : Option Bool) (up : Option ℕ) :
    Ending → Prop
  | stopped {stop : Stop} {s : Run}
      (h : (Exec.leaveLoop nested e.graph e.input e.maxIterations parent e.stream (e.scope up)
        { ctx := e.ctx }).Returns (.error stop, s)) :
      HasEnding e nested parent up ⟨[], none, s, s⟩
  | left {input last : Str} {s s' : Run} {log : List (Turn × Str)} {r : Except Stop Unit × Run}
      (hprelude : (Exec.prelude e.graph e.input e.maxIterations parent (e.scope up)
        { ctx := e.ctx }).Returns (.ok input, s))
      (h : Leaves nested e.graph e.graph.findLlmModel input e.stream (e.scope up)
        (s.ctx.maxIterations - s.ctx.iterationCount).toNat e.graph.startNodeId (e.atStart s) log
        last s')
      (hfinish : (Exec.finish (e.scope up) s').Returns r) :
      HasEnding e nested parent up ⟨log, some last, s', r.2⟩

section Ends

variable {e : Entry} {parent : Option Bool} {up : Option ℕ}

theorem returns_finish {s : Run} {r : Except Stop Unit × Run} (h : (Exec.finish c s).Returns r) :
    r.2.events = if s.ctx.isMaxIterationsReached then
      s.events ++ [⟨.error, "Max iterations exceeded"⟩] else s.events := by
  change ((if _ then _ else _ : Exec Unit) c s).Returns r at h
  split_ifs at h ⊢
  · rw [Exec.returns_emit.mp h]
  · rw [Program.returns_ret.mp h]

theorem validate_of_prelude {maxIterations : ℤ} {s s' : Run} {input' : Str}
    (h : (Exec.prelude g input maxIterations parent c s).Returns (.ok input', s')) :
    g.validate = [] := by
  by_contra hne
  rw [Exec.prelude] at h
  simp only [if_pos hne] at h
  rw [bind_apply, Program.returns_bind] at h
  obtain ⟨⟨stop | _, s₁⟩, -, h⟩ := h
  · exact absurd (Prod.mk.inj (Program.returns_ret.mp h)).1 (by simp)
  · exact absurd (Exec.returns_abort h).2 (by simp)

theorem hasEnding_of_returns {r : Except Stop Unit × Run}
    (h : (runGraph nested e parent up).Returns r) :
    ∃ E, e.HasEnding nested parent up E ∧ E.after = r.2 := by
  rw [runGraph, Program.returns_map] at h
  obtain ⟨r', h, rfl⟩ := h
  rw [Exec.executeGraphInner_eq_finish, bind_apply, Program.returns_bind] at h
  obtain ⟨⟨stop | last, s'⟩, hloop, hfinish⟩ := h
  · rw [Program.returns_ret.mp hfinish]
    exact ⟨_, .stopped hloop, rfl⟩
  · rw [Exec.leaveLoop, bind_apply, Program.returns_bind] at hloop
    obtain ⟨⟨stop | input, s⟩, hprelude, hloop⟩ := hloop
    · exact absurd (Prod.mk.inj (Program.returns_ret.mp hloop)).1 (by simp)
    · obtain ⟨log, hlog⟩ := leaves_of_returns (s := e.atStart s) hloop
      exact ⟨_, .left hprelude hlog hfinish, rfl⟩

/-- **A run reports that its iterations are used up exactly if it was cut off, if and only if none
of its turns ends the walk with the counter at the limit.** -/
theorem reported_iff_cutOff_iff {E : Ending} (h : e.HasEnding nested parent up E) :
    (E.Reported ↔ E.CutOff) ↔
      ∀ x ∈ E.turns, x.2 = [] → x.1.after.ctx.iterationCount < x.1.after.ctx.maxIterations := by
  cases h with
  | @stopped stop s _ =>
    have hquiet : ¬ (⟨[], none, s, s⟩ : Ending).Reported := fun hreported => by
      have hlength := congrArg List.length hreported
      simp at hlength
    simp [hquiet, Ending.CutOff]
  | @left input last s s' log r hprelude hlog hfinish =>
    have hstart : e.graph.startNodeId ≠ [] :=
      ((AgentGraph.validate_eq_nil_iff _).mp (validate_of_prelude hprelude)).start_ne_nil
    rw [forall_turn_iff_of_leaves (p := fun s => s.ctx.iterationCount < s.ctx.maxIterations)
      hstart hlog]
    have hreported : (⟨log, some last, s', r.2⟩ : Ending).Reported ↔
        s'.ctx.isMaxIterationsReached = true := by
      rw [Ending.Reported, returns_finish hfinish]
      split_ifs with hreached <;> simp [hreached]
    have hlimit : s'.ctx.isMaxIterationsReached = true ↔
        ¬ s'.ctx.iterationCount < s'.ctx.maxIterations := by
      simp [AgentContext.isMaxIterationsReached]
    rw [hreported, Ending.CutOff]
    simp only [hlimit, Option.some.injEq, exists_eq_left']
    tauto

end Ends

/-! ### A walk that ends at its limit -/

/-- A graph whose start node has no outgoing edge. -/
def loneStart : AgentGraph where
  id := "g"
  nodes := [("s", { type := .start })]
  edges := []
  startNodeId := "s"
  nodup := by
    change List.Nodup ["s".toList]
    decide

def loneRun (maxIterations : ℤ) : Entry where
  rt := { process := plainProcess }
  graph := loneStart
  maxIterations

theorem hasEnding_lone {maxIterations : ℤ}
    (hstarted : (loneRun maxIterations).started none none (fun q => q.call.oblige {}) =
      some (input, s)) (hleft : s.ctx.isMaxIterationsReached = false) :
    let v := ((loneRun maxIterations).atStart s).visit "s"
    (loneRun maxIterations).HasEnding nested none none ⟨[(⟨"s", v, v⟩, [])], some [], v,
      ((Exec.finish ((loneRun maxIterations).scope none) v).run
        (fun q _ => (q.call.oblige {}, ())) ()).2.2⟩ := by
  intro v
  have hsome : ∃ left, (s.ctx.maxIterations - s.ctx.iterationCount).toNat = left + 1 := by
    simp only [AgentContext.isMaxIterationsReached, decide_eq_false_iff_not] at hleft
    exact ⟨(s.ctx.maxIterations - s.ctx.iterationCount).toNat - 1, by omega⟩
  obtain ⟨left, hsome⟩ := hsome
  refine .left (Entry.returns_of_started hstarted) ?_ (Program.returns_run _ _ _)
  rw [hsome]
  exact .turn (List.cons_ne_nil _ _) hleft rfl (Program.returns_ret.mpr rfl)
    (.done (.inr (.inl rfl)))

/-- With a limit of two the run ends before it. -/
theorem reported_iff_cutOff_iff_lone : ∃ E, (loneRun 2).HasEnding (branchesOnly 0) none none E ∧
    ((E.Reported ↔ E.CutOff) ↔
      ∀ x ∈ E.turns, x.2 = [] → x.1.after.ctx.iterationCount < x.1.after.ctx.maxIterations) :=
  have hstarted : ((loneRun 2).started none none fun q => q.call.oblige {}).isSome = true := by
    decide +kernel
  have hending : (loneRun 2).HasEnding (branchesOnly 0) none none _ :=
    hasEnding_lone (Option.some_get hstarted).symm (by decide +kernel)
  ⟨_, hending, reported_iff_cutOff_iff hending⟩

/-- With a limit of one it ends by itself and is reported as an error. -/
theorem not_reported_iff_cutOff : ¬ ∀ (e : Entry) (E : Ending), e.graph.validate = [] →
    e.HasEnding (nestedAt (e.rt.process.maxSubGraphDepth - e.rt.subGraphDepth) e.graph) none none
      E → (E.Reported ↔ E.CutOff) := by
  intro h
  have hstarted : ((loneRun 1).started none none fun q => q.call.oblige {}).isSome = true := by
    decide +kernel
  have hcut := (h (loneRun 1) _ (by decide +kernel)
    (hasEnding_lone (Option.some_get hstarted).symm (by decide +kernel))).mp (by
      rw [Ending.Reported]
      decide +kernel)
  obtain ⟨-, nodeId, hlast, hid⟩ := hcut
  exact hid (Option.some.inj hlast).symm

end AgentStudio.Execution

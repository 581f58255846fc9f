import AgentStudio.Execution.LlmAudit

/-!
# The audit of runs

An LLM node of the dispatch loop is charged what its end leaves to record, and the record that
follows takes it back (`Settles.dispatchLlm`). With it the executors of all nodes settle, and so
does the dispatch loop (`dispatching_auditing`). So a run is lawful and charged nothing in all
(`meets_runGraph`), and with it the runs inside runs (`sound_nestedAt`), by recursion on the depth
that is left and the number of nodes.

The context that `dispatch` passes on has advanced, which is why the iterations that are left
bound the loop: what would follow as many dispatches is not reached (`dispatchThen_congr`).

In `plan_mode`, only the tools of `_plan_readonly_tools` may be called, and a run inside the run
starts in `plan_mode` (`Step.PlanSafe`). `planSafe_iff` is about all runs: `_post_action_assert`,
which calls the tool `screenshot` without the gate, is the only call that breaks the rule.
-/

namespace AgentStudio.Execution

open PyText PyJson PyDict AgentStudio.Graph Programs

variable {B : BudgetRef} {H : Hop → Prop} {P : Prop} {nested : Nested}

/-! ### An LLM node and its record -/

private theorem body_always (x : Exec Unit) (c : Scope) (s : Run) :
    (Exec.body x c s).Always fun r => r.1 ≠ .error .returned := by
  refine Program.always_bind.mpr ?_
  generalize x c s = p
  induction p with
  | ret r => obtain ⟨(_ | runs | _) | a, s'⟩ := r <;> simp [Program.Always]
  | ask q next ih => exact fun a => ih a

private theorem charge_recordUsage (c : Scope) (ctx : AgentContext) (budget : BudgetRef)
    (hbudget : c.budget = some budget) (a : BudgetStatus) :
    (audit B).charge ⟨c, ctx, .recordUsage budget ctx.tokenUsage⟩ a =
      -owned B c (spent ctx.messages) := by
  simp only [audit, Call.tokens, Step.surplus, Call.surplus, Step.recorded, owned, hbudget,
    Option.some.injEq, AgentContext.total_tokenUsage, neg_zero, ite_self, zero_add, zero_sub]

private theorem recordUsage_meets {c : Scope} (hhop : c.hop = .dispatched) (s : Run) :
    (Exec.recordUsage c s).Meets (audit B) fun n r =>
      n = -owned B c (spent s.ctx.messages) ∧ Advances s.ctx r.2.ctx := by
  have hne : c.hop ≠ .answered := by simp [hhop]
  cases hbudget : c.budget with
  | none =>
    simp only [Exec.recordUsage, bind_apply, Exec.scope, Program.bind, hbudget]
    exact ⟨by simp [owned, hbudget], .refl _⟩
  | some budget =>
    have hrest (status : BudgetStatus) : (auditing B).Does (· = .dispatched) True (do
        Exec.pruneMessages status
        Exec.checkBudget status) :=
      .bind (.pruneMessages (fun _ h => by simp [h]) _) fun _ => .checkBudget _
    simp only [Exec.recordUsage, bind_apply, Exec.scope, Exec.ctx, Program.bind, hbudget]
    refine ⟨trivial, fun status =>
      (Settles.of_does (hrest status) c s hhop fun _ => trivial).mono ?_⟩
    rintro n r ⟨hn, hadv⟩
    rw [balance_of_ne hne, balance_of_ne hne, sub_zero] at hn
    rw [charge_recordUsage c s.ctx budget hbudget, hn, add_zero]
    exact ⟨rfl, hadv⟩

theorem Settles.dispatchLlm (hnested : Sound B nested) (g : AgentGraph) (model : Str)
    (stream : Bool) (nodeId : Str) (node : NodeConfig) :
    Settles B (· = .dispatched) True (Exec.dispatchLlm nested g model stream nodeId node) := by
  intro c s hhop hplan
  have hH (hop : Hop) (h : hop = .dispatched) : hop ≠ .answered := by simp [h]
  have hne : c.hop ≠ .answered := hH _ hhop
  have hrest := Settles.of_does (B := B) (P := True)
    (.afterLlm hnested hH g model stream nodeId node)
  -- the node leaves its usage to the record, unless the run ends in it
  refine Program.meets_bind.mpr (((answers_executeLlmNode hnested node g model stream
    { c with errorStops := some (c.errorStops.getD 0) } s hhop rfl).and_always
      (body_always _ _ _)).mono ?_)
  rintro n ⟨r, s'⟩ ⟨⟨rfl, hadv⟩, hr⟩
  cases r with
  | error e =>
    refine ⟨?_, hadv⟩
    cases e with
    | returned => exact absurd rfl hr
    | _ => simp [due, balance_of_ne hne]
  | ok a =>
    refine Program.meets_bind.mpr ((recordUsage_meets hhop s').mono ?_)
    rintro m ⟨r, s''⟩ ⟨rfl, hadv'⟩
    have hdue : due B { c with errorStops := some (c.errorStops.getD 0) } (.ok a, s') =
        owned B c (spent s'.ctx.messages) := rfl
    cases r with
    | error e => exact ⟨by simp [hdue, balance_of_ne hne], hadv.trans hadv'⟩
    | ok b =>
      refine (hrest c s'' hhop fun _ => trivial).mono ?_
      rintro k r ⟨rfl, hadv''⟩
      exact ⟨by simp [hdue, balance_of_ne hne], (hadv.trans hadv').trans hadv''⟩

instance dispatching_auditing : (auditing B).Dispatching where
  dispatchLlm := Settles.dispatchLlm

theorem Settles.executeNode (hnested : Sound B nested) (g : AgentGraph) (model input : Str)
    (stream : Bool) (nodeId : Str) (node : NodeConfig) :
    Settles B (· = .dispatched) True
      (Exec.executeNode nested g model input stream nodeId node) :=
  .of_does (.executeNode hnested _ _ _ _ _ _)

/-! ### A run -/

/-- **A run.** Its questions are lawful, and it is charged nothing in all. -/
theorem meets_runGraph (hnested : Sound B nested) (e : Entry) (parent : Option Bool)
    (up : Option ℕ) (hparent : parent = some true → e.ctx.planMode = true) :
    (runGraph nested e parent up).Meets (audit B) fun n _ => n = 0 := by
  refine Program.meets_map.mpr ⟨fun h => ?_, fun a => ?_⟩
  · change (e.graph.planMode || e.ctx.planMode) = true
    rw [hparent h, Bool.or_true]
  · refine (Settles.of_does (B := B) (.afterEntry hnested e.graph e.input e.stream) _ _ rfl
      fun _ => trivial).mono ?_
    rintro n r ⟨hn, -⟩
    have hne : Hop.dispatched ≠ .answered := by simp
    rw [balance_of_ne hne, balance_of_ne hne, sub_zero] at hn
    simp [hn, audit, Call.tokens, Step.surplus, Call.surplus, Step.recorded]

theorem sound_branchesOnly (nodes : ℕ) : Sound B (branchesOnly nodes) := by
  induction nodes with
  | zero => exact fun _ _ _ _ _ _ _ => rfl
  | succ nodes ih => exact fun _ _ _ _ _ _ h => meets_runGraph ih _ _ _ h

theorem sound_nestedAt (depth : ℕ) (g : AgentGraph) : Sound B (nestedAt depth g) := by
  induction depth generalizing g with
  | zero => exact sound_branchesOnly _
  | succ depth ih => exact fun _ g' _ _ _ _ h => meets_runGraph (ih g') _ _ _ h

theorem meets_executeGraph (e : Entry) :
    (executeGraph e).Meets (audit B) fun n _ => n = 0 :=
  meets_runGraph (sound_nestedAt _ _) _ _ _ (by simp)

/-! ### The bound of the loop -/

/-- The loop of `_execute_graph_inner`, from a node on, with what follows its first dispatches. -/
def dispatchThen (rest : Str → Exec Unit) (nested : Nested) (g : AgentGraph) (model input : Str)
    (stream : Bool) : ℕ → Str → Exec Unit
  | 0, nodeId => do
    if nodeId = [] ∨ (← Exec.ctx).isMaxIterationsReached then pure ()
    else rest nodeId
  | left + 1, nodeId => do
    if nodeId = [] ∨ (← Exec.ctx).isMaxIterationsReached then pure ()
    else
      match g.getNode nodeId with
      | none => Exec.abort ("Node '" ++ nodeId ++ "' not found")
      | some node => do
        Exec.modify fun ctx =>
          { ctx with iterationCount := ctx.iterationCount + 1, currentNodeId := nodeId }
        Exec.ask (.visit node.type)
        let next ← Exec.executeNode nested g model input stream nodeId node
        dispatchThen rest nested g model input stream left next

private theorem dispatchThen_zero (rest : Str → Exec Unit) (g : AgentGraph) (model input : Str)
    (stream : Bool) (nodeId : Str) (c : Scope) (s : Run) :
    dispatchThen rest nested g model input stream 0 nodeId c s =
      if nodeId = [] ∨ s.ctx.isMaxIterationsReached then .ret (.ok (), s) else rest nodeId c s := by
  rw [dispatchThen]
  change (if _ then _ else _ : Exec Unit) c s = _
  split_ifs <;> rfl

private theorem dispatchThen_succ (rest : Str → Exec Unit) (g : AgentGraph) (model input : Str)
    (stream : Bool) (left : ℕ) (nodeId : Str) (c : Scope) (s : Run) :
    dispatchThen rest nested g model input stream (left + 1) nodeId c s =
      if nodeId = [] ∨ s.ctx.isMaxIterationsReached then .ret (.ok (), s)
      else
        match g.getNode nodeId with
        | none => Exec.abort ("Node '" ++ nodeId ++ "' not found") c s
        | some node =>
          let ctx := { s.ctx with
            iterationCount := s.ctx.iterationCount + 1, currentNodeId := nodeId }
          .ask ⟨c, ctx, .visit node.type⟩ fun _ =>
            (Exec.executeNode nested g model input stream nodeId node >>=
              dispatchThen rest nested g model input stream left) c { s with ctx } := by
  rw [dispatchThen]
  change (if _ then _ else _ : Exec Unit) c s = _
  split_ifs
  · rfl
  · cases g.getNode nodeId <;> rfl

theorem dispatchThen_dispatch (nested : Nested) (g : AgentGraph) (model input : Str)
    (stream : Bool) (left extra : ℕ) (nodeId : Str) :
    dispatchThen (Exec.dispatch nested g model input stream extra) nested g model input stream left
      nodeId = Exec.dispatch nested g model input stream (left + extra) nodeId := by
  induction left generalizing nodeId with
  | zero =>
    funext c s
    rw [dispatchThen_zero, zero_add]
    split_ifs with h
    · cases extra with
      | zero => rfl
      | succ extra =>
        rw [Exec.dispatch]
        change _ = (if _ then _ else _ : Exec Unit) c s
        rw [if_pos h]
        rfl
    · rfl
  | succ left ih =>
    have hrest := funext ih
    rw [Nat.succ_add, dispatchThen, hrest]
    rfl

/-- **The iterations that are left bound the loop.** Whatever follows as many dispatches, it is not
reached. -/
theorem dispatchThen_congr (hnested : Sound B nested) (rest rest' : Str → Exec Unit)
    (g : AgentGraph) (model input : Str) (stream : Bool) (left : ℕ) (nodeId : Str) {c : Scope}
    (hhop : c.hop = .dispatched) (s : Run)
    (hleft : s.ctx.maxIterations - s.ctx.iterationCount ≤ left) :
    dispatchThen rest nested g model input stream left nodeId c s =
      dispatchThen rest' nested g model input stream left nodeId c s := by
  induction left generalizing nodeId s with
  | zero =>
    have hreached : s.ctx.isMaxIterationsReached = true := by
      simp only [AgentContext.isMaxIterationsReached, decide_eq_true_eq]
      omega
    rw [dispatchThen_zero, dispatchThen_zero, if_pos (.inr hreached), if_pos (.inr hreached)]
  | succ left ih =>
    rw [dispatchThen_succ, dispatchThen_succ]
    split_ifs
    · rfl
    · cases g.getNode nodeId with
      | none => rfl
      | some node =>
        refine congrArg (Program.ask _) (funext fun _ => ?_)
        rw [bind_apply, bind_apply]
        refine Program.Always.bind_congr ((Settles.executeNode hnested g model input stream nodeId
          node c _ hhop fun _ => trivial).always ?_)
        rintro n ⟨r, s'⟩ ⟨-, hadv⟩
        cases r with
        | error e => rfl
        | ok next =>
          refine ih next s' ?_
          have hmax := hadv.maxIterations
          have hcount := hadv.iterationCount
          simp only at hmax hcount
          omega

/-! ### Plan mode -/

/-- The question keeps the rule of `plan_mode`: a tool that is called only reads, and a run that is
started inside a run in `plan_mode` is in `plan_mode`. -/
def Step.PlanSafe (q : Step) : Prop :=
  match q.call with
  | .execute _ toolName _ => q.ctx.planMode = true → toolName ∈ planReadonlyTools
  | .start parent => parent = some true → q.ctx.planMode = true
  | _ => True

/-- The question is the capture after a tool node, in `plan_mode`. -/
def Step.capturesInPlanMode (q : Step) : Bool :=
  match q.call with
  | .execute .postActionCapture _ _ => q.ctx.planMode
  | _ => false

theorem Step.Lawful.safe_iff {q : Step} (h : q.Lawful) :
    q.PlanSafe ↔ q.capturesInPlanMode = false := by
  obtain ⟨c, ctx, call⟩ := q
  cases call with
  | execute site toolName args =>
    cases site with
    | postActionCapture =>
      have hname : toolName = "screenshot" := h
      have hwrites : toolName ∉ planReadonlyTools := by
        rw [hname]
        decide
      refine ⟨fun hsafe => Bool.eq_false_iff.mpr fun hplan => hwrites (hsafe hplan), ?_⟩
      exact fun hoff hplan => absurd hplan (Bool.eq_false_iff.mp hoff)
    | _ => exact ⟨fun _ => rfl, fun _ => h⟩
  | start parent => exact ⟨fun _ => rfl, fun _ => h⟩
  | _ => exact ⟨fun _ => rfl, fun _ => trivial⟩

/-- **Plan mode.** In every run, the rule of `plan_mode` holds of every step if and only if no tool
node captures a screenshot in `plan_mode` after its action. -/
theorem planSafe_iff (e : Entry) {t : List (Event Step.Answer)} {r : Except Stop Unit × Run}
    (ht : (executeGraph e).Traced t r) :
    (∀ ev ∈ t, ev.1.PlanSafe) ↔ ∀ ev ∈ t, ev.1.capturesInPlanMode = false := by
  obtain ⟨hlawful, -⟩ := (meets_executeGraph (B := 0) e).traced ht
  exact forall₂_congr fun ev hev => (hlawful ev hev).safe_iff

/-- A graph in `plan_mode` whose only tool reads a file, with or without a capture after it. -/
def readFile (postActionCapture : Bool) : AgentGraph where
  id := "g"
  nodes := [("s", { type := .start }),
    ("t", { type := .tool, toolName := "file_read", postActionCapture }),
    ("e", { type := .end_ })]
  edges := [{ sourceId := "s", targetId := "t" },
    { sourceId := "t", targetId := "e" }]
  startNodeId := "s"
  planMode := true
  nodup := by
    change List.Nodup ["s".toList, "t".toList, "e".toList]
    decide

/-- A run of a graph in `plan_mode`. -/
def planning (graph : AgentGraph) : Entry := { rt := { process := plainProcess }, graph }

/-- A run that only reads a file keeps the rule. -/
theorem planSafe_reading : (obligingRun {} (planning (readFile false))).1.isEmpty = false ∧
    ∀ ev ∈ (obligingRun {} (planning (readFile false))).1, ev.1.PlanSafe :=
  ⟨by decide +kernel, (planSafe_iff _ (traced_obligingRun _ _)).mpr (by decide +kernel)⟩

/-- A run of this graph captures a screenshot in `plan_mode`. -/
theorem not_planSafe : ¬ ∀ (e : Entry) (t : List (Event Step.Answer)) (r : Except Stop Unit × Run),
    (executeGraph e).Traced t r → ∀ ev ∈ t, ev.1.PlanSafe := by
  intro h
  let e := planning (readFile true)
  have hcapture : ((obligingRun {} e).1.any fun ev => ev.1.capturesInPlanMode) = true := by
    decide +kernel
  obtain ⟨ev, hev, hcaptures⟩ := List.any_eq_true.mp hcapture
  have ht := traced_obligingRun {} e
  have hlawful := ((meets_executeGraph (B := 0) e).traced ht).1 ev hev
  exact absurd (hlawful.safe_iff.mp (h e _ _ ht ev hev)) (by simp [hcaptures])

end AgentStudio.Execution

import AgentStudio.Execution.Conduct

/-!
# Properties that runs inherit

A property of programs is `Inherited` if it holds of every single question of an execution that
calls no tool, of the two ways to call a tool (`Exec.callTool` and `Exec.captureFrame`), and if the
ways to put programs together keep it. Then it is a conduct (`keeping`), and it holds of the
programs of all executors (`Keeps K`). So a run has it if the runs inside it have
(`inherited_runGraph`), and all runs have it (`inherited_executeGraph`), by recursion on the depth
that is left and the number of nodes.

The property knows nothing of the contexts: what depends on them is in `Execution/Audit.lean`.
`Execution/ToolUse.lean` is about one such property, that a tool is executed only after it has been
found.
-/

namespace AgentStudio.Execution

open PyText PyJson PyDict AgentStudio.Graph Programs

/-- The method `execute` of a tool is called. -/
def Call.isExecute : Call → Bool
  | .execute _ _ _ => true
  | _ => false

/-- The ways to put programs together keep the property, single questions have it, and so have the
calls of tools. -/
class Inherited (K : (α : Type) → Program Step.Answer α → Prop) : Prop where
  ret : ∀ {α : Type} (a : α), K α (.ret a)
  bind : ∀ {α β : Type} {p : Program Step.Answer α} {f : α → Program Step.Answer β},
    K α p → (∀ a, K β (f a)) → K β (p.bind f)
  ask : ∀ q : Step, q.call.isExecute = false → K q.Answer (.ask q .ret)
  gather : ∀ {α : Type} (c : Scope) (ctx : AgentContext) (ps : List (Program Step.Answer α)),
    (∀ p ∈ ps, K α p) → K (List α) (.gather ⟨c, ctx, .schedule⟩ id ps)
  callTool : ∀ site toolName args c s, K _ (Exec.callTool site toolName args c s)
  captureFrame : ∀ c s, K _ (Exec.captureFrame c s)

variable {K : (α : Type) → Program Step.Answer α → Prop} {α β : Type}

/-- The programs of an executor have the property. -/
def Keeps (K : (α : Type) → Program Step.Answer α → Prop) (x : Exec α) : Prop :=
  ∀ c s, K _ (x c s)

/-- The runs inside a run have the property. -/
def KeepsNested (K : (α : Type) → Program Step.Answer α → Prop) (nested : Nested) : Prop :=
  ∀ rt g input ctx parent up, K _ (nested rt g input ctx parent up)

namespace Keeps

/-! ### Executors that are put together -/

theorem ite {p : Prop} [Decidable p] {x y : Exec α} (hx : Keeps K x) (hy : Keeps K y) :
    Keeps K (if p then x else y) := by
  split_ifs
  · exact hx
  · exact hy

theorem onBehalf (hop : Hop) {x : Exec α} (h : Keeps K x) : Keeps K (Exec.onBehalf hop x) :=
  fun _ s => h _ s

theorem consumed {x : Exec α} (h : Keeps K x) : Keeps K (Exec.consumed x) := fun _ s => h _ s

variable [Inherited K]

theorem pure (a : α) : Keeps K (Pure.pure a : Exec α) := fun _ _ => Inherited.ret _

theorem scope : Keeps K Exec.scope := fun _ _ => Inherited.ret _

theorem ctx : Keeps K Exec.ctx := fun _ _ => Inherited.ret _

theorem modify (f : AgentContext → AgentContext) : Keeps K (Exec.modify f) :=
  fun _ _ => Inherited.ret _

theorem stop (e : Stop) : Keeps K (Exec.stop e : Exec α) := fun _ _ => Inherited.ret _

theorem bind {x : Exec α} {f : α → Exec β} (hx : Keeps K x) (hf : ∀ a, Keeps K (f a)) :
    Keeps K (x >>= f) := fun c s => Inherited.bind (hx c s) fun r => by
  obtain ⟨e | a, s'⟩ := r
  · exact Inherited.ret _
  · exact hf a c s'

theorem ask {call : Call} (h : call.isExecute = false) : Keeps K (Exec.ask call) := fun c s =>
  Inherited.bind (Inherited.ask ⟨c, s.ctx, call⟩ h) fun _ => Inherited.ret _

theorem body {x : Exec Unit} (h : Keeps K x) : Keeps K (Exec.body x) := fun c s =>
  Inherited.bind (h c s) fun r => by
    obtain ⟨e | a, s'⟩ := r
    · cases e <;> exact Inherited.ret _
    · exact Inherited.ret _

theorem afterAnswer {x : Exec Unit} (h : Keeps K x) : Keeps K (Exec.afterAnswer x) := fun c s =>
  Inherited.bind (h _ s) fun r => by
    have hleave (s' : Run) (e : Stop) : K (Except Stop Unit × Run)
        (.ask ⟨{ c with hop := Exec.answeredHop c.hop }, s'.ctx, .leave⟩
          fun _ => .ret (.error e, s')) :=
      Inherited.bind (p := .ask ⟨{ c with hop := Exec.answeredHop c.hop }, s'.ctx, .leave⟩ .ret)
        (Inherited.ask _ rfl) fun _ => Inherited.ret _
    obtain ⟨e | a, s'⟩ := r
    · cases e with
      | returned => exact Inherited.ret _
      | ended | raised => exact hleave s' _
    · exact Inherited.ret _

theorem gatherAll {xs : List (Exec α)} (h : ∀ x ∈ xs, Keeps K x) : Keeps K (Exec.gatherAll xs) :=
  fun c s => Inherited.bind (Inherited.gather _ _ _ fun p hp => by
    obtain ⟨x, hx, rfl⟩ := List.mem_map.mp hp
    exact Inherited.bind (h x hx c s) fun _ => Inherited.ret _) fun _ => Inherited.ret _

theorem gatherMap {ι : Type} {f : ι → Exec α} (hf : ∀ i, Keeps K (f i)) (is : List ι) :
    Keeps K (Exec.gatherAll (is.map f)) := .gatherAll fun x hx => by
  obtain ⟨i, -, rfl⟩ := List.mem_map.mp hx
  exact hf i

theorem runNested {p : Program Step.Answer (Except Stop Unit × Run)} (h : K _ p) :
    Keeps K (Exec.runNested p) := fun _ _ => Inherited.bind h fun r => by
  obtain ⟨e | a, sub⟩ := r <;> exact Inherited.ret _

/-! ### What executors do -/

theorem absorb (events : List AgentEvent) : Keeps K (Exec.absorb events) :=
  fun _ _ => Inherited.ret _

theorem emit (e : AgentEvent) : Keeps K (Exec.emit e) := by
  refine .bind (.ask rfl) fun _ => .bind (.absorb [e]) fun _ => .ite (.bind .scope fun c => ?_)
    (.pure _)
  cases c.errorStops with
  | none => exact .pure _
  | some runs => exact .stop _

theorem addMessage (m : Message) : Keeps K (Exec.addMessage m) :=
  .bind .scope fun _ => .bind .ctx fun _ => .ite (.bind (.ask rfl) fun _ => .modify _) (.modify _)

theorem execParallelTool (call : Str × Dict × Str) : Keeps K (Exec.execParallelTool call) := by
  obtain ⟨toolName, args, id⟩ := call
  refine .bind (.ask rfl) fun o => .bind .scope fun c => .bind (.bind .ctx fun _ =>
    .bind .scope fun _ => .pure _) fun policy => .bind .ctx fun ctx => ?_
  dsimp only
  generalize Runtime.parallelToolGate _ _ _ _ _ _ = gate
  cases gate.passed with
  | none => exact .pure _
  | some args => exact .bind (Inherited.callTool _ _ _) fun _ => .pure _

theorem runBranch {nested : Nested} (hnested : KeepsNested K nested) (g : AgentGraph)
    (mergeId parallelId : Str) (branch : ℕ × Edge) :
    Keeps K (Exec.runBranch nested g mergeId parallelId branch) := by
  refine .bind .scope fun c => .bind .ctx fun ctx => ?_
  dsimp only
  split
  · exact .pure _
  · refine fun c s => Inherited.bind (hnested _ _ _ _ _ _) fun r => ?_
    obtain ⟨e | a, run⟩ := r <;> exact Inherited.ret _

end Keeps

/-! ### The conduct -/

/-- The conduct of executors whose programs have the property. -/
abbrev keeping (K : (α : Type) → Program Step.Answer α → Prop) : Conduct :=
  ⟨fun _ _ _ x => Keeps K x, KeepsNested K⟩

theorem Call.IsPlain.isExecute {call : Call} (h : call.IsPlain) : call.isExecute = false := by
  cases call <;> first | rfl | exact h.elim

variable [Inherited K] {nested : Nested} {H : Hop → Prop} {P : Prop}

instance routine_keeping : (keeping K).Routine where
  pure := Keeps.pure
  stop := Keeps.stop
  bind := Keeps.bind
  scope := Keeps.scope
  ctx := Keeps.ctx
  modify _ _ := Keeps.modify _
  addMessage _ := Keeps.addMessage _
  modifyMessages _ := Keeps.modify _
  emit := Keeps.emit
  captureFrame := Inherited.captureFrame
  assertionFn := Keeps.ask rfl
  ask h := Keeps.ask h.isExecute
  readPlan h := Keeps.bind .ctx h
  replaceMessages _ _ := Keeps.modify _
  absorb := Keeps.absorb
  body := Keeps.body
  consumed := Keeps.consumed
  onBehalf _ _ h := Keeps.onBehalf _ h
  planBlocks htrue hfalse := Keeps.bind (Keeps.bind .ctx fun _ => .pure _) fun
    | true => htrue
    | false => hfalse
  callTool _ _ _ := Inherited.callTool _ _
  execParallelTools _ := Keeps.gatherMap Keeps.execParallelTool
  runNested hnested _ _ _ _ _ _ _ := Keeps.runNested (hnested _ _ _ _ _ _)
  runBranches hnested _ _ _ := Keeps.gatherMap (Keeps.runBranch hnested _ _ _)

theorem keeps_requestAnswer (model : Str) (stream : Bool) :
    (keeping K).Does H P (Exec.requestAnswer model stream) := by
  have hfallback (r : LLMResponse) (call : ToolCall) :
      (keeping K).Does H P (Exec.streamFallback model r call) := by
    refine .ite (fun _ => .bind (Keeps.ask rfl) fun a => ?_) fun _ => .pure _
    cases a <;> exact .pure _
  refine .bind (Keeps.ask rfl) fun a => ?_
  cases a with
  | failed error usage => exact .pure _
  | answered r =>
    exact .ite (fun _ => .bind (.foldl hfallback _ _) fun _ => .pure _) fun _ => .pure _

theorem keeps_storeAnswer (node : NodeConfig) (r : LLMResponse) :
    (keeping K).Does H P (Exec.storeAnswer node r) := by
  refine .bind (.structuredContent _ _) fun content => .bind (Keeps.addMessage _) fun _ =>
    .bind (.truncationRecovery _) fun _ => ?_
  split
  · exact .emit _
  · exact .ite (fun _ => .bind (Keeps.ask rfl) fun _ => .bind (Keeps.modify _) fun _ => .emit _)
      fun _ => .emit _

theorem keeps_followAnswer (hnested : KeepsNested K nested) (node : NodeConfig) (g : AgentGraph)
    (model : Str) (r : LLMResponse) :
    (keeping K).Does H P (Exec.followAnswer nested node g model r) :=
  .bind (keeps_storeAnswer _ _) fun _ => .ite (fun _ => .pure _) fun _ =>
    .bind (Keeps.modify _) fun _ => .bind .ctx fun _ => .ite (fun _ => .abort _) fun _ =>
      .bind (.executeToolCalls hnested _ _) fun _ => .ite (fun _ => .pure _) fun _ =>
        .ite (fun _ => .abort _) fun _ => .ite (fun _ => .selfRepair _ _ _ _) fun _ => .pure _

instance answering_keeping : (keeping K).Answering where
  requestAnswer _ := keeps_requestAnswer
  followAnswer hnested _ _ _ _ _ := Keeps.afterAnswer (keeps_followAnswer
    (H := fun _ => True) (P := True) hnested _ _ _ _)

theorem keeps_recordUsage : (keeping K).Does (· = .dispatched) P Exec.recordUsage := by
  refine .bind .scope fun c => ?_
  split
  · exact .pure _
  · exact .bind .ctx fun ctx => .bind (Keeps.ask rfl) fun status =>
      .bind (.pruneMessages (by simp) _) fun _ => .checkBudget _

instance dispatching_keeping : (keeping K).Dispatching where
  dispatchLlm hnested _ _ _ _ _ := by
    refine .bind (.consumed ?_) fun _ => .bind keeps_recordUsage fun _ =>
      .afterLlm hnested (by simp) _ _ _ _ _
    exact Conduct.Does.executeLlmNode (D := keeping K) (H := fun _ => False) (P := True) hnested
      (by simp) _ _ _ _

/-! ### Runs -/

theorem inherited_runGraph (hnested : KeepsNested K nested) (e : Entry)
    (parent : Option Bool) (up : Option ℕ) : K _ (runGraph nested e parent up) := by
  have hinner : Keeps K (Exec.executeGraphInner nested e.graph e.input e.maxIterations parent
      e.stream) := .bind (.bind .scope fun _ => .bind (.modify _) fun _ => .ask rfl) fun _ =>
    Conduct.Does.afterEntry (D := keeping K) hnested _ _ _
  exact Inherited.bind (hinner _ _) fun _ => Inherited.ret _

theorem inherited_branchesOnly (nodes : ℕ) : KeepsNested K (branchesOnly nodes) := by
  induction nodes with
  | zero => exact fun _ _ _ _ _ _ => Inherited.ret _
  | succ nodes ih => exact fun _ _ _ _ _ _ => inherited_runGraph ih _ _ _

theorem inherited_nestedAt (depth : ℕ) (g : AgentGraph) : KeepsNested K (nestedAt depth g) := by
  induction depth generalizing g with
  | zero => exact inherited_branchesOnly _
  | succ depth ih => exact fun _ g' _ _ _ _ => inherited_runGraph (ih g') _ _ _

/-- **All runs.** A property of programs that is inherited holds of every run. -/
theorem inherited_executeGraph (e : Entry) : K _ (executeGraph e) :=
  inherited_runGraph (inherited_nestedAt _ _) e none none

end AgentStudio.Execution

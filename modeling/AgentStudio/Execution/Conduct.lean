import AgentStudio.Execution.Audit

/-!
# Conducts of executors

A `Conduct` is a property of executors, with one of the runs inside a run. The first may suppose on
whose behalf an executor runs, and what follows if `plan_mode` is on. If the ways to put executors
together keep it, and single questions and changes of the context have it, then the executors of all
nodes do: of the tool nodes and the tool calls (`Conduct.Routine`), of the nodes that ask an LLM
once LLM nodes do (`Conduct.Answering`), and of the dispatch loop once it does with its LLM nodes
(`Conduct.Dispatching`). What a node may do is said once, and each property derives from it.

`Execution/RunAudit.lean` is about such a conduct, that executors settle, and
`Execution/Inherited.lean` about those that know nothing of the contexts.
-/

namespace AgentStudio.Execution

open PyText PyJson PyDict AgentStudio.Graph Programs

/-- A property of executors, and one of the runs inside a run. -/
structure Conduct where
  does : (Hop → Prop) → Prop → (α : Type) → Exec α → Prop
  nests : Nested → Prop

/-- The executor has the property if it runs on behalf of one of some things, and `plan_mode` is
off unless a condition is met. -/
def Conduct.Does (D : Conduct) (H : Hop → Prop) (P : Prop) {α : Type} (x : Exec α) : Prop :=
  D.does H P α x

/-- The ways to put executors together keep the conduct, and so do the notes of results. -/
class Conduct.Noting (D : Conduct) : Prop where
  pure : ∀ {α : Type} {H P} (a : α), D.Does H P (Pure.pure a : Exec α)
  stop : ∀ {α : Type} {H P} (e : Stop), D.Does H P (Exec.stop e : Exec α)
  bind : ∀ {α β : Type} {H P} {x : Exec α} {f : α → Exec β},
    D.Does H P x → (∀ a, D.Does H P (f a)) → D.Does H P (x >>= f)
  scope : ∀ {H P}, D.Does H P Exec.scope
  ctx : ∀ {H P}, D.Does H P Exec.ctx
  modify : ∀ {H P} {f : AgentContext → AgentContext},
    (∀ ctx, (f ctx).messages = ctx.messages) → (∀ ctx, Advances ctx (f ctx)) →
      D.Does H P (Exec.modify f)
  addMessage : ∀ {H P} {m : Message}, m.usage = none → D.Does H P (Exec.addMessage m)
  modifyMessages : ∀ {H P} {f : List Message → List Message}, (∀ ms, spent (f ms) = spent ms) →
    D.Does H P (Exec.modify fun ctx => { ctx with messages := f ctx.messages })
  emit : ∀ {H P} (e : AgentEvent), D.Does H P (Exec.emit e)
  captureFrame : ∀ {H P}, D.Does H P Exec.captureFrame
  assertionFn : ∀ {H P}, D.Does H P (Exec.ask .assertionFn)

/-- Single questions keep the conduct, and so do tools that `plan_mode` does not forbid, and the
runs inside a run. -/
class Conduct.Routine (D : Conduct) : Prop extends D.Noting where
  ask : ∀ {H P} {call : Call}, call.IsPlain → D.Does H P (Exec.ask call)
  readPlan : ∀ {α : Type} {H P} {f : AgentContext → Exec α},
    (∀ ctx, D.Does H (P ∧ ctx.planMode = true) (f ctx)) → D.Does H P (Exec.ctx >>= f)
  replaceMessages : ∀ {H P}, (∀ hop, H hop → hop ≠ .answered) → ∀ messages,
    D.Does H P (Exec.modify ({ · with messages }))
  absorb : ∀ {H P} (events : List AgentEvent), D.Does H P (Exec.absorb events)
  body : ∀ {H P} {x : Exec Unit}, D.Does H P x → D.Does H P (Exec.body x)
  consumed : ∀ {α : Type} {H P} {x : Exec α}, D.Does H P x → D.Does H P (Exec.consumed x)
  onBehalf : ∀ {α : Type} {H P} {hop : Hop} {x : Exec α}, hop ≠ .answered →
    (∀ hop', H hop' → hop' ≠ .answered) → D.Does (· = hop) P x → D.Does H P (Exec.onBehalf hop x)
  planBlocks : ∀ {α : Type} {H P} {toolName : Str} {f : Bool → Exec α}, D.Does H P (f true) →
    D.Does H (toolName ∈ planReadonlyTools) (f false) →
      D.Does H P (Exec.planBlocks toolName >>= f)
  callTool : ∀ {H P} {site : ToolSite}, site ≠ .postActionCapture → ∀ {toolName : Str},
    (P → toolName ∈ planReadonlyTools) → ∀ args, D.Does H P (Exec.callTool site toolName args)
  execParallelTools : ∀ {H P}, ¬P → ∀ calls : List (Str × Dict × Str),
    D.Does H P (Exec.gatherAll (calls.map Exec.execParallelTool))
  runNested : ∀ {H P} {nested : Nested}, D.nests nested → ∀ rt g input ctx parent up,
    (parent = some true → ctx.planMode = true) →
      D.Does H P (Exec.runNested (nested rt g input ctx parent up))
  runBranches : ∀ {H P} {nested : Nested}, D.nests nested →
    ∀ g mergeId parallelId (branches : List (ℕ × Edge)),
      D.Does H P (Exec.gatherAll (branches.map (Exec.runBranch nested g mergeId parallelId)))

/-- Neither the dispatch loop nor what follows its answer. -/
def Elsewhere (hop : Hop) : Prop := hop ≠ .dispatched ∧ hop ≠ .answered

/-- Answers on behalf of something else than the dispatch loop keep the conduct, and so does what
follows them. -/
class Conduct.Answering (D : Conduct) : Prop extends D.Routine where
  requestAnswer : ∀ {H P}, (∀ hop, H hop → Elsewhere hop) → ∀ model stream,
    D.Does H P (Exec.requestAnswer model stream)
  followAnswer : ∀ {H P} {nested : Nested}, D.nests nested → (∀ hop, H hop → Elsewhere hop) →
    ∀ node g model r, D.Does H P (Exec.afterAnswer (Exec.followAnswer nested node g model r))

/-- The LLM nodes of the dispatch loop keep the conduct, with the record of their usage. -/
class Conduct.Dispatching (D : Conduct) : Prop extends D.Answering where
  dispatchLlm : ∀ {nested : Nested}, D.nests nested → ∀ g model stream nodeId node,
    D.Does (· = .dispatched) True (Exec.dispatchLlm nested g model stream nodeId node)

namespace Conduct.Does

export Conduct.Noting (pure stop bind scope ctx modify addMessage modifyMessages emit captureFrame
  assertionFn)

export Conduct.Routine (ask readPlan replaceMessages absorb body consumed onBehalf planBlocks
  callTool execParallelTools runNested runBranches)

export Conduct.Answering (requestAnswer followAnswer)

export Conduct.Dispatching (dispatchLlm)

variable {D : Conduct} {α β : Type} {H : Hop → Prop} {P : Prop} {nested : Nested}

/-! ### Executors that are put together -/

theorem ite {p : Prop} [Decidable p] {x y : Exec α} (hx : p → D.Does H P x)
    (hy : ¬p → D.Does H P y) : D.Does H P (if p then x else y) := by
  split_ifs with h
  · exact hx h
  · exact hy h

/-! ### What executors do -/

section Noting

variable [D.Noting]

theorem each (xs : List α) {f : α → Exec Unit} (hf : ∀ x, D.Does H P (f x)) :
    D.Does H P (Exec.each xs f) := by
  induction xs with
  | nil => exact .pure ()
  | cons x xs ih => exact .bind (hf x) fun _ => ih

theorem foldl {f : β → α → Exec β} (hf : ∀ b x, D.Does H P (f b x)) (b : β) (xs : List α) :
    D.Does H P (Exec.foldl f b xs) := by
  induction xs generalizing b with
  | nil => exact .pure b
  | cons x xs ih => exact .bind (hf b x) fun b => ih b

theorem vars : D.Does H P Exec.vars := .bind .ctx fun _ => .bind .scope fun _ => .pure _

theorem policy : D.Does H P Exec.policy := .bind .ctx fun _ => .bind .scope fun _ => .pure _

theorem interpolate (text : Str) : D.Does H P (Exec.interpolate text) :=
  .bind .scope fun _ => .bind .vars fun _ => .pure _

theorem setError (text : Str) : D.Does H P (Exec.setError text) :=
  .modify (fun _ => rfl) fun _ => ⟨rfl, le_rfl, id⟩

theorem setStopReason (reason : String) : D.Does H P (Exec.setStopReason reason) :=
  .modify (fun _ => rfl) fun _ => ⟨rfl, le_rfl, id⟩

theorem fail (text : Str) : D.Does H P (Exec.fail text : Exec α) :=
  .bind (.emit _) fun _ => .stop _

theorem abort (text : Str) : D.Does H P (Exec.abort text : Exec α) :=
  .bind (.setError text) fun _ => .fail text

theorem setVar (name : Str) (value : Json) : D.Does H P (Exec.setVar name value) :=
  .bind .vars fun _ => .modify (fun _ => rfl) fun _ => ⟨rfl, le_rfl, id⟩

theorem modifyLast {f : Message → Message} (hf : ∀ m, (f m).usage = m.usage) :
    D.Does H P (Exec.modifyLast f) := by
  refine .modifyMessages (f := fun ms => ms.dropLast ++ (ms.getLast?.map f).toList) fun ms => ?_
  rw [spent_modifyLast]
  cases ms.getLast? <;> simp [hf]

theorem pass (gate : Runtime.Gate α) : D.Does H P (Exec.pass gate) :=
  .bind (.setError _) fun _ => .each _ fun _ => .emit _

theorem answerCall (result toolCallId : Str) : D.Does H P (Exec.answerCall result toolCallId) :=
  .bind (.addMessage rfl) fun _ => .emit _

theorem escalateRepeatToolError (toolName result : Str) :
    D.Does H P (Exec.escalateRepeatToolError toolName result) :=
  .bind .ctx fun _ => .bind (.modify (fun _ => rfl) fun _ => ⟨rfl, le_rfl, id⟩) fun _ =>
    .ite (fun _ => .pure _) fun _ => .pure _

theorem mapInput (input : Str) (m : Str × Str) : D.Does H P (Exec.mapInput input m) :=
  .bind .vars fun _ => .ite (fun _ => .bind .scope fun _ => .pure _) fun _ =>
    .bind (.setVar _ _) fun _ => .pure _

theorem noteResult (node : NodeConfig) (result id : Str) (e : AgentEvent) (a : α) :
    D.Does H P (do
      Exec.addMessage { role := .tool, content := result, toolCallId := id }
      Exec.modifyLast ({ · with nodeId := node.label })
      Exec.emit e
      return a) :=
  .bind (.addMessage rfl) fun _ => .bind (.modifyLast fun _ => rfl) fun _ =>
    .bind (.emit _) fun _ => .pure _

theorem storeResult (node : NodeConfig) (toolName id : Str) (answer : ToolAnswer Str) :
    D.Does H P (Exec.storeResult node toolName id answer) := by
  refine .ite (fun _ => ?_) fun _ => .ite (fun _ => ?_) fun _ => .noteResult _ _ _ _ _
  · refine .bind (.modify (fun _ => rfl) fun _ => ⟨rfl, le_rfl, fun h => absurd h (by simp)⟩)
      fun _ => .noteResult _ _ _ _ _
  · exact .bind (.escalateRepeatToolError _ _) fun _ => .noteResult _ _ _ _ _

theorem storeParallel (node : NodeConfig) (errors : List Str)
    (r : (Str × Dict × Str) × (Str × Bool)) : D.Does H P (Exec.storeParallel node errors r) := by
  obtain ⟨⟨toolName, args, id⟩, result, failed⟩ := r
  exact .ite (fun _ => .bind (.escalateRepeatToolError _ _) fun _ => .noteResult _ _ _ _ _)
    fun _ => .noteResult _ _ _ _ _

theorem postActionAssert (node : NodeConfig) : D.Does H P (Exec.postActionAssert node) :=
  .bind .captureFrame fun _ => .bind (.emit _) fun _ => .bind .scope fun _ =>
    .ite (fun _ => .bind .assertionFn fun _ => .ite (fun _ => .emit _) fun _ => .pure _)
      fun _ => .pure _

theorem applyToolOutputMapping (result : Str) (m : Str × Str) :
    D.Does H P (Exec.applyToolOutputMapping result m) := by
  refine .ite (fun _ => .pure _) fun _ => .ite (fun _ => .setVar _ _) fun _ => ?_
  split <;> exact .setVar _ _

theorem followToolNode (node : NodeConfig) (g : AgentGraph) (answer : ToolAnswer Str) :
    D.Does H P (Exec.followToolNode node g answer) := by
  refine .bind (.addMessage rfl) fun _ => .bind (.modifyLast fun _ => rfl) fun _ =>
    .bind (.emit _) fun _ => .ite (fun _ => .abort _) fun _ => ?_
  split
  · exact .stop _
  · exact .bind (.each _ fun _ => .applyToolOutputMapping _ _) fun _ =>
      .ite (fun _ => .postActionAssert _) fun _ => .pure _

end Noting

section Routine

variable [D.Routine]

/-! ### Sub-graphs -/

theorem executeSubGraph (hnested : D.nests nested) (params : Vars) :
    D.Does H P (Exec.executeSubGraph nested params) := by
  have hrefused (text : Str) : D.Does H P
      (do Exec.emit ⟨.error, text⟩; return [⟨.error, text⟩] : Exec (List AgentEvent)) :=
    .bind (.emit _) fun _ => .pure _
  refine .bind .scope fun c => .ite (fun _ => hrefused _) fun _ => ?_
  split
  · exact hrefused _
  · split
    · exact .bind (.foldl mapInput _ _) fun _ => .bind .vars fun _ => .bind .ctx fun _ =>
        .bind .scope fun _ => .bind (.runNested hnested _ _ _ _ _ _ Option.some.inj) fun _ =>
        .bind (.absorb _) fun _ => .bind (.each _ fun _ => .setVar _ _) fun _ => .pure _
    · exact .stop _

/-! ### Before the answer -/

private theorem artifactCompaction (hH : ∀ hop, H hop → hop ≠ .answered) : D.Does H P (do
    match ← Exec.ask .artifactCompaction with
    | none => Pure.pure ()
    | some compaction => do
      Exec.modify ({ · with messages := compaction.messages })
      Exec.emit ⟨.think, "Proactive compaction triggered"⟩) := by
  refine .bind (.ask trivial) fun a => ?_
  cases a with
  | none => exact .pure _
  | some compaction => exact .bind (.replaceMessages hH _) fun _ => .emit _

theorem prepareArtifacts (hH : ∀ hop, H hop → hop ≠ .answered) :
    D.Does H P Exec.prepareArtifacts := by
  refine .bind .scope fun c => .ite (fun _ => ?_) fun _ => .pure _
  have hcompaction := artifactCompaction (D := D) (P := P) hH
  refine .bind (.modify (fun _ => rfl) fun _ => ⟨rfl, le_rfl, id⟩) fun _ => .bind .ctx fun ctx =>
    .ite (fun _ => ?_) fun _ => hcompaction
  exact .bind (.ask trivial) fun summary =>
    .ite (fun _ => .bind (.addMessage rfl) fun _ => hcompaction) fun _ => hcompaction

theorem safetyGate (gate : Runtime.SafetyVerdict → Runtime.Ask → Str →
    Option Runtime.ConfirmationPolicy → Runtime.Gate Unit) : D.Does H P (Exec.safetyGate gate) :=
  .bind .scope fun _ => .ite (fun _ => .bind (.ask trivial) fun _ => .bind (.ask trivial) fun _ =>
    .bind .ctx fun _ => .bind .policy fun _ => .bind (.setError _) fun _ => .each _ fun _ =>
      .bind (.emit _) fun _ => .ite (fun _ => .stop _) fun _ => .pure _) fun _ => .pure _

/-! ### Tool calls -/

theorem admitInteractive (toolName : Str) (params : Dict) (nodeLabel : Str) :
    D.Does H P (Exec.admitInteractive toolName params nodeLabel) := by
  refine .bind (.ask trivial) fun o => ?_
  split
  · exact .pure _
  · exact .bind (.ask trivial) fun _ => .bind .scope fun _ => .bind .policy fun _ =>
      .bind .ctx fun _ => .ite (fun _ => .pure _) fun _ => .bind (.ask trivial) fun _ => .pure _

theorem executeRegistration (node : NodeConfig) (toolName : Str) (args : Dict) (id : Str) :
    D.Does H P (Exec.executeRegistration node toolName args id) := by
  refine .bind (.ask trivial) fun o => .bind .ctx fun ctx => ?_
  dsimp only
  generalize Runtime.registerToolGate _ _ _ _ _ = gate
  cases gate.passed with
  | none => exact .bind (.addMessage rfl) fun _ => .pass _
  | some args =>
    exact .ite (fun _ => .bind (.ask trivial) fun _ => .answerCall _ _)
      fun _ => .bind (.ask trivial) fun _ => .answerCall _ _

theorem executeFunction (node : NodeConfig) {toolName : Str} (args : Dict) (id : Str)
    (h : P → toolName ∈ planReadonlyTools) :
    D.Does H P (Exec.executeFunction node toolName args id) := by
  refine .bind (.emit _) fun _ => .bind (.admitInteractive _ _ _)
    fun ⟨o, readmission, reaction⟩ =>
    .bind .scope fun c => .bind .policy fun policy => .bind .ctx fun ctx => ?_
  dsimp only
  generalize Runtime.toolCallGate _ _ _ _ _ _ _ _ _ = gate
  cases gate.passed with
  | some args =>
    exact .bind (.pass _) fun _ => .bind (.callTool (by simp) h _)
      fun _ => .storeResult _ _ _ _
  | none =>
    exact .ite (fun _ => .bind (.addMessage rfl) fun _ => .bind (.pass _) fun _ => .pure _)
      fun _ => .bind (.pass _) fun _ => .pure _

theorem executeToolCall (hnested : D.nests nested) (node : NodeConfig)
    (errors : List Str) (call : ToolCall) :
    D.Does H P (Exec.executeToolCall nested node errors call) := by
  unfold Exec.executeToolCall
  split
  · exact .bind (.setError _) fun _ => .fail _
  · refine .planBlocks (.bind (.answerCall _ _) fun _ => .pure _) ?_
    refine .ite (fun h => absurd h (by simp)) fun _ => .ite (fun _ => ?_) fun _ =>
      .ite (fun _ => ?_) fun _ => ?_
    · exact .bind (.executeSubGraph hnested _) fun _ => .pure _
    · exact .bind (.executeRegistration _ _ _ _) fun _ => .pure _
    · exact .bind (.executeFunction _ _ _ id) fun _ => .pure _

theorem executeParallel (hP : ¬P) (node : NodeConfig) (calls : List (Str × Dict × Str)) :
    D.Does H P (Exec.executeParallel node calls) :=
  .bind (.each _ fun _ => .emit _) fun _ => .bind (.execParallelTools hP _) fun _ =>
    .foldl (storeParallel node) _ _

theorem executeToolCalls (hnested : D.nests nested) (node : NodeConfig)
    (calls : List ToolCall) : D.Does H P (Exec.executeToolCalls nested node calls) := by
  refine .readPlan fun ctx => .ite (fun hoff => ?_) fun _ =>
    .foldl (executeToolCall hnested node) _ _
  split
  · exact .bind (.setError _) fun _ => .fail _
  · exact .executeParallel (fun h => by simp [h.2] at hoff) _ _
  · exact .foldl (executeToolCall hnested node) _ _

/-! ### Self-repair -/

theorem executeRepairCall (node : NodeConfig) (errors : List Str) (call : ToolCall) :
    D.Does H P (Exec.executeRepairCall node errors call) := by
  unfold Exec.executeRepairCall
  split
  · exact .pure _
  · next toolName args _ =>
    refine .bind (.emit _) fun _ => .planBlocks (.bind (.answerCall _ _) fun _ => .pure _) ?_
    refine .bind (.ask trivial) fun o => .bind (.ask trivial) fun reaction => .bind .scope fun c =>
      .bind .policy fun policy => .bind .ctx fun ctx => ?_
    dsimp only
    generalize Runtime.selfRepairToolGate _ _ _ _ _ _ _ _ = gate
    cases gate.passed with
    | some args =>
      exact .bind (.pass _) fun _ => .bind (.callTool (by simp) id _) fun _ =>
        .bind (.answerCall _ _) fun _ => .pure _
    | none =>
      have hdenied : D.Does H (toolName ∈ planReadonlyTools) (do
          Exec.pass gate
          if gate.denial = [] then Exec.stop .returned
          return errors ++ [toolName ++ ": " ++ gate.denial]) :=
        .bind (.pass _) fun _ => .ite (fun _ => .bind (.stop _) fun _ => .pure _) fun _ => .pure _
      exact .ite (fun _ => .bind (.addMessage rfl) fun _ => hdenied) fun _ => hdenied

theorem requestRepair (node : NodeConfig) (model : Str) (errors : List Str) :
    D.Does H P (Exec.requestRepair node model errors) := by
  refine .bind (.emit _) fun _ => .bind (.addMessage rfl) fun _ => .bind .scope fun c =>
    .bind (.safetyGate _) fun _ => .bind (.ask trivial) fun reason => ?_
  cases reason with
  | some reason => exact .abort _
  | none =>
    refine .bind (.ask trivial) fun answer => ?_
    cases answer <;> exact .pure _

theorem selfRepair (node : NodeConfig) (model : Str) (attempts : ℕ) (errors : List Str) :
    D.Does H P (Exec.selfRepair node model attempts errors) := by
  induction attempts generalizing errors with
  | zero => exact .pure _
  | succ attempts ih =>
    refine .bind (.requestRepair _ _ _) fun answer => ?_
    cases answer with
    | none => exact ih _
    | some r =>
      refine .bind (.addMessage rfl) fun _ => .ite (fun _ => .emit _) fun _ => ?_
      exact .bind (.foldl (executeRepairCall node) _ _) fun _ =>
        .ite (fun _ => .emit _) fun _ => ih _

/-! ### The answer -/

theorem structuredContent (node : NodeConfig) (content : Str) :
    D.Does H P (Exec.structuredContent node content) := by
  refine .ite (fun _ => .bind (.ask trivial) fun part => ?_) fun _ => .pure _
  cases part with
  | none => exact .pure _
  | some part => exact .bind (.setVar _ _) fun _ => .pure _

theorem truncationRecovery (content : Str) : D.Does H P (Exec.truncationRecovery content) :=
  .bind .scope fun _ => .ite (fun _ => .bind (.ask trivial) fun _ => .each _ fun _ =>
    .addMessage rfl) fun _ => .pure _

/-! ### Nodes that ask no LLM -/

theorem executeToolNode (hnested : D.nests nested) (node : NodeConfig) (g : AgentGraph) :
    D.Does H P (Exec.executeToolNode nested node g) := by
  refine .body (.ite (fun _ => .bind (.executeSubGraph hnested _) fun _ => .pure _) fun _ =>
    .bind .vars fun _ => .bind .scope fun _ => .ite (fun _ => .abort _) fun _ =>
      .planBlocks (.abort _) ?_)
  refine .bind (.admitInteractive _ _ _) fun ⟨o, readmission, reaction⟩ =>
    .bind .policy fun policy => .bind .ctx fun ctx => ?_
  dsimp only
  generalize Runtime.toolNodeGate _ _ _ _ _ _ _ _ _ = gate
  refine .bind (.pass _) fun _ => ?_
  cases gate.passed with
  | none => exact .pure _
  | some args => exact .bind (.callTool (by simp) id _) fun _ => .followToolNode _ _ _

theorem executeLoopNode (node : NodeConfig) : D.Does H P (Exec.executeLoopNode node) :=
  .bind .vars fun _ => .bind .scope fun _ => .bind .ctx fun _ =>
    .ite (fun _ => .bind (.setVar _ _) fun _ => .bind (.emit _) fun _ => .pure _) fun _ =>
      .bind (.emit _) fun _ => .pure _

theorem executeItems (hnested : D.nests nested) (node : NodeConfig) (outputVar : Str)
    (results : List Json) (index : ℕ) (items : List Json) :
    D.Does H P (Exec.executeItems nested node outputVar results index items) := by
  induction items generalizing results index with
  | nil => exact .pure _
  | cons item items ih =>
    exact .bind (.setVar _ _) fun _ => .bind (.setVar _ _) fun _ =>
      .bind (.executeSubGraph hnested _) fun _ =>
        .ite (fun _ => .bind (.setVar _ _) fun _ => .stop _) fun _ =>
          .bind (.setVar _ _) fun _ => ih _ _

theorem executeIterationNode (hnested : D.nests nested) (node : NodeConfig) :
    D.Does H P (Exec.executeIterationNode nested node) := by
  refine .body (.bind .scope fun c => ?_)
  dsimp only
  split
  · exact .stop _
  · refine .bind .vars fun vars => ?_
    split
    · exact .fail _
    · exact .fail _
    · exact .ite (fun _ => .fail _) fun _ =>
        .bind (.executeItems hnested _ _ _ _ _) fun _ => .emit _
    · exact .fail _

theorem executeVariableAggregatorNode (node : NodeConfig) :
    D.Does H P (Exec.executeVariableAggregatorNode node) := by
  refine .body (.bind .vars fun vars => ?_)
  split
  · exact .fail _
  · exact .bind (.setVar _ _) fun _ => .bind .scope fun _ => .emit _

theorem executeHumanInputNode (node : NodeConfig) :
    D.Does H P (Exec.executeHumanInputNode node) := by
  have hanswered (e : AgentEvent) : D.Does H P (do Exec.emit e; return false) :=
    .bind (.emit _) fun _ => .pure _
  have hdecided (f : HumanDecision → Exec Bool) (hf : ∀ d, D.Does H P (f d)) : D.Does H P (do
      Exec.emit ⟨.safetyApproval, paramStr node "prompt"⟩
      f (← Exec.ask .humanInput)) := .bind (.emit _) fun _ => .bind (.ask trivial) fun d => hf d
  refine .bind .scope fun c => .bind .vars fun vars => ?_
  split
  case h_3 => exact hanswered _
  all_goals
    refine hdecided _ fun d => ?_
    cases d with
    | timeout => exact .bind (.emit _) fun _ => .pure _
    | rejected reason => exact hanswered _
    | approved value => exact .bind (.setVar _ _) fun _ => hanswered _

theorem executeSubFlowNode (hnested : D.nests nested) (node : NodeConfig) :
    D.Does H P (Exec.executeSubFlowNode nested node) := by
  refine .body (.bind .scope fun c => .ite (fun _ => .fail _) fun _ => .ite (fun _ => .fail _)
    fun _ => .bind (.ask trivial) fun g => ?_)
  cases g with
  | none => exact .fail _
  | some g => exact .bind (.executeSubGraph hnested _) fun _ => .pure _

theorem executePlannerNode (node : NodeConfig) : D.Does H P (Exec.executePlannerNode node) := by
  refine .body (.bind (.ask trivial) fun plan => ?_)
  cases plan with
  | none => exact .stop _
  | some plan =>
    refine .bind (.emit _) fun _ => .bind (.setVar _ _) fun _ => .bind (.setVar _ _) fun _ =>
      .bind (.setVar _ _) fun _ => .bind (.emit _) fun _ => .ite (fun _ => ?_) fun _ => .pure _
    refine .bind (.emit _) fun _ => .bind (.ask trivial) fun decision => ?_
    cases decision with
    | timeout | rejected => exact .bind (.emit _) fun _ => .abort _
    | approved => exact .emit _

theorem executeVerifyNode (node : NodeConfig) : D.Does H P (Exec.executeVerifyNode node) := by
  refine .ite (fun _ => .bind (.setVar _ _) fun _ => .emit _) fun _ =>
    .bind (.ask trivial) fun result => ?_
  cases result with
  | none => exact .stop _
  | some result =>
    exact .bind (.setVar _ _) fun _ => .bind (.setVar _ _) fun _ => .bind (.setVar _ _) fun _ =>
      .bind (.emit _) fun _ => .ite (fun _ => .bind (.setError _) fun _ => .emit _) fun _ => .pure _

theorem executeAcpNode (node : NodeConfig) : D.Does H P (Exec.executeAcpNode node) := by
  refine .body (.bind .ctx fun ctx => .ite (fun _ => .fail _) fun _ =>
    .bind (.ask trivial) fun result => .ite (fun _ => .fail _) fun _ => ?_)
  have hstop : D.Does H P (do
      Exec.setVar "acp_stop_reason" (.str result.stopReason)
      Exec.emit ⟨.think, "ACP turn complete (stop_reason=" ++ result.stopReason ++
        ")"⟩) := .bind (.setVar _ _) fun _ => .emit _
  have hmessage : D.Does H P (Exec.modify fun ctx =>
      { ctx with
        messages := ctx.messages ++ [{ role := .assistant, content := result.message }] }) :=
    .modifyMessages (f := (· ++ [{ role := .assistant, content := result.message }]))
      fun ms => by simp
  exact .ite (fun _ => .bind hmessage fun _ => .bind (.setVar _ _) fun _ => hstop) fun _ => hstop

/-! ### Parallel nodes -/

theorem mergeBranch (outputs : List Str) (r : Edge × ℕ × Option (List AgentEvent × Str)) :
    D.Does H P (Exec.mergeBranch outputs r) := by
  obtain ⟨edge, index, _ | ⟨events, output⟩⟩ := r
  · exact .pure _
  · exact .bind (.each _ fun _ => .emit _) fun _ => .pure _

theorem executeParallelNode (hnested : D.nests nested) (g : AgentGraph) (nodeId : Str) :
    D.Does H P (Exec.executeParallelNode nested g nodeId) := by
  have hdone (text : Str) (id : Str) : D.Does H P (do Exec.emit ⟨.result, text⟩; return id) :=
    .bind (.emit _) fun _ => .pure _
  refine .bind (.emit _) fun _ => ?_
  split
  · exact hdone _ _
  · exact .bind .ctx fun ctx => .ite (fun _ => hdone _ _) fun _ => .ite (fun _ => hdone _ _)
      fun _ => .bind (.runBranches hnested _ _ _ _) fun results =>
        .bind (.foldl mergeBranch _ _) fun outputs =>
          .ite (fun _ => .bind (.addMessage rfl) fun _ => hdone _ _) fun _ => hdone _ _

/-! ### Around the nodes -/

theorem seedFlowState (node : NodeConfig) (input : Str) :
    D.Does H P (Exec.seedFlowState node input) := by
  unfold Exec.seedFlowState
  split
  · refine .each _ fun key => ?_
    split
    · exact .pure _
    · exact .setVar _ _
  · exact .pure _

theorem executeConditionNode (node : NodeConfig) : D.Does H P (Exec.executeConditionNode node) :=
  .bind (.interpolate _) fun _ => .bind (.ask trivial) fun _ => .bind (.emit _) fun _ => .pure _

theorem compactMessages (hH : ∀ hop, H hop → hop ≠ .answered) : D.Does H P Exec.compactMessages :=
  .bind .scope fun _ => .ite (fun _ => .bind (.ask trivial) fun _ => .ite (fun _ =>
    .bind (.ask trivial) fun _ => .replaceMessages hH _) fun _ => .pure _) fun _ => .pure _

theorem pruneMessages (hH : ∀ hop, H hop → hop ≠ .answered) (status : BudgetStatus) :
    D.Does H P (Exec.pruneMessages status) :=
  .bind .scope fun _ => .bind .ctx fun _ => .ite (fun _ =>
    .bind (.modify (fun _ => rfl) fun _ => ⟨rfl, le_rfl, id⟩) fun _ => .bind (.ask trivial) fun _ =>
      .bind (.replaceMessages hH _) fun _ => .emit _) fun _ => .pure _

theorem checkBudget (status : BudgetStatus) : D.Does H P (Exec.checkBudget status) :=
  .ite (fun _ => .bind (.emit _) fun _ => .bind (.modify (fun _ => rfl) fun _ => ⟨rfl, le_rfl, id⟩)
    fun _ => .stop _) fun _ => .pure _

theorem addInput (input : Str) : D.Does H P (Exec.addInput input) :=
  .bind (.addMessage rfl) fun _ => .bind .scope fun _ => .ite (fun _ => .bind (.ask trivial)
    fun _ => .ite (fun _ => .addMessage rfl) fun _ => .pure _) fun _ => .pure _

end Routine

/-! ### Nodes that ask an LLM -/

section Answering

variable [D.Answering]

theorem executeLlmNode (hnested : D.nests nested) (hH : ∀ hop, H hop → Elsewhere hop)
    (node : NodeConfig) (g : AgentGraph) (graphModel : Str) (stream : Bool) :
    D.Does H P (Exec.executeLlmNode nested node g graphModel stream) := by
  refine .body (.bind (.prepareArtifacts fun hop h => (hH hop h).2) fun _ => .bind .scope fun _ =>
    .bind (.safetyGate _) fun _ => .bind (.ask trivial) fun reason => ?_)
  cases reason with
  | some reason => exact .abort _
  | none =>
    refine .bind (.requestAnswer hH _ _) fun answer => ?_
    cases answer with
    | error text => exact .abort _
    | ok r => exact .followAnswer hnested hH _ _ _ _

theorem executeRagNode (hnested : D.nests nested) (hH : ∀ hop, H hop → hop ≠ .answered)
    (node : NodeConfig) (g : AgentGraph) (model : Str) :
    D.Does H P (Exec.executeRagNode nested node g model) := by
  have hllm (node : NodeConfig) (model : Str) :
      D.Does H P (Exec.onBehalf .rag (Exec.executeLlmNode nested node g model false)) :=
    .onBehalf (by simp) hH (.executeLlmNode hnested (fun _ h => by simp [h, Elsewhere]) _ _ _ _)
  exact .bind (.ask trivial) fun _ => .ite (fun _ => .bind (.emit _) fun _ => hllm _ _)
    fun _ => .bind (hllm _ _) fun _ => .emit _

theorem executeFailed (hnested : D.nests nested) (hH : ∀ hop, H hop → Elsewhere hop)
    (g : AgentGraph) (nodeId : Str) : D.Does H P (Exec.executeFailed nested g nodeId) := by
  unfold Exec.executeFailed
  split
  · exact .pure _
  · split
    · exact .executeToolNode hnested _ _
    · exact .executeLlmNode hnested hH _ _ _ _
    · exact .executeRagNode hnested (fun hop h => (hH hop h).2) _ _ _
    · exact .executePlannerNode _
    · exact .executeVerifyNode _
    · exact .bind (.executeParallelNode hnested _ _) fun _ => .pure _
    · exact .executeAcpNode _
    · exact .pure _

theorem retryAttempts (hnested : D.nests nested) (hH : ∀ hop, H hop → Elsewhere hop)
    (g : AgentGraph) (nodeId : Str) (left attempt : ℕ) :
    D.Does H P (Exec.retryAttempts nested g nodeId left attempt) := by
  induction left generalizing attempt with
  | zero => exact .pure _
  | succ left ih =>
    exact .bind (.emit _) fun _ => .bind (.executeFailed hnested hH _ _) fun _ =>
      .bind .ctx fun _ => .ite (fun _ => .pure _) fun _ => ih _

theorem executeErrorHandlerNode (hnested : D.nests nested) (hH : ∀ hop, H hop → hop ≠ .answered)
    (node : NodeConfig) (g : AgentGraph) :
    D.Does H P (Exec.executeErrorHandlerNode nested node g) := by
  refine .bind .ctx fun ctx => .bind (.setError _) fun _ => .ite (fun _ => .stop _) fun _ => ?_
  refine .bind (.onBehalf (by simp) hH (.retryAttempts hnested ?_ _ _ _ _)) fun _ => .emit _
  exact fun _ h => by simp [h, Elsewhere]

theorem agentRounds (hnested : D.nests nested) (hH : ∀ hop, H hop → hop ≠ .answered)
    (node : NodeConfig) (g : AgentGraph) (model : Str) (stream : Bool) (rounds : ℕ) :
    D.Does H P (Exec.agentRounds nested node g model stream rounds) := by
  induction rounds with
  | zero => exact .pure _
  | succ rounds ih =>
    refine .bind .ctx fun ctx => .ite (fun _ => .pure _) fun _ =>
      .bind (.modify (fun _ => rfl) fun _ => ⟨rfl, by simp, id⟩) fun _ => .bind .ctx fun ctx =>
        .ite (fun _ => .setStopReason _) fun _ => .bind (.compactMessages hH) fun _ =>
          .bind (.modify (fun _ => rfl) fun _ => ⟨rfl, le_rfl, id⟩) fun _ =>
            .bind (.onBehalf (by simp) hH (.consumed ?_)) fun _ => ih
    exact .executeLlmNode hnested (fun _ h => by simp [h, Elsewhere]) _ _ _ _

theorem afterLlm (hnested : D.nests nested) (hH : ∀ hop, H hop → hop ≠ .answered)
    (g : AgentGraph) (model : Str) (stream : Bool) (nodeId : Str) (node : NodeConfig) :
    D.Does H P (do
      if node.loopMode = "agent" then
        Exec.agentRounds nested node g model stream (Exec.maxRounds node)
      if ((← Exec.ctx).messages.getLast?.map Message.toolCalls).any (!·.isEmpty) then return nodeId
      else
        Exec.modify ({ · with toolCallChainCount := 0 })
        return (g.getNextNode nodeId []).getD []) := by
  have hnext : D.Does H P (do
      if ((← Exec.ctx).messages.getLast?.map Message.toolCalls).any (!·.isEmpty) then
        return nodeId
      else
        Exec.modify ({ · with toolCallChainCount := 0 })
        return (g.getNextNode nodeId []).getD []) :=
    .bind .ctx fun _ => .ite (fun _ => .pure _) fun _ =>
      .bind (.modify (fun _ => rfl) fun _ => ⟨rfl, le_rfl, id⟩) fun _ => .pure _
  exact .ite (fun _ => .bind (.agentRounds hnested hH _ _ _ _ _) fun _ => hnext) fun _ => hnext

end Answering

/-! ### The dispatch loop -/

section Dispatching

variable [D.Dispatching]

theorem executeNode (hnested : D.nests nested) (g : AgentGraph) (model input : Str)
    (stream : Bool) (nodeId : Str) (node : NodeConfig) :
    D.Does (· = .dispatched) True (Exec.executeNode nested g model input stream nodeId node) := by
  have hH (hop : Hop) (h : hop = .dispatched) : hop ≠ .answered := by simp [h]
  have hgo {x : Exec Unit} (hx : D.Does (· = .dispatched) True x) (next : Str) :
      D.Does (· = .dispatched) True (do x; return next) := .bind hx fun _ => .pure _
  unfold Exec.executeNode
  cases node.type with
  | start => exact hgo (.seedFlowState _ _) _
  | llm => exact .dispatchLlm hnested _ _ _ _ _
  | tool => exact hgo (.consumed (.executeToolNode hnested _ _)) _
  | condition => exact .bind (.executeConditionNode _) fun _ => .pure _
  | loop =>
    exact .bind (.executeLoopNode _) fun _ => .ite (fun _ => .ite (fun _ => .stop _) fun _ =>
      .pure _) fun _ => .pure _
  | iteration => exact hgo (.consumed (.executeIterationNode hnested _)) _
  | variableAggregator => exact hgo (.consumed (.executeVariableAggregatorNode _)) _
  | humanInput =>
    exact .bind (.consumed (.executeHumanInputNode _)) fun _ => .ite (fun _ =>
      .bind (.modify (fun _ => rfl) fun _ => ⟨rfl, le_rfl, id⟩) fun _ => .stop _) fun _ => .pure _
  | subFlow => exact hgo (.consumed (.executeSubFlowNode hnested _)) _
  | errorHandler => exact hgo (.executeErrorHandlerNode hnested hH _ _) _
  | rag => exact hgo (.consumed (.executeRagNode hnested hH _ _ _)) _
  | planner => exact hgo (.consumed (.executePlannerNode _)) _
  | verify => exact hgo (.consumed (.executeVerifyNode _)) _
  | acp => exact hgo (.consumed (.executeAcpNode _)) _
  | parallel => exact .consumed (.executeParallelNode hnested _ _)
  | end_ => exact .bind (.setStopReason _) fun _ => .bind (.emit _) fun _ => .stop _
  | unknown name h => exact .abort _

theorem dispatch (hnested : D.nests nested) (g : AgentGraph) (model input : Str) (stream : Bool)
    (left : ℕ) (nodeId : Str) :
    D.Does (· = .dispatched) True (Exec.dispatch nested g model input stream left nodeId) := by
  induction left generalizing nodeId with
  | zero => exact .pure _
  | succ left ih =>
    refine .bind .ctx fun ctx => .ite (fun _ => .pure _) fun _ => ?_
    cases g.getNode nodeId with
    | none => exact .abort _
    | some node =>
      exact .bind (.modify (fun _ => rfl) fun _ => ⟨rfl, by simp, id⟩) fun _ =>
        .bind (.ask trivial) fun _ => .bind (.executeNode hnested _ _ _ _ _ _) fun _ => ih _

theorem dispatchAll (hnested : D.nests nested) (g : AgentGraph) (model input : Str)
    (stream : Bool) :
    D.Does (· = .dispatched) True (Exec.dispatchAll nested g model input stream) :=
  .bind (.modify (fun _ => rfl) fun _ => ⟨rfl, le_rfl, id⟩) fun _ => .bind .ctx fun _ =>
    .bind .ctx fun _ => .bind (.dispatch hnested _ _ _ _ _ _) fun _ => .bind .ctx fun _ =>
      .ite (fun _ => .bind (.setStopReason _) fun _ => .bind (.setError _) fun _ => .emit _)
        fun _ => .pure _

theorem afterEntry (hnested : D.nests nested) (g : AgentGraph) (input : Str) (stream : Bool) :
    D.Does (· = .dispatched) True (do
      if g.validate ≠ [] then Exec.abort ("; ".toList.intercalate g.validate)
      else
        Exec.emit ⟨.start, "Starting: " ++ g.name⟩
        let input ← Exec.interpolate input
        Exec.addInput input
        let model := g.findLlmModel
        if (g.nodes.any fun n => n.2.type = .llm) ∧ model = [] then
          Exec.abort "No LLM model configured in graph"
        else Exec.dispatchAll nested g model input stream) :=
  .ite (fun _ => .abort _) fun _ => .bind (.emit _) fun _ => .bind (.interpolate _) fun _ =>
    .bind (.addInput _) fun _ => .ite (fun _ => .abort _) fun _ => .dispatchAll hnested _ _ _ _

end Dispatching

end Conduct.Does

end AgentStudio.Execution

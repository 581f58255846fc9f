import AgentStudio.Execution.Conduct

/-!
# The audit of LLM nodes

That executors settle is a conduct (`auditing`): what `plan_mode` forbids is blocked before the
call of a tool (`Settles.planBlocks`), and a run inside a run is assumed to cost nothing (`Sound`).
So the executors of tool calls and of sub-graphs settle.

The answer itself does not settle on its own: the budget is to record it. `dispatched_llmNode` is
the LLM node of the dispatch loop, whose end says what there is to record, and
`settles_executeLlmNode` the LLM node on behalf of something else.
-/

namespace AgentStudio.Execution

open PyText PyJson PyDict AgentStudio.Graph Programs

variable {B : BudgetRef} {H : Hop → Prop} {P : Prop} {α : Type}

/-- The runs inside a run are lawful and charged nothing, if they start in the `plan_mode` of the
run that starts them. -/
def Sound (B : BudgetRef) (nested : Nested) : Prop :=
  ∀ rt g input ctx parent up, (parent = some true → ctx.planMode = true) →
    (nested rt g input ctx parent up).Meets (audit B) fun n _ => n = 0

/-! ### Tools -/

theorem Reads.callTool {site : ToolSite} (hsite : site ≠ .postActionCapture) {toolName : Str}
    (h : P → toolName ∈ planReadonlyTools) (args : Dict) :
    Reads B H P (Exec.callTool site toolName args) := by
  refine .bind (.ask trivial) fun found => .ite (fun _ => ?_) fun _ => .pure _
  refine .bind (.ask trivial) fun answer => ?_
  cases answer with
  | keyError | failed => exact .pure _
  | ok args =>
    refine .ask_of (fun c ctx _ hplan => ?_) fun c ctx a _ => ?_
    · cases site with
      | postActionCapture => exact absurd rfl hsite
      | _ => exact fun hs => h (hplan hs)
    · simp [audit, Call.tokens, Step.surplus, Call.surplus, Step.recorded]

namespace Settles

theorem planBlocks {toolName : Str} {f : Bool → Exec α} (hblocked : Settles B H P (f true))
    (h : Settles B H (toolName ∈ planReadonlyTools) (f false)) :
    Settles B H P (Exec.planBlocks toolName >>= f) := by
  intro c s hhop hplan
  change (f (s.ctx.planMode && decide (toolName ≠ "exit_plan_mode") &&
    decide (toolName ∉ planReadonlyTools)) c s).Meets _ _
  cases hb : s.ctx.planMode && decide (toolName ≠ "exit_plan_mode") &&
    decide (toolName ∉ planReadonlyTools) with
  | true => exact hblocked c s hhop hplan
  | false =>
    refine h c s hhop fun hs => ?_
    simp only [hs, Bool.true_and, Bool.and_eq_false_imp, decide_eq_true_eq, decide_eq_false_iff_not,
      not_not] at hb
    by_cases hexit : toolName = "exit_plan_mode"
    · rw [hexit]
      decide
    · exact hb hexit

theorem runNested {p : Program Step.Answer (Except Stop Unit × Run)}
    (h : p.Meets (audit B) fun n _ => n = 0) : Settles B H P (Exec.runNested p) := by
  intro c s _ _
  refine Program.meets_bind.mpr (h.mono ?_)
  rintro _ ⟨r, sub⟩ rfl
  cases r <;> exact ⟨by simp, .refl _⟩

theorem replaceMessages (hH : ∀ hop, H hop → hop ≠ .answered) (messages : List Message) :
    Settles B H P (Exec.modify ({ · with messages })) := fun c s hhop _ =>
  ⟨by rw [balance_of_ne (hH _ hhop), balance_of_ne (hH _ hhop), sub_self], ⟨rfl, le_rfl, id⟩⟩

end Settles

theorem Reads.execParallelTool (hP : ¬P) (call : Str × Dict × Str) :
    Reads B H P (Exec.execParallelTool call) := by
  obtain ⟨toolName, args, id⟩ := call
  refine .bind (.ask trivial) fun o => .bind .scope fun c => .bind .policy fun policy =>
    .bind .ctx fun ctx => ?_
  dsimp only
  generalize Runtime.parallelToolGate _ _ _ _ _ _ = gate
  cases gate.passed with
  | none => exact .pure _
  | some args => exact .bind (.callTool (by simp) (fun h => absurd h hP) _) fun _ => .pure _

theorem Reads.captureFrame : Reads B H P Exec.captureFrame := by
  refine .bind (.ask trivial) fun _ => .ite (fun _ => ?_) fun _ => .pure _
  refine .bind (.ask_of (fun _ _ _ _ => rfl) fun c ctx a _ => ?_) fun answer => ?_
  · simp [audit, Call.tokens, Step.surplus, Call.surplus, Step.recorded]
  · cases answer with
    | ok capture => exact .ask trivial
    | _ => exact .pure _

theorem Reads.runBranch {nested : Nested} (hnested : Sound B nested) (g : AgentGraph)
    (mergeId parallelId : Str) (branch : ℕ × Edge) :
    Reads B H P (Exec.runBranch nested g mergeId parallelId branch) := by
  refine .bind .scope fun c => .bind .ctx fun ctx => ?_
  dsimp only
  split
  · exact .pure _
  · intro c s _ _
    refine Program.meets_bind.mpr ((hnested _ _ _ _ _ _ fun h => Option.some.inj h).mono ?_)
    rintro _ ⟨r, run⟩ rfl
    cases r <;> exact ⟨zero_add 0, rfl⟩

theorem Reads.gatherMap {ι : Type} {f : ι → Exec α} (hf : ∀ i, Reads B H P (f i)) (is : List ι) :
    Reads B H P (Exec.gatherAll (is.map f)) := by
  refine .gatherAll fun x hx => ?_
  obtain ⟨i, -, rfl⟩ := List.mem_map.mp hx
  exact hf i

abbrev auditing (B : BudgetRef) : Conduct := ⟨fun H P _ x => Settles B H P x, Sound B⟩

theorem Settles.of_does {x : Exec α} (h : (auditing B).Does H P x) : Settles B H P x := h

instance routine_auditing : (auditing B).Routine where
  pure := Settles.pure
  stop := Settles.stop
  bind := Settles.bind
  scope := Reads.scope.settles
  ctx := Reads.ctx.settles
  modify := Settles.modify
  addMessage := Settles.addMessage
  modifyMessages := Settles.modify_messages
  emit := Settles.emit
  captureFrame := Reads.captureFrame.settles
  assertionFn := Settles.ask trivial
  ask := Settles.ask
  readPlan := Settles.ctx
  replaceMessages := Settles.replaceMessages
  absorb := Settles.absorb
  body := Settles.body
  consumed := Settles.consumed
  onBehalf := Settles.onBehalf
  planBlocks := Settles.planBlocks
  callTool hsite _ h args := (Reads.callTool hsite h args).settles
  execParallelTools hP calls := (Reads.gatherMap (Reads.execParallelTool hP) calls).settles
  runNested hnested _ _ _ _ _ _ h := Settles.runNested (hnested _ _ _ _ _ _ h)
  runBranches hnested _ _ _ branches :=
    (Reads.gatherMap (Reads.runBranch hnested _ _ _) branches).settles

/-! ### The answer -/

/-- The executor settles, but for a usage that it stores and that has been charged before. -/
def Stores (B : BudgetRef) (H : Hop → Prop) (P : Prop) (usage : Option Usage) (x : Exec α) : Prop :=
  ∀ c s, H c.hop → (s.ctx.planMode = true → P) → (x c s).Meets (audit B) fun n r =>
    n = balance B c r.2.ctx - balance B c s.ctx - owed B c usage ∧ Advances s.ctx r.2.ctx

theorem Stores.bind {β : Type} {usage : Option Usage} {x : Exec α} {f : α → Exec β}
    (hx : Stores B H P usage x) (hf : ∀ a, (auditing B).Does H P (f a)) :
    Stores B H P usage (x >>= f) := by
  intro c s hhop hplan
  rw [bind_apply]
  refine Program.meets_bind.mpr ((hx c s hhop hplan).mono ?_)
  rintro n ⟨r, s'⟩ ⟨rfl, hadv⟩
  cases r with
  | ok a =>
    refine (hf a c s' hhop fun hs' => hplan (hadv.planMode hs')).mono ?_
    rintro m ⟨r, s''⟩ ⟨rfl, hadv'⟩
    exact ⟨by ring, hadv.trans hadv'⟩
  | error e => exact ⟨add_zero _, hadv⟩

private theorem structuredContent_ok (node : NodeConfig) (content : Str) (c : Scope) (s : Run) :
    (Exec.structuredContent node content c s).Always fun r => ∃ text, r.1 = .ok text := by
  unfold Exec.structuredContent
  split_ifs
  · rintro (_ | ⟨text, value⟩) <;> exact ⟨_, rfl⟩
  · exact ⟨_, rfl⟩

private theorem does_storeUsage (usage : Usage) {x : Unit → Exec α}
    (hx : ∀ a, (auditing B).Does H P (x a)) : (auditing B).Does H P (do
      Exec.ask (.storeUsage usage)
      let a ← Exec.modifyLast ({ · with usage := some usage })
      x a) := by
  intro c s hhop hplan
  let last (m : Message) : Message := { m with usage := some usage }
  let messages := s.ctx.messages.dropLast ++ (s.ctx.messages.getLast?.map last).toList
  have h := hx () c { s with ctx := { s.ctx with messages } } hhop hplan
  refine ⟨trivial, fun _ => h.mono ?_⟩
  rintro n r ⟨rfl, hadv⟩
  refine ⟨?_, hadv.maxIterations, hadv.iterationCount, hadv.planMode⟩
  rw [charge_of_answered rfl rfl rfl]
  by_cases hown : c.budget = some B ∧ c.hop = .answered
  · simp only [balance, if_pos hown, messages, last, spent_modifyLast, totalOf_some]
    ring
  · simp only [balance, if_neg hown, sub_zero, add_zero]

private theorem does_afterAnswer (content : Str) (usage : Option Usage) :
    (auditing B).Does H P (do
    Exec.truncationRecovery content
    match usage with
    | none => pure ()
    | some usage =>
      if usage.promptTokens ≠ 0 ∨ usage.completionTokens ≠ 0 then
        Exec.ask (.storeUsage usage)
        Exec.modifyLast ({ · with usage := some usage })
    Exec.emit ⟨.think, content⟩) := by
  refine .bind (.truncationRecovery _) fun _ => ?_
  cases usage with
  | none => exact .emit _
  | some usage =>
    exact .ite (fun _ => does_storeUsage usage fun _ => .emit _) fun _ => .emit _

theorem stores_storeAnswer (node : NodeConfig) (r : LLMResponse) :
    Stores B H P r.usage (Exec.storeAnswer node r) := by
  intro c s hhop hplan
  refine Program.meets_bind.mpr (((Settles.of_does (.structuredContent node r.content) c s hhop
    hplan).and_always (structuredContent_ok node r.content c s)).mono ?_)
  rintro n ⟨_, s'⟩ ⟨⟨rfl, hadv⟩, content, rfl⟩
  have hstore : Stores B H P r.usage (do
      Exec.addMessage { role := .assistant, content, toolCalls := r.toolCalls, usage := r.usage }
      _) := .bind (fun c s _ _ => Settles.addMessage_meets _ c s) fun _ =>
    does_afterAnswer content r.usage
  refine (hstore c s' hhop fun hs' => hplan (hadv.planMode hs')).mono ?_
  rintro m ⟨r', s''⟩ ⟨rfl, hadv'⟩
  exact ⟨by ring, hadv.trans hadv'⟩

theorem stores_followAnswer {nested : Nested} (hnested : Sound B nested) (node : NodeConfig)
    (g : AgentGraph) (model : Str) (r : LLMResponse) :
    Stores B H P r.usage (Exec.followAnswer nested node g model r) := by
  refine .bind (stores_storeAnswer node r) fun _ => .ite (fun _ => .pure _) fun _ => ?_
  refine .bind (.modify (fun _ => rfl) fun _ => ⟨rfl, le_rfl, id⟩) fun _ =>
    .bind .ctx fun ctx => .ite (fun _ => .abort _) fun _ =>
      .bind (.executeToolCalls hnested _ _) fun errors =>
      .ite (fun _ => .pure _) fun _ => .ite (fun _ => .abort _) fun _ =>
      .ite (fun _ => ?_) fun _ => .pure _
  exact .selfRepair _ _ _ _

/-! ### An LLM node on behalf of something else -/

theorem Reads.streamFallback (hH : ∀ hop, H hop → Elsewhere hop) (model : Str) (r : LLMResponse)
    (call : ToolCall) : Reads B H P (Exec.streamFallback model r call) := by
  refine .ite (fun _ => .bind (.ask_of (fun _ _ _ _ => trivial) fun c ctx a hhop => ?_) fun a => ?_)
    fun _ => .pure _
  · cases a <;> simp [audit, Call.tokens, Step.surplus, Call.surplus, Step.recorded, (hH _ hhop).1,
      ChatAnswer.usage]
  · cases a <;> exact .pure _

theorem does_requestAnswer (hH : ∀ hop, H hop → Elsewhere hop) (model : Str) (stream : Bool) :
    (auditing B).Does H P (Exec.requestAnswer model stream) := by
  refine Settles.bind_reads (.ask_of (fun _ _ _ _ => trivial) fun c ctx a hhop => ?_) fun a => ?_
  · simp [audit, Call.tokens, Step.surplus, Call.surplus, Step.recorded, (hH _ hhop).1]
  · cases a with
    | failed error usage => exact .pure _
    | answered r =>
      refine Conduct.Does.ite (D := auditing B)
        (fun _ => .bind (.foldl (fun r call => ?_) _ _) fun _ => .pure _)
        fun _ => .pure _
      exact (Reads.streamFallback hH model r call).settles

theorem Stores.settles (hH : ∀ hop, H hop → hop ≠ .answered) {usage : Option Usage} {x : Exec α}
    (h : Stores B H P usage x) : Settles B H P x := fun c s hhop hplan =>
  (h c s hhop hplan).mono fun n r hr => by
    rwa [owed, if_neg fun h => hH _ hhop h.2, sub_zero] at hr

theorem Settles.afterAnswer (hH : ∀ hop, H hop → Elsewhere hop) {x : Exec Unit}
    (h : Settles B H P x) : Settles B H P (Exec.afterAnswer x) := by
  intro c s hhop hplan
  rw [Exec.afterAnswer, Exec.answeredHop, if_neg (hH _ hhop).1]
  refine Program.meets_bind.mpr ((h c s hhop hplan).mono ?_)
  rintro n ⟨r, s'⟩ ⟨hn, hadv⟩
  have hleave (e : Stop) : (Program.ask ⟨c, s'.ctx, .leave⟩ fun _ => .ret (.error e, s') :
      Program Step.Answer (Except Stop Unit × Run)).Meets (audit B) fun m r =>
        n + m = balance B c r.2.ctx - balance B c s.ctx ∧ Advances s.ctx r.2.ctx := by
    refine ⟨trivial, fun _ => ⟨?_, hadv⟩⟩
    rw [charge_of_answered rfl rfl rfl, if_neg fun h => (hH _ hhop).2 h.2]
    simpa using hn
  rcases r with (_ | runs | _) | a
  · exact ⟨(add_zero n).trans hn, hadv⟩
  · exact hleave _
  · exact hleave _
  · exact ⟨(add_zero n).trans hn, hadv⟩

instance answering_auditing : (auditing B).Answering where
  requestAnswer := does_requestAnswer
  followAnswer hnested hH _ _ _ r :=
    .afterAnswer hH ((stores_followAnswer hnested _ _ _ r).settles fun hop h => (hH hop h).2)

/-! ### An LLM node of the dispatch loop -/

/-- The executor does not return before its last line, if somebody stops at its errors. -/
def Loud (x : Exec α) : Prop :=
  ∀ c s, c.errorStops.isSome = true → (x c s).Always fun r => r.1 ≠ .error .returned

namespace Loud

theorem pure (a : α) : Loud (Pure.pure a : Exec α) := fun _ _ _ =>
  by simp [Pure.pure, Program.Always]

theorem ask (call : Call) : Loud (Exec.ask call) := fun _ _ _ _ => by simp [Program.Always]

theorem modify (f : AgentContext → AgentContext) : Loud (Exec.modify f) := fun _ _ _ => by
  simp [Exec.modify, Program.Always]

theorem bind {β : Type} {x : Exec α} {f : α → Exec β} (hx : Loud x) (hf : ∀ a, Loud (f a)) :
    Loud (x >>= f) := by
  intro c s hstops
  rw [bind_apply]
  refine Program.always_bind.mpr ((hx c s hstops).mono ?_)
  rintro ⟨r, s'⟩ hr
  cases r with
  | ok a => exact hf a c s' hstops
  | error e => exact fun h => hr (by simpa using h)

theorem scope {f : Scope → Exec α} (hf : ∀ c, Loud (f c)) : Loud (Exec.scope >>= f) :=
  fun c s hstops => hf c c s hstops

theorem ctx {f : AgentContext → Exec α} (hf : ∀ ctx, Loud (f ctx)) : Loud (Exec.ctx >>= f) :=
  fun c s hstops => hf s.ctx c s hstops

theorem ite {p : Prop} [Decidable p] {x y : Exec α} (hx : Loud x) (hy : Loud y) :
    Loud (if p then x else y) := by
  split_ifs
  · exact hx
  · exact hy

theorem each (xs : List α) {f : α → Exec Unit} (hf : ∀ x, Loud (f x)) : Loud (Exec.each xs f) := by
  induction xs with
  | nil => exact .pure ()
  | cons x xs ih => exact .bind (hf x) fun _ => ih

theorem addMessage (m : Message) : Loud (Exec.addMessage m) :=
  .scope fun _ => .ctx fun _ => .ite (.bind (.ask _) fun _ => .modify _) (.modify _)

theorem emit (e : AgentEvent) : Loud (Exec.emit e) := by
  refine .bind (.ask _) fun _ => .bind (fun _ _ _ => by simp [Program.Always]) fun _ =>
    .ite (.scope fun c => ?_) (.pure _)
  cases c.errorStops with
  | none => exact .pure _
  | some runs => exact fun _ _ _ => by simp [Exec.stop, Program.Always]

end Loud

variable {c : Scope}

theorem always_error_bind {text : Str} {f : Unit → Exec α} (s : Run)
    (hstops : c.errorStops.isSome = true) :
    ((Exec.emit ⟨.error, text⟩ >>= f) c s : Program Step.Answer (Except Stop α × Run)).Always
      fun r => ∃ runs, r.1 = .error (.ended runs) := by
  obtain ⟨rt, budget, hop, errorStops⟩ := c
  obtain ⟨runs, rfl⟩ := Option.isSome_iff_exists.mp hstops
  exact fun _ => ⟨runs, rfl⟩

theorem always_abort {text : Str} (s : Run) (hstops : c.errorStops.isSome = true) :
    (Exec.abort text c s : Program Step.Answer (Except Stop α × Run)).Always
      fun r => ∃ runs, r.1 = .error (.ended runs) :=
  always_error_bind { s with ctx := { s.ctx with error := text } } hstops

namespace Loud

private theorem artifactCompaction : Loud (do
    match ← Exec.ask .artifactCompaction with
    | none => Pure.pure ()
    | some compaction => do
      Exec.modify ({ · with messages := compaction.messages })
      Exec.emit ⟨.think, "Proactive compaction triggered"⟩) := by
  refine .bind (.ask _) fun a => ?_
  cases a with
  | none => exact .pure _
  | some compaction => exact .bind (.modify _) fun _ => .emit _

theorem prepareArtifacts : Loud Exec.prepareArtifacts := by
  have hcompaction := artifactCompaction
  refine .scope fun c => .ite (.bind (.modify _) fun _ => .ctx fun ctx => .ite ?_ hcompaction)
    (.pure _)
  exact .bind (.ask _) fun summary => .ite (.bind (.addMessage _) fun _ => hcompaction) hcompaction

theorem safetyGate (gate : Runtime.SafetyVerdict → Runtime.Ask → Str →
    Option Runtime.ConfirmationPolicy → Runtime.Gate Unit) : Loud (Exec.safetyGate gate) := by
  refine .scope fun c => .ite ?_ (.pure _)
  refine .bind (.ask _) fun v => .bind (.ask _) fun reaction => .ctx fun ctx =>
    .bind (.ctx fun _ => .scope fun _ => .pure _) fun policy => .bind (.modify _) fun _ =>
      .each _ fun e => ?_
  cases e with
  | error content nodeId =>
    exact fun c s hstops => (always_error_bind s hstops).mono fun r ⟨runs, hr⟩ => by simp [hr]
  | _ => exact .bind (.emit _) fun _ => .pure _

end Loud

/-- What has been charged for an answer to the dispatch loop. -/
def asked (B : BudgetRef) (c : Scope) (s : Run) : Except Str LLMResponse → ℤ
  | .ok r => owned B c (spent s.ctx.messages + totalOf r.usage)
  | .error _ => 0

private theorem charge_answer (hhop : c.hop = .dispatched) (ctx : AgentContext) (stream : Bool)
    (model : Str) (a : ChatAnswer) :
    (audit B).charge ⟨c, ctx, .chat (.answer stream) model⟩ a =
      if a.accepted stream then owned B c (spent ctx.messages + totalOf a.usage) else 0 := by
  simp only [audit, Call.tokens, Step.surplus, Call.surplus, Step.recorded, hhop, true_and,
    sub_zero, owned]
  split_ifs <;> ring

private theorem streamFallback_meets (hhop : c.hop = .dispatched) (model : Str) (r : LLMResponse)
    (call : ToolCall) (s : Run) :
    (Exec.streamFallback model r call c s).Meets (audit B) fun n r' =>
      r'.2 = s ∧ ∃ r'' : LLMResponse, r'.1 = .ok r'' ∧
        n = owned B c (totalOf r''.usage - totalOf r.usage) := by
  have hsame : (0 : ℤ) = owned B c (totalOf r.usage - totalOf r.usage) := by simp [owned]
  unfold Exec.streamFallback
  split_ifs
  · refine ⟨trivial, fun a => ?_⟩
    cases a with
    | failed error usage =>
      refine ⟨rfl, r, rfl, ?_⟩
      rw [← hsame]
      simp [audit, Call.tokens, Step.surplus, Call.surplus, Step.recorded, ChatAnswer.usage]
    | answered r' =>
      refine ⟨rfl, _, rfl, ?_⟩
      simp only [audit, Call.tokens, Step.surplus, Call.surplus, Step.recorded, ChatAnswer.usage,
        hhop, ne_eq, not_true_eq_false, if_false, sub_zero, add_zero, owned]
      cases r'.usage with
      | none => simp
      | some usage =>
        simp only [Option.isSome_some, if_true, Option.some_or, totalOf_some]
        split_ifs <;> ring
  · exact ⟨rfl, r, rfl, hsame⟩

private theorem streamFallbacks_meets (hhop : c.hop = .dispatched) (model : Str) (r : LLMResponse)
    (calls : List ToolCall) (s : Run) :
    (Exec.foldl (Exec.streamFallback model) r calls c s).Meets (audit B) fun n r' =>
      r'.2 = s ∧ ∃ r'' : LLMResponse, r'.1 = .ok r'' ∧
        n = owned B c (totalOf r''.usage - totalOf r.usage) := by
  induction calls generalizing r with
  | nil => exact ⟨rfl, r, rfl, by simp [owned]⟩
  | cons call calls ih =>
    refine Program.meets_bind.mpr ((streamFallback_meets hhop model r call s).mono ?_)
    rintro n ⟨_, _⟩ ⟨rfl, r', rfl, rfl⟩
    refine (ih r').mono ?_
    rintro m ⟨_, _⟩ ⟨rfl, r'', rfl, rfl⟩
    exact ⟨rfl, r'', rfl, by rw [owned_add]; congr 1; ring⟩

private theorem requestAnswer_meets (hhop : c.hop = .dispatched) (model : Str) (stream : Bool)
    (s : Run) :
    (Exec.requestAnswer model stream c s).Meets (audit B) fun n r => r.2 = s ∧ ∃ answer,
      r.1 = .ok answer ∧ n = asked B c s answer := by
  refine ⟨trivial, fun a => ?_⟩
  rw [charge_answer hhop]
  cases a with
  | failed error usage => exact ⟨rfl, _, rfl, by simp [ChatAnswer.accepted, asked]⟩
  | answered r =>
    cases stream with
    | true =>
      refine Program.meets_bind.mpr (?_ : Program.Meets _ _ _)
      refine Program.meets_bind.mpr ((streamFallbacks_meets hhop model r r.toolCalls s).mono ?_)
      rintro n ⟨_, _⟩ ⟨rfl, r', rfl, rfl⟩
      refine ⟨rfl, _, rfl, ?_⟩
      simp only [ChatAnswer.accepted, ChatAnswer.usage, Bool.true_or, if_true, asked, add_zero]
      rw [zero_add, owned_add]
      congr 1
      ring
    | false =>
      refine ⟨rfl, _, rfl, ?_⟩
      cases hchecked : r.checked with
      | error text => simp [ChatAnswer.accepted, hchecked, asked, Except.isOk, Except.toBool]
      | ok r' =>
        obtain rfl := LLMResponse.eq_of_checked hchecked
        simp [ChatAnswer.accepted, ChatAnswer.usage, hchecked, asked, Except.isOk, Except.toBool]

/-- What there is to record at the end of an LLM node. -/
def due (B : BudgetRef) (c : Scope) (r : Except Stop Unit × Run) : ℤ :=
  match r.1 with
  | .ok _ | .error .returned => owned B c (spent r.2.ctx.messages)
  | .error _ => 0

/-- The executor of the dispatch loop is charged what there is to record at its end. -/
def Answers (B : BudgetRef) (x : Exec Unit) : Prop :=
  ∀ c s, c.hop = .dispatched → c.errorStops.isSome = true → (x c s).Meets (audit B) fun n r =>
    n = due B c r ∧ Advances s.ctx r.2.ctx

theorem Answers.bind {x : Exec α} {f : α → Exec Unit}
    (hx : (auditing B).Does (· = .dispatched) True x)
    (hloud : Loud x) (hf : ∀ a, Answers B (f a)) : Answers B (x >>= f) := by
  intro c s hhop hstops
  rw [bind_apply]
  refine Program.meets_bind.mpr
    (((Settles.of_does hx c s hhop fun _ => trivial).and_always (hloud c s hstops)).mono ?_)
  rintro n ⟨r, s'⟩ ⟨⟨hn, hadv⟩, hr⟩
  have hne : c.hop ≠ .answered := by simp [hhop]
  rw [balance_of_ne hne, balance_of_ne hne, sub_zero] at hn
  subst hn
  cases r with
  | ok a =>
    refine (hf a c s' hhop hstops).mono fun m r ⟨hm, hadv'⟩ => ⟨?_, hadv.trans hadv'⟩
    rw [zero_add, hm]
  | error e =>
    refine ⟨?_, hadv⟩
    cases e with
    | returned => exact absurd rfl hr
    | _ => rfl

theorem Answers.abort (text : Str) : Answers B (Exec.abort text) := by
  intro c s hhop hstops
  refine ((Settles.of_does (P := True) (H := (· = .dispatched)) (.abort text) c s hhop fun _ =>
    trivial).and_always (always_abort s hstops)).mono ?_
  rintro n ⟨r, s'⟩ ⟨⟨hn, hadv⟩, runs, rfl⟩
  have hne : c.hop ≠ .answered := by simp [hhop]
  rw [balance_of_ne hne, balance_of_ne hne, sub_zero] at hn
  exact ⟨hn, hadv⟩

private theorem afterAnswer_meets {usage : Option Usage} {x : Exec Unit}
    (hx : Stores B (· = .answered) True usage x) (hhop : c.hop = .dispatched) (s : Run) :
    (Exec.afterAnswer x c s).Meets (audit B) fun n r =>
      owned B c (spent s.ctx.messages + totalOf usage) + n = due B c r ∧
        Advances s.ctx r.2.ctx := by
  rw [Exec.afterAnswer, Exec.answeredHop, if_pos hhop]
  refine Program.meets_bind.mpr ((hx { c with hop := .answered } s rfl fun _ => trivial).mono ?_)
  rintro n ⟨r, s'⟩ ⟨rfl, hadv⟩
  have hcount : owned B c (spent s.ctx.messages + totalOf usage) +
      (balance B { c with hop := .answered } s'.ctx - balance B { c with hop := .answered } s.ctx -
        owed B { c with hop := .answered } usage) = owned B c (spent s'.ctx.messages) := by
    simp only [balance, owed, owned, and_true]
    split_ifs <;> ring
  have hleave (e : Stop) (he : due B c (.error e, s') = 0) :
      (Program.ask ⟨{ c with hop := .answered }, s'.ctx, .leave⟩ fun _ => .ret (.error e, s') :
        Program Step.Answer (Except Stop Unit × Run)).Meets (audit B) fun m r =>
          owned B c (spent s.ctx.messages + totalOf usage) +
            (balance B { c with hop := .answered } s'.ctx -
              balance B { c with hop := .answered } s.ctx -
                owed B { c with hop := .answered } usage + m) = due B c r ∧
            Advances s.ctx r.2.ctx := by
    refine ⟨trivial, fun _ => ⟨?_, hadv⟩⟩
    rw [charge_of_answered rfl rfl rfl, he, add_zero, ← add_assoc, hcount]
    simp only [owned, and_true]
    split_ifs <;> ring
  rcases r with (_ | runs | _) | a
  · exact ⟨by rw [add_zero]; exact hcount, hadv⟩
  · exact hleave _ rfl
  · exact hleave _ rfl
  · exact ⟨by rw [add_zero]; exact hcount, hadv⟩

private theorem Answers.body {x : Exec Unit} (hx : Answers B x) : Answers B (Exec.body x) := by
  intro c s hhop hstops
  refine Program.meets_bind.mpr ((hx c s hhop hstops).mono ?_)
  rintro n ⟨r, s'⟩ ⟨hn, hadv⟩
  rcases r with (_ | runs | _) | a <;> exact ⟨(add_zero n).trans hn, hadv⟩

private theorem Answers.requestAnswer (model : Str) (stream : Bool)
    {f : Except Str LLMResponse → Exec Unit} (herror : ∀ text, Answers B (f (.error text)))
    (hok : ∀ (r : LLMResponse) c s, c.hop = .dispatched →
      (f (.ok r) c s).Meets (audit B) fun n r' =>
      owned B c (spent s.ctx.messages + totalOf r.usage) + n = due B c r' ∧
        Advances s.ctx r'.2.ctx) :
    Answers B (Exec.requestAnswer model stream >>= f) := by
  intro c s hhop hstops
  rw [bind_apply]
  refine Program.meets_bind.mpr ((requestAnswer_meets hhop model stream s).mono ?_)
  rintro _ ⟨_, _⟩ ⟨rfl, answer, rfl, rfl⟩
  cases answer with
  | error text =>
    exact (herror text c _ hhop hstops).mono fun n r hr => by rwa [asked, zero_add]
  | ok r => exact hok r c _ hhop

/-- **The LLM node of the dispatch loop.** It is charged what its end leaves to record: the usage
of all messages if the dispatch loop goes on with it, and nothing if the run ends. -/
theorem answers_executeLlmNode {nested : Nested} (hnested : Sound B nested) (node : NodeConfig)
    (g : AgentGraph) (graphModel : Str) (stream : Bool) :
    Answers B (Exec.executeLlmNode nested node g graphModel stream) := by
  have hhop (hop : Hop) (h : hop = .dispatched) : hop ≠ .answered := by simp [h]
  refine .body (.bind (.prepareArtifacts hhop) .prepareArtifacts fun _ =>
    .bind .scope (.scope fun _ => .pure _) fun _ =>
      .bind (.safetyGate _) (.safetyGate _) fun _ => .bind (.ask trivial) (.ask _) fun reason => ?_)
  cases reason with
  | some reason => exact .abort _
  | none =>
    refine .requestAnswer _ _ (fun text => .abort _) fun r c s hc => ?_
    exact afterAnswer_meets (stores_followAnswer hnested _ _ _ r) hc s

end AgentStudio.Execution

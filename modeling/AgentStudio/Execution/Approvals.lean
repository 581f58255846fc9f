import AgentStudio.Execution.ToolTurns

/-!
# Calls that wait for an approval

A tool node, and a tool call of an LLM node, that needs an approval: the funnel is asked
(`admission`), the operator is (`awaitApproval`), and after an approval the funnel again, which has
the last word. `Granted` reads off a trace that the call got its approval, and `CarriedOut` that the
second admission is asked and, if it allows the call, the tool is called once and its result is the
last message.

`_await_safety_approval` reports a failure in `ctx.error`, and so the executors look at `ctx.error`
when it returns. The field is also set by other nodes, such as a `verify` node that fails, and is
never cleared. `carriedOut_iff` says what comes of this: a call that got its approval is carried
out if and only if `ctx.error` was empty before.
-/

namespace AgentStudio.Execution

open PyText PyJson PyDict AgentStudio.Graph Programs

/-! ### Questions of a call -/

def Call.admits : Call → Bool
  | .admission _ _ _ _ | .awaitApproval _ => true
  | _ => false

/-- The question is about an admission, or it is a call of a tool for a node. -/
def Call.decides : Call → Bool
  | .execute site _ _ => site ≠ .postActionCapture
  | call => call.admits

def Call.executed (site : ToolSite) : (call : Call) → call.Answer → Option (ToolAnswer Str)
  | .execute site' _ _, answer => if site' = site then some answer else none
  | _, _ => none

/-- The tool is not there, or it does not take its arguments. -/
def Call.refuses : (call : Call) → call.Answer → Bool
  | .getTool _, found => !found
  | .prepareArgs _ _, .ok _ => false
  | .prepareArgs _ _, _ => true
  | _, _ => false

def executions (site : ToolSite) (t : List (Event Step.Answer)) : List (ToolAnswer Str) :=
  t.filterMap fun e => e.1.call.executed site e.2

theorem executions_append (site : ToolSite) (t t' : List (Event Step.Answer)) :
    executions site (t ++ t') = executions site t ++ executions site t' := List.filterMap_append

theorem Call.executed_of_not_decides {site : ToolSite} (hsite : site ≠ .postActionCapture)
    {call : Call} (h : call.decides = false) (answer : call.Answer) :
    call.executed site answer = none := by
  cases call <;> try rfl
  case execute site' name args =>
    have hsite' : site' = .postActionCapture := by simpa [decides] using h
    subst hsite'
    exact if_neg hsite.symm

def Idle (t : List (Event Step.Answer)) : Prop := ∀ e ∈ t, e.1.call.decides = false

variable {t : List (Event Step.Answer)} {node : NodeConfig}

theorem Idle.executions (h : Idle t) {site : ToolSite} (hsite : site ≠ .postActionCapture) :
    executions site t = [] :=
  List.filterMap_eq_nil_iff.mpr fun e he => Call.executed_of_not_decides hsite (h e he) e.2

theorem Idle.append {t' : List (Event Step.Answer)} (h : Idle t) (h' : Idle t') :
    Idle (t ++ t') := by
  intro e he
  rcases List.mem_append.mp he with he | he
  · exact h e he
  · exact h' e he

/-- Questions none of which is about an admission. -/
def Unasked (t : List (Event Step.Answer)) : Prop := ∀ e ∈ t, e.1.call.admits = false

theorem Idle.unasked (h : Idle t) : Unasked t := by
  intro e he
  have hdecides := h e he
  generalize e.1.call = call at hdecides
  cases call <;> first | rfl | exact hdecides

theorem Unasked.append {t' : List (Event Step.Answer)} (h : Unasked t) (h' : Unasked t') :
    Unasked (t ++ t') := by
  intro e he
  rcases List.mem_append.mp he with he | he
  · exact h e he
  · exact h' e he

/-! ### Executors that decide nothing -/

/-- What is watched: no question decides anything. -/
def idleLedger : Ledger Step.Answer := ⟨fun q => q.call.decides = false, fun _ _ => 0⟩

namespace Exec

variable {α β : Type}

/-- The executor asks nothing that decides anything. -/
def Idles (x : Exec α) : Prop := ∀ c s, (x c s).Meets idleLedger fun _ _ => True

variable {c : Scope} {s : Run} {toolName : Str}

theorem Idles.traced {x : Exec α} (hx : Idles x) {t : List (Event Step.Answer)}
    {r : Except Stop α × Run} (h : (x c s).Traced t r) : Idle t :=
  ((hx c s).traced h).1

namespace Idles

theorem pure (a : α) : Idles (Pure.pure a : Exec α) := fun _ _ => trivial

theorem scope : Idles Exec.scope := fun _ _ => trivial

theorem ctx : Idles Exec.ctx := fun _ _ => trivial

theorem modify (f : AgentContext → AgentContext) : Idles (Exec.modify f) := fun _ _ => trivial

theorem stop (e : Stop) : Idles (Exec.stop e : Exec α) := fun _ _ => trivial

theorem ask {call : Call} (h : call.decides = false) : Idles (Exec.ask call) :=
  fun _ _ => ⟨h, fun _ => trivial⟩

theorem bind {x : Exec α} {f : α → Exec β} (hx : Idles x) (hf : ∀ a, Idles (f a)) :
    Idles (x >>= f) := fun c s => by
  rw [bind_apply]
  refine Program.meets_bind.mpr ((hx c s).mono ?_)
  rintro n ⟨e | a, s'⟩ -
  · exact trivial
  · exact hf a c s'

theorem emit (e : AgentEvent) : Idles (Exec.emit e) := fun c s => by
  rw [emit_apply]
  exact ⟨rfl, fun _ => trivial⟩

theorem addMessage (m : Message) : Idles (Exec.addMessage m) := by
  refine .bind .scope fun _ => .bind .ctx fun _ => ?_
  dsimp only
  split_ifs
  · exact .bind (.ask rfl) fun _ => .modify _
  · exact .modify _

theorem captureFrame : Idles Exec.captureFrame := by
  refine .bind (.ask rfl) fun found => ?_
  split_ifs
  · refine .bind (.ask rfl) fun answer => ?_
    cases answer with
    | ok capture => exact .ask rfl
    | _ => exact .pure _
  · exact .pure _

end Idles

/-- The conduct of executors that decide nothing. -/
abbrev idling : Conduct := ⟨fun _ _ _ x => Idles x, fun _ => True⟩

instance noting_idling : idling.Noting where
  pure := Idles.pure
  stop := Idles.stop
  bind := Idles.bind
  scope := Idles.scope
  ctx := Idles.ctx
  modify _ _ := Idles.modify _
  addMessage _ := Idles.addMessage _
  modifyMessages _ := Idles.modify _
  emit := Idles.emit
  captureFrame := Idles.captureFrame
  assertionFn := Idles.ask rfl

theorem idle_of_does {x : Exec α} (hx : idling.Does (fun _ => True) True x)
    {t : List (Event Step.Answer)} {r : Except Stop α × Run} (h : (x c s).Traced t r) : Idle t :=
  Idles.traced hx h

/-! ### What is asked for a call -/

/-- The admissions of a call: it needs no approval, or its approval leaves an error, or it is
admitted again. -/
inductive Admitted (toolName : Str) (params : Dict) (nodeLabel : Str) (c : Scope)
    (ctx : AgentContext) :
    List (Event Step.Answer) → Runtime.FunnelOutcome × Runtime.FunnelOutcome × Runtime.Ask → Prop
  | atOnce {o : Runtime.FunnelOutcome}
      (h : (if o.needsApproval then o.safetyResult.or o.escalation else none) = none) :
      Admitted toolName params nodeLabel c ctx
        [⟨⟨c, ctx, .admission toolName params true false⟩, o⟩] (o, o, { freshId := [] })
  | blocked {o : Runtime.FunnelOutcome} {v : Runtime.SafetyVerdict} {reaction : Runtime.Ask}
      (h : (if o.needsApproval then o.safetyResult.or o.escalation else none) = some v)
      (herror : Runtime.orText (Runtime.awaitSafetyApproval c.rt.process.isAlnum
        (ctx.confirmationPolicy.bind c.rt.process.policy) toolName params v
        Runtime.toolCallCategory nodeLabel reaction).error ctx.error ≠ []) :
      Admitted toolName params nodeLabel c ctx
        [⟨⟨c, ctx, .admission toolName params true false⟩, o⟩,
          ⟨⟨c, ctx, .awaitApproval Runtime.toolCallCategory⟩, reaction⟩] (o, o, reaction)
  | again {o readmission : Runtime.FunnelOutcome} {v : Runtime.SafetyVerdict}
      {reaction : Runtime.Ask}
      (h : (if o.needsApproval then o.safetyResult.or o.escalation else none) = some v)
      (herror : Runtime.orText (Runtime.awaitSafetyApproval c.rt.process.isAlnum
        (ctx.confirmationPolicy.bind c.rt.process.policy) toolName params v
        Runtime.toolCallCategory nodeLabel reaction).error ctx.error = []) :
      Admitted toolName params nodeLabel c ctx
        [⟨⟨c, ctx, .admission toolName params true false⟩, o⟩,
          ⟨⟨c, ctx, .awaitApproval Runtime.toolCallCategory⟩, reaction⟩,
          ⟨⟨c, ctx, .admission toolName params true true⟩, readmission⟩] (o, readmission, reaction)

/-- What follows the first admission: the operator is asked about a verdict. -/
def askOperator (toolName : Str) (params : Dict) (nodeLabel : Str) (o : Runtime.FunnelOutcome) :
    Option Runtime.SafetyVerdict →
      Exec (Runtime.FunnelOutcome × Runtime.FunnelOutcome × Runtime.Ask)
  | none => return (o, o, { freshId := [] })
  | some v => do
    let reaction ← ask (.awaitApproval Runtime.toolCallCategory)
    let p := Runtime.awaitSafetyApproval (← scope).rt.process.isAlnum (← policy) toolName params v
      Runtime.toolCallCategory nodeLabel reaction
    if Runtime.orText p.error (← ctx).error ≠ [] then return (o, o, reaction)
    else return (o, ← ask (.admission toolName params true true), reaction)

theorem admitInteractive_eq (toolName : Str) (params : Dict) (nodeLabel : Str) :
    admitInteractive toolName params nodeLabel =
      ask (.admission toolName params true false) >>= fun o =>
        askOperator toolName params nodeLabel o
          (if o.needsApproval then o.safetyResult.or o.escalation else none) := by
  rw [admitInteractive]
  refine bind_congr fun o => ?_
  generalize (if o.needsApproval = true then o.safetyResult.or o.escalation else none) = verdict
  cases verdict <;> rfl

theorem admitted_of_traced {params : Dict} {nodeLabel : Str} {t : List (Event Step.Answer)}
    {r : Except Stop (Runtime.FunnelOutcome × Runtime.FunnelOutcome × Runtime.Ask) × Run}
    (h : (admitInteractive toolName params nodeLabel c s).Traced t r) :
    ∃ a, r = (.ok a, s) ∧ Admitted toolName params nodeLabel c s.ctx t a := by
  rw [admitInteractive_eq] at h
  obtain ⟨o, t₁, rfl, hnext⟩ := Program.traced_ask.mp h
  change (askOperator toolName params nodeLabel o _ c s).Traced t₁ r at hnext
  cases hv : if o.needsApproval then o.safetyResult.or o.escalation else none with
  | none =>
    rw [hv] at hnext
    obtain ⟨rfl, rfl⟩ := Program.traced_ret.mp hnext
    exact ⟨_, rfl, .atOnce hv⟩
  | some v =>
    rw [hv] at hnext
    obtain ⟨reaction, t₂, rfl, hlast⟩ := Program.traced_ask.mp hnext
    change ((if _ then _ else _ : Exec _) c s).Traced t₂ r at hlast
    split_ifs at hlast with herror
    · obtain ⟨rfl, rfl⟩ := Program.traced_ret.mp hlast
      exact ⟨_, rfl, .blocked hv herror⟩
    · obtain ⟨readmission, t₃, rfl, hend⟩ := Program.traced_ask.mp hlast
      obtain ⟨rfl, rfl⟩ := Program.traced_ret.mp hend
      exact ⟨_, rfl, .again hv (not_not.mp herror)⟩

theorem Admitted.executions {params : Dict} {nodeLabel : Str} {ctx : AgentContext}
    {t : List (Event Step.Answer)} {a : Runtime.FunnelOutcome × Runtime.FunnelOutcome × Runtime.Ask}
    (h : Admitted toolName params nodeLabel c ctx t a) (site : ToolSite) :
    executions site t = [] := by
  cases h <;> rfl

/-- What is asked to call a tool, and its answer: the tool is called, or it is not there, or it does
not take its arguments. -/
def Answered (site : ToolSite) (t : List (Event Step.Answer)) (answer : ToolAnswer Str) : Prop :=
  executions site t = [answer] ∨ executions site t = [] ∧ (∀ value, answer ≠ .ok value) ∧
    ∃ e ∈ t, e.1.call.refuses e.2 = true

theorem Answered.append {site : ToolSite} {t t₁ t₂ : List (Event Step.Answer)}
    {answer : ToolAnswer Str} (h₁ : executions site t₁ = []) (h₂ : executions site t₂ = [])
    (h : Answered site t answer) : Answered site (t₁ ++ (t ++ t₂)) answer := by
  have hexecutions : executions site (t₁ ++ (t ++ t₂)) = executions site t := by
    rw [executions_append, executions_append, h₁, h₂, List.nil_append, List.append_nil]
  rw [Answered, hexecutions]
  refine h.imp id fun ⟨hnone, hanswer, e, he, hrefuses⟩ => ⟨hnone, hanswer, e, ?_, hrefuses⟩
  exact List.mem_append_right _ (List.mem_append_left _ he)

theorem answered_of_traced {site : ToolSite} {args : Dict} {t : List (Event Step.Answer)}
    {r : Except Stop (ToolAnswer Str) × Run} (h : (callTool site toolName args c s).Traced t r) :
    ∃ answer, r = (.ok answer, s) ∧ Unasked t ∧ Answered site t answer := by
  obtain ⟨found, t₁, rfl, hnext⟩ := Program.traced_ask.mp h
  change ((if found = true then _ else _ : Exec _) c s).Traced t₁ r at hnext
  cases found with
  | false =>
    obtain ⟨rfl, rfl⟩ := Program.traced_ret.mp hnext
    exact ⟨_, rfl, by simp [Unasked, Call.admits],
      .inr ⟨rfl, by simp, _, List.mem_cons_self, rfl⟩⟩
  | true =>
    rw [if_pos rfl] at hnext
    obtain ⟨prepared, t₂, rfl, hlast⟩ := Program.traced_ask.mp hnext
    cases prepared with
    | keyError | failed =>
      obtain ⟨rfl, rfl⟩ := Program.traced_ret.mp hlast
      exact ⟨_, rfl, by simp [Unasked, Call.admits],
        .inr ⟨rfl, by simp, _, List.mem_cons_of_mem _ List.mem_cons_self, rfl⟩⟩
    | ok args =>
      obtain ⟨answer, t₃, rfl, hend⟩ := Program.traced_ask.mp hlast
      obtain ⟨rfl, rfl⟩ := Program.traced_ret.mp hend
      refine ⟨answer, rfl, by simp [Unasked, Call.admits], .inl ?_⟩
      simp [executions, Call.executed]

/-! ### Events and messages -/

private theorem ofGate_type_ne_error {e : Runtime.Event} (h : e.isError = false) :
    (AgentEvent.ofGate e).type ≠ .error := by
  cases e with
  | error content nodeId => exact absurd h (by simp [Runtime.Event.isError])
  | _ => simp [AgentEvent.ofGate]

private theorem returns_events {events : List Runtime.Event}
    (hevents : ∀ e ∈ events, e.isError = false) {r : Except Stop Unit × Run}
    (h : (each events (fun e => emit (.ofGate e)) c s).Returns r) : r.1 = .ok () := by
  induction events generalizing s with
  | nil => rw [Program.returns_ret.mp h]
  | cons e events ih =>
    rw [List.forall_mem_cons] at hevents
    rw [each, bind_apply, Program.returns_bind] at h
    obtain ⟨r', hr', h⟩ := h
    have hok : yieldEnd (.ofGate e) c = .ok () := if_neg (ofGate_type_ne_error hevents.1)
    rw [returns_emit.mp hr', hok] at h
    exact ih hevents.2 h

theorem traced_pass {γ : Type} {gate : Runtime.Gate γ}
    (hevents : ∀ e ∈ gate.events, e.isError = false) {t : List (Event Step.Answer)}
    {r : Except Stop Unit × Run} (h : (pass gate c s).Traced t r) :
    Idle t ∧ r.1 = .ok () ∧ r.2.ctx = { s.ctx with error := gate.error } :=
  ⟨idle_of_does (.pass gate) h, returns_events hevents h.returns,
    (Program.always_iff.mp (always_pass gate c s) r h.returns).1⟩

/-- The messages with another one, under the label of a node. -/
def filed (cap : ℕ) (nodeLabel : Str) (m : Message) (messages : List Message) : List Message :=
  let kept := (trim cap (messages ++ [m])).1
  kept.dropLast ++ (kept.getLast?.map ({ · with nodeId := nodeLabel })).toList

/-- The content of the message about a result: the result, with a hint if it is an error that is
repeated, or the plan that `exit_plan_mode` takes out of it. -/
def Reports (toolName result content : Str) : Prop :=
  content = result ∨ isError result = true ∧ result <+: content ∨
    toolName = "exit_plan_mode" ∧ ∃ plan, result = exitPlanModeSentinel ++ plan ∧
      content = "Plan approved. Transitioning to execution.\n" ++ plan

private theorem returns_escalate {result : Str} {r : Except Stop Str × Run}
    (h : (escalateRepeatToolError toolName result c s).Returns r) :
    r.2.ctx.messages = s.ctx.messages ∧ ∃ content, r.1 = .ok content ∧ result <+: content := by
  change ((if _ then _ else _ : Exec Str) c _).Returns r at h
  split_ifs at h
  · rw [Program.returns_ret.mp h]
    exact ⟨rfl, _, rfl, List.prefix_refl _⟩
  · rw [Program.returns_ret.mp h]
    refine ⟨rfl, _, rfl, ?_⟩
    simp only [List.append_assoc]
    exact List.prefix_append _ _

theorem returns_storeResult {node : NodeConfig} {id : Str} {answer : ToolAnswer Str}
    {r : Except Stop (List Str) × Run} (h : (storeResult node toolName id answer c s).Returns r) :
    ∃ content, Reports toolName (answer.text toolName) content ∧
      r.2.ctx.messages = filed c.rt.process.contextMaxMessages node.label
        { role := .tool, content, toolCallId := id } s.ctx.messages := by
  have hstore {content : Str} {e : AgentEvent} {failed : List Str} {s : Run}
      (he : e.type ≠ .error) (h : ((do
        addMessage { role := .tool, content, toolCallId := id }
        modifyLast ({ · with nodeId := node.label })
        emit e
        return failed : Exec (List Str)) c s).Returns r) :
      r.2.ctx.messages = filed c.rt.process.contextMaxMessages node.label
        { role := .tool, content, toolCallId := id } s.ctx.messages := by
    rw [bind_apply, Program.returns_bind] at h
    obtain ⟨r₁, hadd, h⟩ := h
    rw [returns_addMessage hadd] at h
    change ((emit e >>= fun _ => _ : Exec (List Str)) c _).Returns r at h
    rw [bind_apply, Program.returns_bind] at h
    obtain ⟨r₂, hemit, h⟩ := h
    rw [returns_emit.mp hemit, yieldEnd, if_neg he] at h
    rw [Program.returns_ret.mp h]
    rfl
  rw [storeResult] at h
  change ((if _ then _ else _ : Exec (List Str)) c s).Returns r at h
  split_ifs at h with hplan herror
  · obtain ⟨hname, hprefix⟩ := hplan
    obtain ⟨plan, hresult⟩ := List.isPrefixOf_iff_prefix.mp hprefix
    rw [← hresult, List.drop_left] at h
    exact ⟨_, .inr (.inr ⟨hname, plan, hresult.symm, rfl⟩),
      hstore (s := { s with ctx := { s.ctx with planMode := false } }) (by simp) h⟩
  · rw [bind_apply, Program.returns_bind] at h
    obtain ⟨⟨stop | content, s'⟩, hescalate, h⟩ := h
    · obtain ⟨-, _, hcontent, -⟩ := returns_escalate hescalate
      exact absurd hcontent (by simp)
    · obtain ⟨hmessages, _, hcontent, hreports⟩ := returns_escalate hescalate
      obtain rfl := Except.ok.inj hcontent
      refine ⟨content, .inr (.inl ⟨herror, hreports⟩), ?_⟩
      rw [← hmessages]
      exact hstore (by simp) h
  · exact ⟨_, .inl rfl, hstore (by simp) h⟩

end Exec

/-! ### Calls that are approved -/

section Law

variable (c : Scope) (s : Run) (toolName : Str) (params : Dict) (nodeLabel : Str)

/-- The call needs an approval and gets it: the funnel leaves it to the operator, and
`_await_safety_approval` reports no failure. -/
def Granted (t : List (Event Step.Answer)) : Prop :=
  ∃ o v reaction, (⟨⟨c, s.ctx, .admission toolName params true false⟩, o⟩ : Event Step.Answer) ∈ t ∧
    o.needsApproval = true ∧ o.safetyResult.or o.escalation = some v ∧
    (⟨⟨c, s.ctx, .awaitApproval Runtime.toolCallCategory⟩, reaction⟩ : Event Step.Answer) ∈ t ∧
    (Runtime.awaitSafetyApproval c.rt.process.isAlnum
      (s.ctx.confirmationPolicy.bind c.rt.process.policy) toolName params v Runtime.toolCallCategory
      nodeLabel reaction).error = []

/-- The funnel is asked again, and if it allows the call, the tool is called once and its result is
the last message. -/
def CarriedOut (site : ToolSite) (id : Str) (t : List (Event Step.Answer)) (r : Run) : Prop :=
  ∃ readmission,
    (⟨⟨c, s.ctx, .admission toolName params true true⟩, readmission⟩ : Event Step.Answer) ∈ t ∧
      (readmission.allowed = true → readmission.needsApproval = false →
        ∃ answer content, Exec.Answered site t answer ∧
          Exec.Reports toolName (answer.text toolName) content ∧
          r.ctx.messages = Exec.filed c.rt.process.contextMaxMessages nodeLabel
            { role := .tool, content, toolCallId := id } s.ctx.messages)

end Law

section

variable {c : Scope} {s : Run} {toolName : Str} {params : Dict} {nodeLabel : Str}

variable {t₁ t₂ t₃ : List (Event Step.Answer)}
  {a : Runtime.FunnelOutcome × Runtime.FunnelOutcome × Runtime.Ask}

private theorem mem_of_admits (h₁ : Unasked t₁) (h₃ : Unasked t₃) {e : Event Step.Answer}
    (he : e.1.call.admits = true) (h : e ∈ t₁ ++ (t₂ ++ t₃)) : e ∈ t₂ := by
  rcases List.mem_append.mp h with h | h
  · exact absurd (h₁ e h) (by simp [he])
  · rcases List.mem_append.mp h with h | h
    · exact h
    · exact absurd (h₃ e h) (by simp [he])

/-- The operator was asked about a verdict, and reports no failure. -/
def Approved (c : Scope) (s : Run) (toolName : Str) (params : Dict) (nodeLabel : Str)
    (a : Runtime.FunnelOutcome × Runtime.FunnelOutcome × Runtime.Ask) : Prop :=
  a.1.needsApproval = true ∧ ∃ v, a.1.safetyResult.or a.1.escalation = some v ∧
    (Runtime.awaitSafetyApproval c.rt.process.isAlnum
      (s.ctx.confirmationPolicy.bind c.rt.process.policy) toolName params v Runtime.toolCallCategory
      nodeLabel a.2.2).error = []

theorem Granted.approved (h₁ : Unasked t₁) (h₃ : Unasked t₃)
    (hadmitted : Exec.Admitted toolName params nodeLabel c s.ctx t₂ a)
    (h : Granted c s toolName params nodeLabel (t₁ ++ (t₂ ++ t₃))) :
    Approved c s toolName params nodeLabel a := by
  obtain ⟨o, v, reaction, ho, hneeds, hv, hreaction, herror⟩ := h
  have hfirst := mem_of_admits h₁ h₃ rfl ho
  have hasked := mem_of_admits h₁ h₃ rfl hreaction
  cases hadmitted with
  | atOnce hnone => cases List.mem_singleton.mp hasked
  | blocked =>
    simp only [List.mem_cons, List.not_mem_nil, or_false] at hfirst hasked
    rcases hfirst with hfirst | hfirst <;> cases hfirst
    rcases hasked with hasked | hasked <;> cases hasked
    exact ⟨hneeds, v, hv, herror⟩
  | again =>
    simp only [List.mem_cons, List.not_mem_nil, or_false] at hfirst hasked
    rcases hfirst with hfirst | hfirst | hfirst <;> cases hfirst
    rcases hasked with hasked | hasked | hasked <;> cases hasked
    exact ⟨hneeds, v, hv, herror⟩

/-- A call that got its approval is carried out if and only if the context had no error, if it is
carried out whenever it is approved and admitted again. -/
theorem carriedOut_iff_of_admitted {site : ToolSite} {id : Str} {r : Run} (h₁ : Unasked t₁)
    (h₃ : Unasked t₃) (hadmitted : Exec.Admitted toolName params nodeLabel c s.ctx t₂ a)
    (hcall : Approved c s toolName params nodeLabel a → s.ctx.error = [] →
      a.2.1.allowed = true → a.2.1.needsApproval = false →
        ∃ answer content, Exec.Answered site (t₁ ++ (t₂ ++ t₃)) answer ∧
          Exec.Reports toolName (answer.text toolName) content ∧
          r.ctx.messages = Exec.filed c.rt.process.contextMaxMessages nodeLabel
            { role := .tool, content, toolCallId := id } s.ctx.messages)
    (h : Granted c s toolName params nodeLabel (t₁ ++ (t₂ ++ t₃))) :
    CarriedOut c s toolName params nodeLabel site id (t₁ ++ (t₂ ++ t₃)) r ↔ s.ctx.error = [] := by
  have happroved := h.approved h₁ h₃ hadmitted
  obtain ⟨hneeds, v, hv, herror⟩ := happroved
  cases hadmitted with
  | atOnce hnone =>
    rw [if_pos hneeds, hv] at hnone
    exact absurd hnone (by simp)
  | @blocked o v' reaction hsome hblocked =>
    rw [if_pos hneeds, hv] at hsome
    obtain rfl := Option.some.inj hsome
    rw [herror] at hblocked
    refine iff_of_false ?_ hblocked
    rintro ⟨readmission, hmem, -⟩
    have hagain := mem_of_admits h₁ h₃ rfl hmem
    simp only [List.mem_cons, List.not_mem_nil, or_false] at hagain
    rcases hagain with hagain | hagain <;> cases hagain
  | @again o readmission v' reaction hsome hagain =>
    rw [if_pos hneeds, hv] at hsome
    obtain rfl := Option.some.inj hsome
    rw [herror] at hagain
    refine iff_of_true ⟨readmission, ?_, hcall ⟨hneeds, v, hv, herror⟩ hagain⟩ hagain
    exact List.mem_append_right _ (List.mem_append_left _ (by simp))

/-! ### The gates after an approval -/

private theorem admission_again {ctxError nodeId : Str} {report : Str → Runtime.Event}
    {errorAfter : Str → Str} {events : List Runtime.Event} {o : Runtime.FunnelOutcome}
    (hevents : ∀ e ∈ events, e.isError = false) (hallowed : o.allowed = true)
    (hneeds : o.needsApproval = false) :
    let gate := Runtime.admission ctxError nodeId report errorAfter events o
    gate.passed = some o.args ∧ gate.error = ctxError ∧ ∀ e ∈ gate.events, e.isError = false := by
  simp only [Runtime.admission]
  rw [if_neg (by simp [hallowed, hneeds])]
  refine ⟨rfl, rfl, ?_⟩
  intro e he
  rcases List.mem_append.mp he with he | he
  · exact hevents e he
  · simp only [Runtime.approvedEvents] at he
    split_ifs at he
    · rw [List.mem_singleton.mp he]
      rfl
    · exact absurd he List.not_mem_nil

private theorem isError_of_approved {v : Runtime.SafetyVerdict} {reaction : Runtime.Ask}
    {isAlnum : Char → Bool} {policy : Option Runtime.ConfirmationPolicy}
    (h : (Runtime.awaitSafetyApproval isAlnum policy toolName params v Runtime.toolCallCategory
      nodeLabel reaction).error = []) :
    ∀ e ∈ (Runtime.awaitSafetyApproval isAlnum policy toolName params v Runtime.toolCallCategory
      nodeLabel reaction).events, e.isError = false := by
  have hraised := Runtime.error_awaitSafetyApproval.mp h
  intro e he
  exact Bool.eq_false_iff.mpr (List.any_eq_false.mp hraised e he)

/-- What the gate of a call lets pass after an approval. -/
def LetsPass (gate : Runtime.Gate Dict) (o : Runtime.FunnelOutcome) (ctxError : Str) : Prop :=
  gate.passed = some o.args ∧ gate.error = ctxError ∧ ∀ e ∈ gate.events, e.isError = false

theorem letsPass_of_approved (h : Approved c s toolName params nodeLabel a)
    (herror : s.ctx.error = []) (hallowed : a.2.1.allowed = true)
    (hagain : a.2.1.needsApproval = false) :
    let policy := s.ctx.confirmationPolicy.bind c.rt.process.policy
    LetsPass (Runtime.toolCallGate c.rt.process.isAlnum policy nodeLabel s.ctx.error toolName params
        a.1 a.2.1 a.2.2) a.2.1 s.ctx.error ∧
      LetsPass (Runtime.toolNodeGate c.rt.process.isAlnum policy nodeLabel s.ctx.error
        toolName params
        a.1 a.2.1 a.2.2) a.2.1 s.ctx.error := by
  obtain ⟨hneeds, v, hv, hp⟩ := h
  simp only [Runtime.toolCallGate, Runtime.toolNodeGate, if_pos hneeds, hv, hp, herror,
    Runtime.orText, if_true, ne_eq, not_true_eq_false, if_false]
  exact ⟨admission_again (isError_of_approved hp) hallowed hagain,
    admission_again (isError_of_approved hp) hallowed hagain⟩

end

/-! ### Tool calls of an LLM node -/

/-- What follows the gate of a tool call of an LLM node. -/
def followGate (node : NodeConfig) (toolName id : Str) (o : Runtime.FunnelOutcome)
    (gate : Runtime.Gate Dict) : Option Dict → Exec (List Str)
  | some args => do
    Exec.pass gate
    Exec.storeResult node toolName id (← Exec.callTool .functionCall toolName args)
  | none => do
    if gate.denial ≠ [] then
      Exec.addMessage { role := .tool, content := gate.denial, toolCallId := id }
    Exec.pass gate
    return if o.needsApproval ∧ (o.safetyResult.or o.escalation).isNone
      then [toolName ++ ": " ++ gate.denial] else []

/-- What comes of the admissions of a tool call of an LLM node. -/
def settleCall (node : NodeConfig) (toolName : Str) (args : Dict) (id : Str)
    (a : Runtime.FunnelOutcome × Runtime.FunnelOutcome × Runtime.Ask) : Exec (List Str) := do
  let gate := Runtime.toolCallGate (← Exec.scope).rt.process.isAlnum (← Exec.policy) node.label
    (← Exec.ctx).error toolName args a.1 a.2.1 a.2.2
  followGate node toolName id a.1 gate gate.passed

theorem executeFunction_eq (node : NodeConfig) (toolName : Str) (args : Dict) (id : Str) :
    Exec.executeFunction node toolName args id = Exec.emit ⟨.toolCall, []⟩ >>= fun _ =>
      Exec.admitInteractive toolName args node.label >>= settleCall node toolName args id := by
  refine bind_congr fun _ => bind_congr fun a => bind_congr fun c => bind_congr fun policy =>
    bind_congr fun ctx => ?_
  generalize Runtime.toolCallGate c.rt.process.isAlnum policy node.label ctx.error toolName args a.1
    a.2.1 a.2.2 = gate
  obtain ⟨events, error, denial, passed⟩ := gate
  cases passed <;> rfl

theorem idles_followGate_none (node : NodeConfig) (toolName id : Str) (o : Runtime.FunnelOutcome)
    (gate : Runtime.Gate Dict) :
    Exec.idling.Does (fun _ => True) True (followGate node toolName id o gate none) := by
  have hrest : Exec.idling.Does (fun _ => True) True (do
      Exec.pass gate
      return if o.needsApproval ∧ (o.safetyResult.or o.escalation).isNone
        then [toolName ++ ": " ++ gate.denial] else []) :=
    .bind (.pass _) fun _ => .pure _
  exact .ite (fun _ => .bind (.addMessage rfl) fun _ => hrest) fun _ => hrest

/-- What follows a gate asks for no admission, and a call that passes is made and its result
becomes a message. -/
theorem traced_followGate {toolName id : Str} {o : Runtime.FunnelOutcome} {gate : Runtime.Gate Dict}
    {c : Scope} {s : Run} {r : Except Stop (List Str) × Run}
    (h : (followGate node toolName id o gate gate.passed c s).Traced t r) :
    Unasked t ∧ ∀ o', LetsPass gate o' s.ctx.error → ∃ answer content,
      Exec.Answered .functionCall t answer ∧ Exec.Reports toolName (answer.text toolName) content ∧
        r.2.ctx.messages = Exec.filed c.rt.process.contextMaxMessages node.label
          { role := .tool, content, toolCallId := id } s.ctx.messages := by
  cases hp : gate.passed with
  | none =>
    rw [hp] at h
    refine ⟨(Exec.idle_of_does (idles_followGate_none _ _ _ _ _) h).unasked, fun o' hpass => ?_⟩
    rw [hpass.1] at hp
    exact absurd hp (by simp)
  | some args =>
    rw [hp, followGate, bind_apply] at h
    obtain ⟨t₁, t₂, ⟨stop | _, s₁⟩, rfl, hpass, hnext⟩ := Program.traced_bind.mp h
    · obtain ⟨rfl, rfl⟩ := Program.traced_ret.mp hnext
      refine ⟨(Exec.idle_of_does (.pass gate) hpass).unasked.append (by simp [Unasked]), ?_⟩
      rintro o' ⟨-, -, hevents⟩
      exact absurd (Exec.traced_pass hevents hpass).2.1 (by simp)
    · have hidle := Exec.idle_of_does (.pass gate) hpass
      have hctx := (Program.always_iff.mp (Exec.always_pass gate c s) _ hpass.returns).1
      dsimp only at hctx hnext
      rw [bind_apply] at hnext
      obtain ⟨t₃, t₄, a, rfl, hcall, hstore⟩ := Program.traced_bind.mp hnext
      obtain ⟨answer, rfl, hunasked, hanswered⟩ := Exec.answered_of_traced hcall
      have hstored := Exec.idle_of_does (.storeResult node toolName id answer) hstore
      refine ⟨hidle.unasked.append (hunasked.append hstored.unasked), fun o' _ => ?_⟩
      obtain ⟨content, hreports, hmessages⟩ := Exec.returns_storeResult hstore.returns
      rw [hctx] at hmessages
      exact ⟨answer, content, hanswered.append (hidle.executions (by simp))
        (hstored.executions (by simp)), hreports, hmessages⟩

/-- A tool call of an LLM node that got its approval is carried out if and only if the context had
no error. -/
theorem carriedOut_executeFunction {toolName : Str} {args : Dict} {id : Str} {c : Scope} {s : Run}
    {r : Except Stop (List Str) × Run}
    (h : (Exec.executeFunction node toolName args id c s).Traced t r)
    (hgranted : Granted c s toolName args node.label t) :
    CarriedOut c s toolName args node.label .functionCall id t r.2 ↔ s.ctx.error = [] := by
  rw [executeFunction_eq, bind_apply] at h
  obtain ⟨t₁, t₂, r₁, rfl, hemit, hnext⟩ := Program.traced_bind.mp h
  have hidle := Exec.idle_of_does (.emit _) hemit
  rw [Exec.returns_emit.mp hemit.returns, Exec.yieldEnd, if_neg (by simp)] at hnext
  dsimp only at hnext
  rw [bind_apply] at hnext
  obtain ⟨t₃, t₄, r₂, rfl, hadmit, hsettle⟩ := Program.traced_bind.mp hnext
  obtain ⟨a, rfl, hadmitted⟩ := Exec.admitted_of_traced hadmit
  dsimp only at hsettle
  obtain ⟨hunasked, hfollow⟩ := traced_followGate (s := { s with events := _ }) hsettle
  refine carriedOut_iff_of_admitted hidle.unasked hunasked hadmitted ?_ hgranted
  intro happroved herror hallowed hagain
  obtain ⟨answer, content, hanswered, hreports, hmessages⟩ :=
    hfollow _ (letsPass_of_approved happroved herror hallowed hagain).1
  have hbefore : executions .functionCall (t₁ ++ t₃) = [] := by
    rw [executions_append, hidle.executions (by simp), hadmitted.executions, List.append_nil]
  have hall := hanswered.append hbefore (show executions .functionCall [] = [] from rfl)
  rw [List.append_nil, List.append_assoc] at hall
  exact ⟨answer, content, hall, hreports, hmessages⟩

/-! ### Tool nodes -/

/-- The parameters that a tool node calls its tool with. -/
def nodeParams (c : Scope) (s : Run) (node : NodeConfig) : Dict :=
  interpolateParams (c.rt.process.interpolate (s.ctx.seeded c.rt.vars)) node.toolParams

theorem traced_body {x : Exec Unit} {c : Scope} {s : Run} {r : Except Stop Unit × Run}
    (h : (Exec.body x c s).Traced t r) : ∃ r', (x c s).Traced t r' ∧ r'.2 = r.2 := by
  obtain ⟨t₁, t₂, ⟨_ | _, s'⟩, rfl, hx, hend⟩ := Program.traced_bind.mp h
  · rename_i stop
    cases stop <;>
      · obtain ⟨rfl, rfl⟩ := Program.traced_ret.mp hend
        rw [List.append_nil]
        exact ⟨_, hx, rfl⟩
  · obtain ⟨rfl, rfl⟩ := Program.traced_ret.mp hend
    rw [List.append_nil]
    exact ⟨_, hx, rfl⟩

theorem traced_callAdmitted {gate : Runtime.Gate Dict} {c : Scope} {s : Run}
    {r : Except Stop (Option (ToolAnswer Str)) × Run}
    (h : ((Exec.pass gate >>= fun _ => Exec.callAdmitted node gate.passed) c s).Traced t r) :
    Unasked t ∧ ∀ o', LetsPass gate o' s.ctx.error →
      ∃ answer, r.1 = .ok (some answer) ∧ Exec.Answered .toolNode t answer := by
  rw [bind_apply] at h
  obtain ⟨t₁, t₂, ⟨stop | _, s₁⟩, rfl, hpass, hnext⟩ := Program.traced_bind.mp h
  · obtain ⟨rfl, rfl⟩ := Program.traced_ret.mp hnext
    refine ⟨(Exec.idle_of_does (.pass gate) hpass).unasked.append (by simp [Unasked]), ?_⟩
    rintro o' ⟨-, -, hevents⟩
    exact absurd (Exec.traced_pass hevents hpass).2.1 (by simp)
  · have hidle := Exec.idle_of_does (.pass gate) hpass
    dsimp only at hnext
    cases hp : gate.passed with
    | none =>
      rw [hp] at hnext
      obtain ⟨rfl, rfl⟩ := Program.traced_ret.mp hnext
      refine ⟨hidle.unasked.append (by simp [Unasked]), fun o' hlets => ?_⟩
      rw [hlets.1] at hp
      exact absurd hp (by simp)
    | some args =>
      rw [hp, Exec.callAdmitted, bind_apply] at hnext
      obtain ⟨t₃, t₄, a, rfl, hcall, hend⟩ := Program.traced_bind.mp hnext
      obtain ⟨answer, rfl, hunasked, hanswered⟩ := Exec.answered_of_traced hcall
      obtain ⟨rfl, rfl⟩ := Program.traced_ret.mp hend
      refine ⟨hidle.unasked.append (hunasked.append (by simp [Unasked])), fun o' _ => ?_⟩
      exact ⟨answer, rfl, hanswered.append (hidle.executions (by simp)) rfl⟩

/-- What a tool node asks up to the answer of its tool: nothing about an admission, or the
admissions of its call, after which a call that passes is made. -/
theorem traced_answerToolNode {c : Scope} {s : Run}
    {r : Except Stop (Option (ToolAnswer Str)) × Run}
    (h : (Exec.answerToolNode node c s).Traced t r) :
    Unasked t ∨ ∃ t₁ t₂ a, t = t₁ ++ t₂ ∧ Unasked t₂ ∧
      Exec.Admitted node.toolName (nodeParams c s node) node.label c s.ctx t₁ a ∧
      (LetsPass (Runtime.toolNodeGate c.rt.process.isAlnum
          (s.ctx.confirmationPolicy.bind c.rt.process.policy) node.label s.ctx.error node.toolName
          (nodeParams c s node) a.1 a.2.1 a.2.2) a.2.1 s.ctx.error →
        ∃ answer, r.1 = .ok (some answer) ∧ Exec.Answered .toolNode t₂ answer) := by
  have habort {text : Str} {t : List (Event Step.Answer)}
      (h : ((Exec.abort text : Exec (Option (ToolAnswer Str))) c s).Traced t r) : Unasked t :=
    (Exec.idle_of_does (.abort text) h).unasked
  rw [Exec.answerToolNode] at h
  change ((if _ then _ else _ : Exec _) c s).Traced t r at h
  split_ifs at h
  · exact .inl (habort h)
  · change ((if _ then _ else _ : Exec _) c s).Traced t r at h
    split_ifs at h
    · exact .inl (habort h)
    · rw [bind_apply] at h
      obtain ⟨t₁, t₂, r₁, rfl, hadmit, hnext⟩ := Program.traced_bind.mp h
      obtain ⟨⟨o, readmission, reaction⟩, rfl, hadmitted⟩ := Exec.admitted_of_traced hadmit
      obtain ⟨hunasked, hcall⟩ := traced_callAdmitted hnext
      exact .inr ⟨t₁, t₂, _, rfl, hunasked, hadmitted, hcall readmission⟩

/-- A tool node whose call got its approval is carried out if and only if the context had no
error. -/
theorem carriedOut_executeToolNode {nested : Nested} {g : AgentGraph} {c : Scope} {s : Run}
    {r : Except Stop Unit × Run} (hname : node.toolName ≠ "__sub_graph__")
    (h : (Exec.executeToolNode nested node g c s).Traced t r)
    (hgranted : Granted c s node.toolName (nodeParams c s node) node.label t) :
    CarriedOut c s node.toolName (nodeParams c s node) node.label .toolNode
      ("tool_" ++ node.toolName) t r.2 ↔ s.ctx.error = [] := by
  rw [Exec.executeToolNode_eq hname] at h
  obtain ⟨r', hbody, hr⟩ := traced_body h
  rw [bind_apply] at hbody
  obtain ⟨t₁, t₂, r₁, rfl, hcall, hfollow⟩ := Program.traced_bind.mp hbody
  -- whatever follows the call, it asks for no admission
  have hidle : Idle t₂ := by
    obtain ⟨stop | answer, s₁⟩ := r₁
    · obtain ⟨rfl, -⟩ := Program.traced_ret.mp hfollow
      simp [Idle]
    · cases answer with
      | none => exact Exec.idle_of_does (.pure ()) hfollow
      | some answer => exact Exec.idle_of_does (.followToolNode node g answer) hfollow
  rcases traced_answerToolNode hcall with hunasked | ⟨t₃, t₄, a, rfl, hunasked, hadmitted, hlets⟩
  · obtain ⟨o, -, -, ho, -⟩ := hgranted
    exact absurd ((hunasked.append hidle.unasked) _ ho) (by simp [Call.admits])
  · have hnil : Unasked [] := by simp [Unasked]
    have hshape : t₃ ++ t₄ ++ t₂ = [] ++ (t₃ ++ (t₄ ++ t₂)) := by
      rw [List.nil_append, List.append_assoc]
    rw [hshape] at hgranted ⊢
    refine carriedOut_iff_of_admitted hnil (hunasked.append hidle.unasked) hadmitted ?_ hgranted
    intro happroved herror hallowed hagain
    obtain ⟨answer, hr₁, hanswered⟩ :=
      hlets (letsPass_of_approved happroved herror hallowed hagain).2
    obtain ⟨hmessages, -⟩ := (Exec.callLeaves hcall.returns).2 answer hr₁
    obtain ⟨_, s₁⟩ := r₁
    dsimp only at hr₁ hmessages
    rw [hr₁] at hfollow
    have hnoted := (Exec.followToolNode_leaves hfollow.returns).1
    rw [hmessages, hr] at hnoted
    have hall := hanswered.append (hadmitted.executions .toolNode)
      (hidle.executions (show ToolSite.toolNode ≠ .postActionCapture by simp))
    exact ⟨answer, _, hall, .inl rfl, hnoted⟩

/-- **A call that got its approval is carried out if and only if the context had no error**, for a
tool node and for a tool call of an LLM node. -/
theorem carriedOut_iff (c : Scope) (s : Run) (t : List (Event Step.Answer)) :
    (∀ (nested : Nested) (node : NodeConfig) (g : AgentGraph) (r : Except Stop Unit × Run),
      node.toolName ≠ "__sub_graph__".toList →
        (Exec.executeToolNode nested node g c s).Traced t r →
          Granted c s node.toolName (nodeParams c s node) node.label t →
            (CarriedOut c s node.toolName (nodeParams c s node) node.label .toolNode
              ("tool_".toList ++ node.toolName) t r.2 ↔ s.ctx.error = [])) ∧
      ∀ (node : NodeConfig) (toolName : Str) (args : Dict) (id : Str)
        (r : Except Stop (List Str) × Run),
        (Exec.executeFunction node toolName args id c s).Traced t r →
          Granted c s toolName args node.label t →
            (CarriedOut c s toolName args node.label .functionCall id t r.2 ↔
              s.ctx.error = []) :=
  ⟨fun _ _ _ _ hname h hgranted => carriedOut_executeToolNode hname h hgranted,
    fun _ _ _ _ _ h hgranted => carriedOut_executeFunction h hgranted⟩

/-! ### A node that failed before -/

/-- The verdict of a gateway that leaves a call to an approval. -/
def approvalVerdict : Runtime.SafetyVerdict where
  action := .preview
  requiresApproval := true
  actionId := ['a']

/-- An environment in which every call needs an approval and gets it, and is allowed then; a
verification fails. -/
def Call.approve : (call : Call) → call.Answer
  | .verify =>
    some { passed := false, summary := [], issues := "i", score := .num 0,
           attempt := .num 1 }
  | .admission _ _ true false =>
    { allowed := false, needsApproval := true, safetyResult := some approvalVerdict }
  | .awaitApproval _ =>
    { freshId := [], commands := [{ approve := true, actionId := ['a'], taken := true }] }
  | call => call.oblige {}

def toolNode : NodeConfig where
  type := .tool
  toolName := "w"

def verifyThenTool : AgentGraph where
  id := "g"
  nodes := [("s", { type := .start }), ("v", { type := .verify }),
    ("t", toolNode)]
  edges := [{ sourceId := "s", targetId := "v" },
    { sourceId := "v", targetId := "t" }]
  startNodeId := "s"
  nodup := by
    change List.Nodup ["s".toList, "v".toList, "t".toList]
    decide

def verifiedRun : Entry where
  rt := { process := plainProcess }
  graph := verifyThenTool

def verifiedScope : Scope := { verifiedRun.scope none with errorStops := some 0 }

def verifiedTurns : List Turn :=
  verifiedRun.turnsIn (nestedAt 8 verifyThenTool) none none fun q => q.call.approve

def approvedNode (s : Run) : List (Event Step.Answer) × Except Stop Unit × Run :=
  (Exec.executeToolNode (nestedAt 8 verifyThenTool) toolNode verifyThenTool verifiedScope s).run
    (fun q _ => (q.call.approve, ())) ()

/-- A tool call of an LLM node in this run, from a state. -/
def approvedCall (s : Run) : List (Event Step.Answer) × Except Stop (List Str) × Run :=
  (Exec.executeFunction { type := .llm } "w" Dict.empty ['i'] verifiedScope s).run
    (fun q _ => (q.call.approve, ())) ()

theorem granted_approvedNode {s : Run} (hplan : s.ctx.planMode = false)
    (hpolicy : s.ctx.confirmationPolicy = none) :
    Granted verifiedScope s toolNode.toolName (nodeParams verifiedScope s toolNode) toolNode.label
      (approvedNode s).1 := by
  obtain ⟨ctx, events⟩ := s
  obtain ⟨⟩ := ctx
  dsimp only at hplan hpolicy
  subst hplan hpolicy
  exact ⟨_, _, _, List.mem_of_getElem? (i := 0) rfl, rfl, rfl, List.mem_of_getElem? (i := 1) rfl,
    rfl⟩

theorem granted_approvedCall {s : Run} (hpolicy : s.ctx.confirmationPolicy = none) :
    Granted verifiedScope s "w" Dict.empty [] (approvedCall s).1 := by
  obtain ⟨ctx, events⟩ := s
  obtain ⟨⟩ := ctx
  dsimp only at hpolicy
  subst hpolicy
  exact ⟨_, _, _, List.mem_of_getElem? (i := 1) rfl, rfl, rfl, List.mem_of_getElem? (i := 2) rfl,
    rfl⟩

/-- In a context without an error both are carried out. -/
theorem carriedOut_fresh :
    CarriedOut verifiedScope { ctx := {} } toolNode.toolName
        (nodeParams verifiedScope { ctx := {} } toolNode) toolNode.label .toolNode
        ("tool_".toList ++ toolNode.toolName) (approvedNode { ctx := {} }).1
        (approvedNode { ctx := {} }).2.2 ∧
      CarriedOut verifiedScope { ctx := {} } "w".toList Dict.empty [] .functionCall ['i']
        (approvedCall { ctx := {} }).1 (approvedCall { ctx := {} }).2.2 :=
  ⟨((carriedOut_iff verifiedScope { ctx := {} } (approvedNode { ctx := {} }).1).1 _ _ _ _
      (by decide) (Program.traced_run _ _ _) (granted_approvedNode rfl rfl)).mpr rfl,
    ((carriedOut_iff verifiedScope { ctx := {} } (approvedCall { ctx := {} }).1).2 _ _ _ _ _
      (Program.traced_run _ _ _) (granted_approvedCall rfl)).mpr rfl⟩

/-- After a verification that has failed, the call that gets its approval is not carried out. -/
theorem not_carriedOut : ¬ ∀ (e : Entry) (nested : Nested) (log : List Turn),
    e.HasTurns nested none none log → ∀ τ ∈ log, ∀ node, e.graph.getNode τ.nodeId = some node →
      node.type = .tool → node.toolName ≠ "__sub_graph__".toList → ∀ t r,
        (Exec.consumed (Exec.executeToolNode nested node e.graph) (e.scope none) τ.before).Traced
            t r →
          let c := { e.scope none with errorStops := some 0 }
          Granted c τ.before node.toolName (nodeParams c τ.before node) node.label t →
            CarriedOut c τ.before node.toolName (nodeParams c τ.before node) node.label .toolNode
              ("tool_".toList ++ node.toolName) t r.2 := by
  intro h
  have hturns : verifiedRun.HasTurns (nestedAt 8 verifyThenTool) none none verifiedTurns :=
    Entry.hasTurns_turnsIn (by decide +kernel)
  obtain ⟨τ, hτ⟩ : ∃ τ, verifiedTurns[2]? = some τ :=
    Option.isSome_iff_exists.mp (by decide +kernel)
  have hfield {α : Type} (f : Turn → α) : (verifiedTurns[2]?).map f = some (f τ) := by
    rw [hτ, Option.map_some]
  have hid : τ.nodeId = "t" :=
    Option.some.inj ((hfield Turn.nodeId).symm.trans (by decide +kernel))
  have hplan : τ.before.ctx.planMode = false :=
    Option.some.inj ((hfield fun τ => τ.before.ctx.planMode).symm.trans (by decide +kernel))
  have herror : τ.before.ctx.error ≠ [] := by
    have hsome := (hfield fun τ => τ.before.ctx.error).symm.trans
      (by decide +kernel : _ = some "Verify failed: i".toList)
    rw [Option.some.inj hsome]
    decide
  have hpolicy : τ.before.ctx.confirmationPolicy = none := by
    have hnone := (hfield fun τ => τ.before.ctx.confirmationPolicy.isNone).symm.trans
      (by decide +kernel : _ = some true)
    exact Option.isNone_iff_eq_none.mp (Option.some.inj hnone)
  have hcarried := h verifiedRun _ _ hturns τ (List.mem_of_getElem? hτ) toolNode
    (by rw [hid]; rfl) rfl (by decide) _ _ (Program.traced_run _ _ _)
    (granted_approvedNode hplan hpolicy)
  exact herror ((carriedOut_executeToolNode (by decide) (Program.traced_run _ _ _)
    (granted_approvedNode hplan hpolicy)).mp hcarried)

end AgentStudio.Execution

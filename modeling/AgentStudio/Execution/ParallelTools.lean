import AgentStudio.Execution.Approvals
import AgentStudio.Execution.ToolArgs
import AgentStudio.Library.Interleavings
import Mathlib.Algebra.Order.BigOperators.Group.List

/-!
# Tool calls one after the other and at the same time

An LLM node makes the tool calls of an answer one after the other, or at the same time if
`parallel_tool_calls` is set (`_exec_parallel_tool`). The two ways are written apart: each admits a
call, validates and completes its arguments, calls the tool and stores the result. They differ in
`_merge_tool_config_defaults`, which gets the context of the run in the first way only, so that the
configurations of the execution (`ctx.tool_configs`) are not seen in the second.

* `Toolbox` is what answers a run: the tools, which are functions of their keyword arguments, the
  configurations of the runtime and of the execution, and what the hooks of the funnel make of
  arguments. `Call.AnsweredBy` says that a question is answered by it, for calls that are admitted
  without an approval.
* `traced_sequential` and `traced_parallel` compute for each way the calls that are made, with
  their arguments, and the context at the end. In the second way the order of the calls is the
  schedule's (`Program.traced_gather`).
* `SameEffect` is the law, and `sameEffect_iff` says when it holds: wherever the arguments of a call
  leave a name to the configuration, those of the execution and of the runtime have the same there.
-/

namespace AgentStudio.Execution

open PyText PyJson PyDict AgentStudio.Graph Programs

/-! ### Tools -/

/-- The keyword arguments of a call, as the tool finds them. -/
abbrev Kwargs : Type := Str → Option Json

/-- A deterministic tool: the properties of its schema, and what `execute` returns. -/
structure Tool where
  parameters : List (Str × Json)
  execute : Kwargs → ToolAnswer Str

structure Toolbox where
  tools : Str → Option Tool
  conv : Coercions
  /-- `self.tool_configs` -/
  toolConfigs : Configs
  /-- `ctx.tool_configs` -/
  execConfigs : Configs
  /-- the arguments that the hooks of the funnel leave -/
  hooked : Str → Dict → Dict

def ToolAnswer.map {α β : Type} (f : α → β) : ToolAnswer α → ToolAnswer β
  | .keyError => .keyError
  | .failed error => .failed error
  | .ok value => .ok (f value)

namespace Toolbox

variable (B : Toolbox) (ctx : Option Configs) (toolName : Str) (args : Dict)

/-- The configurations of the execution that `_merge_tool_config_defaults` gets for the calls of an
answer: `_exec_parallel_tool` calls it without the context. -/
def configsFor (parallel : Bool) : Option Configs := if parallel then none else some B.execConfigs

/-- The tool of a call with its final arguments. -/
def prepare : ToolAnswer (Tool × List (Str × Json)) :=
  match B.tools toolName with
  | none => .keyError
  | some tool =>
    match validateToolArgs B.conv tool.parameters args.members with
    | .error text => .failed text
    | .ok validated => .ok (tool, mergeToolConfigDefaults B.toolConfigs ctx toolName validated)

def kwargs : Option Kwargs :=
  match B.prepare ctx toolName args with
  | .ok p => some fun name => p.2.lookup name
  | _ => none

def answer : ToolAnswer Str :=
  match B.prepare ctx toolName args with
  | .keyError => .keyError
  | .failed error => .failed error
  | .ok p => p.1.execute fun name => p.2.lookup name

/-- The calls that a call of an answer makes. -/
def madeFor (call : Str × Dict × Str) : List (Str × Kwargs) :=
  (B.kwargs ctx call.1 (B.hooked call.1 call.2.1)).toList.map fun kwargs => (call.1, kwargs)

def resultOf (call : Str × Dict × Str) : Str :=
  (B.answer ctx call.1 (B.hooked call.1 call.2.1)).text call.1

end Toolbox

/-- The question is answered by a toolbox, with the configurations that are seen, and a call is
admitted without an approval. -/
def Call.AnsweredBy (B : Toolbox) (ctx : Option Configs) : (call : Call) → call.Answer → Prop
  | .getTool toolName, found => found = (B.tools toolName).isSome
  | .prepareArgs toolName args, prepared =>
    prepared.map Dict.members = (B.prepare ctx toolName args).map Prod.snd
  | .execute _ toolName args, answer => ∀ tool, B.tools toolName = some tool →
    answer = tool.execute fun name => args.members.lookup name
  | .admission toolName args _ _, o =>
    o.allowed = true ∧ o.needsApproval = false ∧ o.args = B.hooked toolName args
  | _, _ => True

/-- The questions of a trace are answered by a toolbox. -/
def AnsweredBy (B : Toolbox) (ctx : Option Configs) (t : List (Event Step.Answer)) : Prop :=
  ∀ e ∈ t, e.1.call.AnsweredBy B ctx e.2

/-- The call of a tool for a node, with its arguments. -/
def Call.made : Call → Option (Str × Kwargs)
  | .execute site toolName args =>
    if site = .postActionCapture then none
    else some (toolName, fun name => args.members.lookup name)
  | _ => none

def made (t : List (Event Step.Answer)) : List (Str × Kwargs) := t.filterMap fun e => e.1.call.made

theorem made_append (t t' : List (Event Step.Answer)) : made (t ++ t') = made t ++ made t' :=
  List.filterMap_append

theorem Idle.made {t : List (Event Step.Answer)} (h : Idle t) : made t = [] := by
  refine List.filterMap_eq_nil_iff.mpr fun e he => ?_
  have hidle := h e he
  generalize e.1.call = call at hidle
  cases call with
  | execute site toolName args => exact if_pos (by simpa [Call.decides] using hidle)
  | _ => rfl

section

variable {B : Toolbox} {ctx : Option Configs} {c : Scope} {s : Run} {t : List (Event Step.Answer)}

theorem AnsweredBy.of_append {t' : List (Event Step.Answer)} (h : AnsweredBy B ctx (t ++ t')) :
    AnsweredBy B ctx t ∧ AnsweredBy B ctx t' := List.forall_mem_append.mp h

/-! ### A call -/

variable {toolName : Str} {node : NodeConfig} {r : Except Stop (List Str) × Run}
  {calls : List (Str × Dict × Str)}

theorem Toolbox.tools_of_prepare {args : Dict} {p : Tool × List (Str × Json)}
    (h : B.prepare ctx toolName args = .ok p) : B.tools toolName = some p.1 := by
  rw [prepare] at h
  split at h
  · exact absurd h (by simp)
  · rename_i tool htool
    split at h
    · exact absurd h (by simp)
    · rw [htool, ← ToolAnswer.ok.inj h]

private theorem cases_of_map {prepared : ToolAnswer Dict}
    {q : ToolAnswer (Tool × List (Str × Json))} (h : prepared.map Dict.members = q.map Prod.snd) :
    prepared = .keyError ∧ q = .keyError ∨
      (∃ error, prepared = .failed error ∧ q = .failed error) ∨
      ∃ args p, prepared = .ok args ∧ q = .ok p ∧ args.members = p.2 := by
  cases prepared <;> cases q <;> simp_all [ToolAnswer.map]

theorem traced_callTool {site : ToolSite} (hsite : site ≠ .postActionCapture) {args : Dict}
    {r : Except Stop (ToolAnswer Str) × Run} (h : (Exec.callTool site toolName args c s).Traced t r)
    (hB : AnsweredBy B ctx t) :
    r = (.ok (B.answer ctx toolName args), s) ∧
      made t = (B.kwargs ctx toolName args).toList.map fun kwargs => (toolName, kwargs) := by
  obtain ⟨found, t₁, rfl, hnext⟩ := Program.traced_ask.mp h
  change ((if found = true then _ else _ : Exec _) c s).Traced t₁ r at hnext
  obtain ⟨hfound, hB₁⟩ := List.forall_mem_cons.mp hB
  change found = (B.tools toolName).isSome at hfound
  subst hfound
  rw [Toolbox.answer, Toolbox.kwargs]
  cases htool : B.tools toolName with
  | none =>
    rw [htool] at hnext
    obtain ⟨rfl, rfl⟩ := Program.traced_ret.mp hnext
    have hprepare : B.prepare ctx toolName args = .keyError := by rw [Toolbox.prepare, htool]
    rw [hprepare]
    exact ⟨rfl, rfl⟩
  | some tool =>
    rw [htool] at hnext
    obtain ⟨prepared, t₂, rfl, hlast⟩ := Program.traced_ask.mp hnext
    obtain ⟨hprepared, hB₂⟩ := List.forall_mem_cons.mp hB₁
    rcases cases_of_map hprepared with ⟨rfl, hq⟩ | ⟨error, rfl, hq⟩ | ⟨args', p, rfl, hq, hmembers⟩
    · obtain ⟨rfl, rfl⟩ := Program.traced_ret.mp hlast
      rw [hq]
      exact ⟨rfl, rfl⟩
    · obtain ⟨rfl, rfl⟩ := Program.traced_ret.mp hlast
      rw [hq]
      exact ⟨rfl, rfl⟩
    · obtain ⟨answer, t₃, rfl, hend⟩ := Program.traced_ask.mp hlast
      obtain ⟨rfl, rfl⟩ := Program.traced_ret.mp hend
      have hanswer : answer = p.1.execute fun name => args'.members.lookup name :=
        (List.forall_mem_cons.mp hB₂).1 p.1 (Toolbox.tools_of_prepare hq)
      rw [hq, hanswer, hmembers]
      refine ⟨rfl, ?_⟩
      simp [made, Call.made, hsite, hmembers]

/-! ### Storing a result -/

/-- An error that may be escalated, and the context with the count of it. -/
def escalated (toolName result : Str) (c : Scope) (ctx : AgentContext) : Str × AgentContext :=
  match Exec.escalateRepeatToolError toolName result c { ctx } with
  | .ret (.ok text, s) => (text, s.ctx)
  | _ => (result, ctx)

theorem escalate_apply (toolName result : Str) (c : Scope) (s : Run) :
    Exec.escalateRepeatToolError toolName result c s = .ret
      (.ok (escalated toolName result c s.ctx).1,
        { s with ctx := (escalated toolName result c s.ctx).2 }) := by
  rw [escalated]
  dsimp only [Exec.escalateRepeatToolError, bind, Program.bind, Exec.ctx, Exec.modify]
  split_ifs <;> rfl

theorem planMode_escalated (toolName result : Str) (c : Scope) (ctx : AgentContext) :
    (escalated toolName result c ctx).2.planMode = ctx.planMode := by
  rw [escalated]
  dsimp only [Exec.escalateRepeatToolError, bind, Program.bind, Exec.ctx, Exec.modify]
  split_ifs <;> rfl

/-- The context after the result of a call has been stored. -/
def recorded (c : Scope) (nodeLabel toolName id result : Str) (ctx : AgentContext) : AgentContext :=
  let e := if isError result then escalated toolName result c ctx else (result, ctx)
  { e.2 with
    messages := Exec.filed c.rt.process.contextMaxMessages nodeLabel
      { role := .tool, content := e.1, toolCallId := id } e.2.messages }

@[simp] theorem planMode_recorded (c : Scope) (nodeLabel toolName id result : Str)
    (ctx : AgentContext) :
    (recorded c nodeLabel toolName id result ctx).planMode = ctx.planMode := by
  rw [recorded]
  split_ifs
  · exact planMode_escalated toolName result c ctx
  · rfl

/-- A result is stored: an error may be escalated, and the message is labelled. -/
def record {α : Type} (node : NodeConfig) (toolName id result : Str) (f : Str → α) : Exec α := do
  let result ← if isError result then Exec.escalateRepeatToolError toolName result else pure result
  Exec.addMessage { role := .tool, content := result, toolCallId := id }
  Exec.modifyLast ({ · with nodeId := node.label })
  Exec.emit ⟨.toolResult, result⟩
  return f result

theorem traced_record {α : Type} {id result : Str} {f : Str → α} {r : Except Stop α × Run}
    (h : (record node toolName id result f c s).Traced t r) :
    Idle t ∧ (∃ a, r.1 = .ok a) ∧ r.2.ctx = recorded c node.label toolName id result s.ctx := by
  have hidles : Exec.idling.Does (fun _ => True) True (record node toolName id result f) :=
    .ite (fun _ => .bind (.escalateRepeatToolError _ _) fun _ => .noteResult _ _ _ _ _)
      fun _ => .noteResult _ _ _ _ _
  refine ⟨Exec.idle_of_does hidles h, ?_⟩
  have hstored {text : Str} {s : Run} (hr : ((do
      Exec.addMessage { role := .tool, content := text, toolCallId := id }
      Exec.modifyLast ({ · with nodeId := node.label })
      Exec.emit ⟨.toolResult, text⟩
      return f text : Exec α) c s).Returns r) :
      (∃ a, r.1 = .ok a) ∧ r.2.ctx = { s.ctx with
        messages := Exec.filed c.rt.process.contextMaxMessages node.label
          { role := .tool, content := text, toolCallId := id } s.ctx.messages } := by
    rw [bind_apply, Program.returns_bind] at hr
    obtain ⟨r₁, hadd, hnext⟩ := hr
    rw [Exec.returns_addMessage hadd] at hnext
    change ((Exec.emit _ >>= fun _ => _ : Exec α) c _).Returns r at hnext
    rw [bind_apply, Program.returns_bind] at hnext
    obtain ⟨r₂, hemit, hend⟩ := hnext
    rw [Exec.returns_emit.mp hemit, Exec.yieldEnd, if_neg (by simp)] at hend
    rw [Program.returns_ret.mp hend]
    exact ⟨⟨_, rfl⟩, rfl⟩
  have hr := h.returns
  rw [record] at hr
  change ((if _ then _ else _ : Exec α) c s).Returns r at hr
  rw [recorded]
  split_ifs at hr ⊢
  · rw [bind_apply, escalate_apply] at hr
    exact hstored hr
  · exact hstored hr

/-! ### One after the other -/

theorem storeResult_eq {id : Str} (hname : toolName ≠ "exit_plan_mode")
    (answer : ToolAnswer Str) :
    Exec.storeResult node toolName id answer =
      record node toolName id (answer.text toolName) fun result =>
        if isError result then [toolName ++ ": " ++ result] else [] := by
  rw [Exec.storeResult]
  exact if_neg fun h => hname h.1

theorem letsPass_toolCallGate {o : Runtime.FunnelOutcome} (hallowed : o.allowed = true)
    (hneeds : o.needsApproval = false) (isAlnum : Char → Bool)
    (policy : Option Runtime.ConfirmationPolicy) (nodeLabel error toolName : Str) (args : Dict)
    (ask : Runtime.Ask) :
    LetsPass (Runtime.toolCallGate isAlnum policy nodeLabel error toolName args o o ask) o
      error := by
  have hpass : ¬ (o.allowed = false ∨ o.needsApproval = true) := by simp [hallowed, hneeds]
  rw [Runtime.toolCallGate, hneeds, if_neg (by simp), Runtime.admitToolCall, Runtime.admission,
    if_neg hpass]
  refine ⟨rfl, rfl, fun e he => ?_⟩
  rw [List.nil_append, Runtime.approvedEvents] at he
  split_ifs at he
  · rw [List.mem_singleton.mp he]
    rfl
  · exact absurd he List.not_mem_nil

theorem traced_followPassed {id : Str} (hname : toolName ≠ "exit_plan_mode")
    {o o' : Runtime.FunnelOutcome} {gate : Runtime.Gate Dict} (hpass : LetsPass gate o' s.ctx.error)
    (h : (followGate node toolName id o gate gate.passed c s).Traced t r)
    (hB : AnsweredBy B ctx t) :
    made t = (B.kwargs ctx toolName o'.args).toList.map (fun kwargs => (toolName, kwargs)) ∧
      (∃ errors, r.1 = .ok errors) ∧
      r.2.ctx = recorded c node.label toolName id ((B.answer ctx toolName o'.args).text toolName)
        s.ctx := by
  obtain ⟨hpassed, herror, hevents⟩ := hpass
  rw [hpassed, followGate, bind_apply] at h
  obtain ⟨t₁, t₂, ⟨r₁, s₁⟩, rfl, hgate, hnext⟩ := Program.traced_bind.mp h
  obtain ⟨hidle, hok, hctx⟩ := Exec.traced_pass hevents hgate
  dsimp only at hok hctx
  subst hok
  dsimp only at hnext
  rw [bind_apply] at hnext
  obtain ⟨t₃, t₄, r₂, rfl, hcall, hstore⟩ := Program.traced_bind.mp hnext
  obtain ⟨rfl, hmade⟩ := traced_callTool (by simp) hcall hB.of_append.2.of_append.1
  dsimp only at hstore
  rw [storeResult_eq hname] at hstore
  obtain ⟨hidle', hok, hrecorded⟩ := traced_record hstore
  rw [made_append, made_append, hidle.made, hmade, hidle'.made, List.nil_append, List.append_nil]
  refine ⟨rfl, hok, ?_⟩
  rw [hrecorded, hctx, herror]

theorem traced_executeFunction {args : Dict} {id : Str} (hname : toolName ≠ "exit_plan_mode")
    (h : (Exec.executeFunction node toolName args id c s).Traced t r) (hB : AnsweredBy B ctx t) :
    (∃ errors, r.1 = .ok errors) ∧ made t = B.madeFor ctx (toolName, args, id) ∧
      r.2.ctx = recorded c node.label toolName id (B.resultOf ctx (toolName, args, id)) s.ctx := by
  rw [executeFunction_eq, bind_apply] at h
  obtain ⟨t₁, t₂, r₁, rfl, hemit, hnext⟩ := Program.traced_bind.mp h
  have hidle := Exec.idle_of_does (.emit _) hemit
  rw [Exec.returns_emit.mp hemit.returns, Exec.yieldEnd, if_neg (by simp)] at hnext
  dsimp only at hnext
  rw [bind_apply] at hnext
  obtain ⟨t₃, t₄, r₂, rfl, hadmit, hsettle⟩ := Program.traced_bind.mp hnext
  obtain ⟨hB₃, hB₄⟩ := hB.of_append.2.of_append
  obtain ⟨a, rfl, hadmitted⟩ := Exec.admitted_of_traced hadmit
  cases hadmitted with
  | @atOnce o hv =>
    obtain ⟨hallowed, hneeds, hargs⟩ : o.allowed = true ∧ o.needsApproval = false ∧
      o.args = B.hooked toolName args := hB₃ _ List.mem_cons_self
    have hpass := letsPass_toolCallGate hallowed hneeds c.rt.process.isAlnum
      (s.ctx.confirmationPolicy.bind c.rt.process.policy) node.label s.ctx.error toolName args
      { freshId := [] }
    change (followGate node toolName id o (Runtime.toolCallGate _ _ _ _ _ _ _ _ _) _ c _).Traced
      t₄ r at hsettle
    obtain ⟨hmade, hrest⟩ := traced_followPassed (s := ⟨s.ctx, s.events ++ [⟨.toolCall, []⟩]⟩) hname
      hpass hsettle hB₄
    rw [made_append, made_append, hidle.made, hmade, hargs]
    exact ⟨hrest.1, rfl, by rw [hrest.2, hargs]; rfl⟩
  | @blocked o v reaction hv =>
    have hneeds : o.needsApproval = false := (hB₃ _ List.mem_cons_self).2.1
    exact absurd hv (by simp [hneeds])
  | @again o readmission v reaction hv =>
    have hneeds : o.needsApproval = false := (hB₃ _ List.mem_cons_self).2.1
    exact absurd hv (by simp [hneeds])

/-- The context after a call whose result has been stored. -/
def Toolbox.settle (B : Toolbox) (ctx : Option Configs) (c : Scope) (nodeLabel : Str)
    (x : AgentContext) (call : Str × Dict × Str) : AgentContext :=
  recorded c nodeLabel call.1 call.2.2 (B.resultOf ctx call) x

theorem parseCalls_cons {call : ToolCall} {calls : List ToolCall}
    {parsed : List (Str × Dict × Str)} (h : Exec.parseCalls (call :: calls) = .ok (some parsed)) :
    ∃ toolName args rest, call.call = .ok (toolName, args) ∧ toolName ∉ Exec.controlFlowTools ∧
      Exec.parseCalls calls = .ok (some rest) ∧ parsed = (toolName, args, call.id) :: rest := by
  rw [Exec.parseCalls] at h
  cases hcall : call.call with
  | error text =>
    rw [hcall] at h
    exact absurd h (by simp)
  | ok named =>
    obtain ⟨toolName, args⟩ := named
    rw [hcall] at h
    dsimp only at h
    split_ifs at h with hname
    · exact absurd (Except.ok.inj h) (by simp)
    · cases hrest : Exec.parseCalls calls with
      | error text =>
        rw [hrest] at h
        exact absurd h (by simp [Except.map])
      | ok parsed' =>
        rw [hrest] at h
        cases parsed' with
        | none => exact absurd (Except.ok.inj h) (by simp)
        | some rest =>
          exact ⟨toolName, args, rest, rfl, hname, rfl, (Option.some.inj (Except.ok.inj h)).symm⟩

theorem executeToolCall_apply {nested : Nested} {errors : List Str} {call : ToolCall} {args : Dict}
    (hcall : call.call = .ok (toolName, args)) (hname : toolName ∉ Exec.controlFlowTools)
    (hplan : s.ctx.planMode = false) :
    Exec.executeToolCall nested node errors call c s =
      (Exec.executeFunction node toolName args call.id >>= fun failed => pure (errors ++ failed)) c
        s := by
  simp only [Exec.controlFlowTools, List.mem_cons, List.not_mem_nil, or_false, not_or] at hname
  have hblocks : Exec.planBlocks toolName c s = .ret (.ok false, s) := by
    change Program.ret (Except.ok (s.ctx.planMode && _ && _), s) = _
    rw [hplan]
    rfl
  rw [Exec.executeToolCall, hcall]
  dsimp only
  rw [bind_apply, hblocks]
  dsimp only [Program.bind]
  rw [if_neg Bool.false_ne_true, if_neg hname.1, if_neg (not_or.mpr ⟨hname.2.1, hname.2.2.1⟩)]

theorem traced_sequential {nested : Nested} {errors : List Str} {calls : List ToolCall}
    {parsed : List (Str × Dict × Str)} (hcalls : Exec.parseCalls calls = .ok (some parsed))
    (hplan : s.ctx.planMode = false)
    (h : (Exec.foldl (Exec.executeToolCall nested node) errors calls c s).Traced t r)
    (hB : AnsweredBy B ctx t) :
    made t = parsed.flatMap (B.madeFor ctx) ∧
      r.2.ctx = parsed.foldl (B.settle ctx c node.label) s.ctx := by
  induction calls generalizing parsed errors s t with
  | nil =>
    obtain rfl := Option.some.inj (Except.ok.inj hcalls)
    obtain ⟨rfl, rfl⟩ := Program.traced_ret.mp h
    exact ⟨rfl, rfl⟩
  | cons call calls ih =>
    obtain ⟨toolName, args, rest, hcall, hname, hrest, rfl⟩ := parseCalls_cons hcalls
    rw [Exec.foldl, bind_apply, executeToolCall_apply hcall hname hplan, bind_apply] at h
    obtain ⟨t₁, t₂, r₁, rfl, hfirst, hnext⟩ := Program.traced_bind.mp h
    obtain ⟨t₃, t₄, ⟨r₂, s₂⟩, rfl, hexecute, hreturn⟩ := Program.traced_bind.mp hfirst
    have hexit : toolName ≠ "exit_plan_mode" := by
      rintro rfl
      exact hname (by decide)
    obtain ⟨⟨failed, hok⟩, hmade, hctx⟩ :=
      traced_executeFunction hexit hexecute hB.of_append.1.of_append.1
    dsimp only at hok hctx
    subst hok
    obtain ⟨rfl, rfl⟩ := Program.traced_ret.mp hreturn
    have hplan₂ : s₂.ctx.planMode = false := by rw [hctx, planMode_recorded, hplan]
    obtain ⟨hmade', hctx'⟩ := ih hrest hplan₂ hnext hB.of_append.2
    rw [List.append_nil, made_append, hmade, hmade', hctx', hctx]
    exact ⟨rfl, rfl⟩

/-! ### At the same time -/

/-- The confirmation policy asks for no approval of the calls. -/
def Unescalated (c : Scope) (ctx : AgentContext) (calls : List (Str × Dict × Str)) : Prop :=
  ∀ call ∈ calls, Runtime.policyEscalationVerdict c.rt.process.isAlnum
    (ctx.confirmationPolicy.bind c.rt.process.policy) call.1 call.2.1 = none

theorem traced_execParallelTool {call : Str × Dict × Str}
    (hpolicy : Runtime.policyEscalationVerdict c.rt.process.isAlnum
      (s.ctx.confirmationPolicy.bind c.rt.process.policy) call.1 call.2.1 = none)
    {r : Except Stop (Str × Bool) × Run} (h : (Exec.execParallelTool call c s).Traced t r)
    (hB : AnsweredBy B ctx t) :
    made t = B.madeFor ctx call ∧
      r = (.ok (B.resultOf ctx call, isError (B.resultOf ctx call)), s) := by
  obtain ⟨toolName, args, id⟩ := call
  obtain ⟨o, t₁, rfl, hnext⟩ := Program.traced_ask.mp h
  obtain ⟨hadmitted, hB₁⟩ := List.forall_mem_cons.mp hB
  obtain ⟨hallowed, hneeds, hargs⟩ : o.allowed = true ∧ o.needsApproval = false ∧
    o.args = B.hooked toolName args := hadmitted
  have hpassed : (Runtime.parallelToolGate c.rt.process.isAlnum
      (s.ctx.confirmationPolicy.bind c.rt.process.policy) s.ctx.error toolName args o).passed =
      some o.args := by
    rw [Runtime.parallelToolGate, hpolicy, hneeds, hallowed]
    rfl
  dsimp only [Program.bind, bind, Exec.scope, Exec.policy, Exec.ctx, pure] at hnext
  rw [hpassed] at hnext
  obtain ⟨t₂, t₃, r₁, rfl, hcall, hreturn⟩ := Program.traced_bind.mp hnext
  obtain ⟨rfl, hmade⟩ := traced_callTool (by simp) hcall (List.forall_mem_append.mp hB₁).1
  obtain ⟨rfl, rfl⟩ := Program.traced_ret.mp hreturn
  rw [hargs] at hmade ⊢
  refine ⟨?_, rfl⟩
  rw [List.append_nil]
  exact hmade

private theorem made_runs (hpolicy : Unescalated c s.ctx calls)
    {runs : List (List (Event Step.Answer) × Except Stop (Str × Bool))}
    (hall : List.Forall₂ (fun call x =>
      ((Exec.execParallelTool call c s).map Prod.fst).Traced x.1 x.2) calls runs)
    (hruns : ∀ x ∈ runs, AnsweredBy B ctx x.1) :
    (runs.map fun x => made x.1) = calls.map (B.madeFor ctx) ∧ runs.map Prod.snd =
      calls.map fun call => .ok (B.resultOf ctx call, isError (B.resultOf ctx call)) := by
  induction hall with
  | nil => exact ⟨rfl, rfl⟩
  | @cons call x calls runs hrun _ ih =>
    obtain ⟨t, t', r, htrace, hcall, hreturn⟩ := Program.traced_bind.mp hrun
    obtain ⟨rfl, hr⟩ := Program.traced_ret.mp hreturn
    rw [List.append_nil] at htrace
    obtain ⟨hx, hxs⟩ := List.forall_mem_cons.mp hruns
    obtain ⟨hp, hps⟩ := List.forall_mem_cons.mp hpolicy
    obtain ⟨hmade, rfl⟩ := traced_execParallelTool hp hcall (htrace ▸ hx)
    obtain ⟨hmades, hresults⟩ := ih hps hxs
    simp only [List.map_cons, hmades, hresults, htrace, hmade, hr, and_self]

private theorem mapM_ok {ι : Type} (g : ι → Str × Bool) (xs : List ι) :
    (xs.map fun x => (Except.ok (g x) : Except Stop (Str × Bool))).mapM id = .ok (xs.map g) := by
  induction xs with
  | nil => rfl
  | cons x xs ih =>
    rw [List.map_cons, List.mapM_cons, ih]
    rfl

theorem traced_gatherAll (hpolicy : Unescalated c s.ctx calls)
    {r : Except Stop (List (Str × Bool)) × Run}
    (h : (Exec.gatherAll (calls.map Exec.execParallelTool) c s).Traced t r)
    (hB : AnsweredBy B ctx t) :
    (made t).Perm (calls.flatMap (B.madeFor ctx)) ∧
      r = (.ok (calls.map fun call => (B.resultOf ctx call, isError (B.resultOf ctx call))),
        s) := by
  rw [Exec.gatherAll] at h
  obtain ⟨t₁, t₂, rs, rfl, hgather, hreturn⟩ := Program.traced_bind.mp h
  obtain ⟨rfl, rfl⟩ := Program.traced_ret.mp hreturn
  obtain ⟨turns, runs, rfl, hall, hperm, hturns⟩ := Program.traced_gather hgather
  have hruns : ∀ x ∈ runs, AnsweredBy B ctx x.1 := by
    intro x hx e he
    refine hB e (List.mem_append_left _ (hperm.mem_iff.mpr (List.mem_append_right _ ?_)))
    exact List.mem_flatten_of_mem (List.mem_map_of_mem hx) he
  rw [List.map_map, List.forall₂_map_left_iff] at hall
  obtain ⟨hmades, hresults⟩ := made_runs hpolicy hall hruns
  -- the questions for the turn are no calls
  have hidle : Idle turns := by
    intro e he
    rw [hturns e he]
    rfl
  constructor
  · rw [List.append_nil]
    refine (hperm.filterMap _).trans (.of_eq ?_)
    rw [List.filterMap_append, List.filterMap_flatten, List.map_map]
    change made turns ++ (runs.map fun x => made x.1).flatten = _
    rw [hidle.made, hmades, List.nil_append, List.flatMap_def]
  · rw [hresults, mapM_ok]

theorem traced_storeParallels {errors : List Str}
    (h : (Exec.foldl (Exec.storeParallel node) errors (calls.zip (calls.map fun call =>
      (B.resultOf ctx call, isError (B.resultOf ctx call)))) c s).Traced t r) :
    Idle t ∧ r.2.ctx = calls.foldl (B.settle ctx c node.label) s.ctx := by
  induction calls generalizing errors s t with
  | nil =>
    obtain ⟨rfl, rfl⟩ := Program.traced_ret.mp h
    exact ⟨by simp [Idle], rfl⟩
  | cons call calls ih =>
    rw [List.map_cons, List.zip_cons_cons, Exec.foldl, bind_apply] at h
    obtain ⟨t₁, t₂, ⟨r₁, s₁⟩, rfl, hstore, hnext⟩ := Program.traced_bind.mp h
    obtain ⟨hidle, ⟨errors', hok⟩, hctx⟩ := traced_record (f := fun result =>
      if isError (B.resultOf ctx call) then errors ++ [call.1 ++ ": " ++ result] else errors)
      hstore
    dsimp only at hok hctx
    subst hok
    obtain ⟨hidle', hctx'⟩ := ih hnext
    refine ⟨hidle.append hidle', ?_⟩
    rw [hctx', hctx]
    rfl

private theorem returns_emits {ι : Type} {xs : List ι} {r : Except Stop Unit × Run}
    (h : (Exec.each xs (fun _ => Exec.emit ⟨.toolCall, []⟩) c s).Returns r) :
    ∃ events, r = (.ok (), { s with events }) := by
  induction xs generalizing s with
  | nil => exact ⟨_, Program.returns_ret.mp h⟩
  | cons x xs ih =>
    rw [Exec.each, bind_apply, Program.returns_bind] at h
    obtain ⟨r₁, hemit, hnext⟩ := h
    rw [Exec.returns_emit.mp hemit, Exec.yieldEnd, if_neg (by simp)] at hnext
    exact ih (s := ⟨s.ctx, s.events ++ [⟨.toolCall, []⟩]⟩) hnext

theorem traced_parallel (hpolicy : Unescalated c s.ctx calls)
    (h : (Exec.executeParallel node calls c s).Traced t r) (hB : AnsweredBy B ctx t) :
    (made t).Perm (calls.flatMap (B.madeFor ctx)) ∧
      r.2.ctx = calls.foldl (B.settle ctx c node.label) s.ctx := by
  rw [Exec.executeParallel, bind_apply] at h
  obtain ⟨t₁, t₂, r₁, rfl, hemits, hnext⟩ := Program.traced_bind.mp h
  have hidle := Exec.idle_of_does (.each calls fun _ => .emit ⟨.toolCall, []⟩) hemits
  obtain ⟨events, rfl⟩ := returns_emits hemits.returns
  dsimp only at hnext
  rw [bind_apply] at hnext
  obtain ⟨t₃, t₄, r₂, rfl, hgather, hstores⟩ := Program.traced_bind.mp hnext
  obtain ⟨hmade, rfl⟩ := traced_gatherAll (s := ⟨s.ctx, events⟩) hpolicy hgather
    hB.of_append.2.of_append.1
  obtain ⟨hidle', hctx⟩ := traced_storeParallels hstores
  refine ⟨?_, hctx⟩
  rw [made_append, made_append, hidle.made, hidle'.made, List.nil_append, List.append_nil]
  exact hmade

end

/-! ### The law -/

/-- Two ways to make the calls of an answer have the same effect: the same calls are made with the
same arguments, and the messages are the same. -/
structure SameEffect (t₁ t₂ : List (Event Step.Answer)) (s₁ s₂ : Run) : Prop where
  made : (made t₁).Perm (made t₂)
  messages : s₁.ctx.messages = s₂.ctx.messages

/-- Where the validated arguments of a call do not have a name, the configurations of the execution
and of the runtime have the same there. -/
def Toolbox.ConfigsAgree (B : Toolbox) (calls : List (Str × Dict × Str)) : Prop :=
  ∀ call ∈ calls, ∀ tool validated, B.tools call.1 = some tool →
    validateToolArgs B.conv tool.parameters (B.hooked call.1 call.2.1).members = .ok validated →
    ∀ name, validated.lookup name = none →
      (B.toolConfigs.of (B.configsFor false) call.1).lookup name =
        (B.toolConfigs.of (B.configsFor true) call.1).lookup name

section

variable {B : Toolbox}

def Toolbox.finalArgs (B : Toolbox) (ctx : Option Configs) (toolName : Str)
    (validated : List (Str × Json)) : Kwargs := fun name =>
  (validated.lookup name).or ((B.toolConfigs.of ctx toolName).lookup name)

theorem made_of_valid {call : Str × Dict × Str} {tool : Tool} {validated : List (Str × Json)}
    (htool : B.tools call.1 = some tool)
    (hvalid : validateToolArgs B.conv tool.parameters (B.hooked call.1 call.2.1).members =
      .ok validated) (ctx : Option Configs) :
    B.madeFor ctx call = [(call.1, B.finalArgs ctx call.1 validated)] ∧
      B.resultOf ctx call = (tool.execute (B.finalArgs ctx call.1 validated)).text call.1 := by
  have hfinal : (fun name => (mergeToolConfigDefaults B.toolConfigs ctx call.1
      validated).lookup name) = B.finalArgs ctx call.1 validated := by
    funext name
    exact lookup_mergeToolConfigDefaults _ _ _
      (nodup_validateToolArgs (B.hooked call.1 call.2.1).nodup hvalid) name
  simp only [Toolbox.madeFor, Toolbox.resultOf, Toolbox.kwargs, Toolbox.answer, Toolbox.prepare,
    htool, hvalid, hfinal, Option.toList_some, List.map_cons, List.map_nil, and_self]

theorem made_or_refused (B : Toolbox) (call : Str × Dict × Str) :
    (∃ result, ∀ ctx, B.madeFor ctx call = [] ∧ B.resultOf ctx call = result) ∨
      ∃ tool validated, B.tools call.1 = some tool ∧
        validateToolArgs B.conv tool.parameters (B.hooked call.1 call.2.1).members =
          .ok validated := by
  cases htool : B.tools call.1 with
  | none =>
    refine .inl ⟨(ToolAnswer.keyError : ToolAnswer Str).text call.1, fun ctx => ?_⟩
    simp [Toolbox.madeFor, Toolbox.resultOf, Toolbox.kwargs, Toolbox.answer, Toolbox.prepare, htool]
  | some tool =>
    cases hvalid : validateToolArgs B.conv tool.parameters (B.hooked call.1 call.2.1).members with
    | error text =>
      refine .inl ⟨(ToolAnswer.failed text).text call.1, fun ctx => ?_⟩
      simp [Toolbox.madeFor, Toolbox.resultOf, Toolbox.kwargs, Toolbox.answer, Toolbox.prepare,
        htool, hvalid]
    | ok validated => exact .inr ⟨tool, validated, rfl, hvalid⟩

theorem Toolbox.ConfigsAgree.alike {calls : List (Str × Dict × Str)} (h : B.ConfigsAgree calls)
    {call : Str × Dict × Str} (hcall : call ∈ calls) :
    B.madeFor (B.configsFor false) call = B.madeFor (B.configsFor true) call ∧
      B.resultOf (B.configsFor false) call = B.resultOf (B.configsFor true) call := by
  rcases made_or_refused B call with ⟨result, hrefused⟩ | ⟨tool, validated, htool, hvalid⟩
  · obtain ⟨hnone, hresult⟩ := hrefused (B.configsFor true)
    obtain ⟨hnone', hresult'⟩ := hrefused (B.configsFor false)
    exact ⟨hnone'.trans hnone.symm, hresult'.trans hresult.symm⟩
  · have hfinal : B.finalArgs (B.configsFor false) call.1 validated =
        B.finalArgs (B.configsFor true) call.1 validated := by
      funext name
      rw [finalArgs, finalArgs]
      cases hname : validated.lookup name with
      | some value => rfl
      | none => rw [h call hcall tool validated htool hvalid name hname]
    obtain ⟨hmade₁, hresult₁⟩ := made_of_valid htool hvalid (B.configsFor false)
    obtain ⟨hmade₂, hresult₂⟩ := made_of_valid htool hvalid (B.configsFor true)
    rw [hmade₁, hmade₂, hresult₁, hresult₂, hfinal]
    exact ⟨rfl, rfl⟩

open Classical in
/-- Where the same calls are made, the configurations agree: a call whose arguments leave a name to
them is counted among those with the value of the execution in the first way only. -/
theorem configsAgree_of_perm {calls : List (Str × Dict × Str)}
    (h : (calls.flatMap (B.madeFor (B.configsFor false))).Perm
      (calls.flatMap (B.madeFor (B.configsFor true)))) :
    B.ConfigsAgree calls := by
  intro call hcall tool validated htool hvalid name hname
  by_contra hne
  have hcount := h.countP_eq fun p : Str × Kwargs => p.1 = call.1 ∧
    p.2 name = (B.toolConfigs.of (B.configsFor false) call.1).lookup name
  rw [List.countP_flatMap, List.countP_flatMap] at hcount
  refine absurd hcount (ne_of_gt (List.sum_lt_sum _ _ (fun x _ => ?_) ⟨call, hcall, ?_⟩))
  · -- what has the value without the configurations of the execution has it with them
    rcases made_or_refused B x with ⟨result, hrefused⟩ | ⟨tool', validated', htool', hvalid'⟩
    · rw [Function.comp_apply, (hrefused (B.configsFor true)).1]
      exact Nat.zero_le _
    · rw [Function.comp_apply, Function.comp_apply,
        (made_of_valid htool' hvalid' (B.configsFor true)).1, (made_of_valid htool' hvalid' _).1,
        List.countP_singleton, List.countP_singleton]
      split_ifs with hnone hsome <;> try omega
      refine absurd ?_ hsome
      simp only [decide_eq_true_eq] at hnone ⊢
      obtain ⟨hx, hvalue⟩ := hnone
      refine ⟨hx, ?_⟩
      rw [Toolbox.finalArgs] at hvalue ⊢
      cases hname' : validated'.lookup name with
      | some value => rw [← hvalue, hname']; rfl
      | none =>
        rw [hname', Option.none_or, hx] at hvalue
        exact absurd hvalue.symm hne
  · rw [Function.comp_apply, Function.comp_apply,
      (made_of_valid htool hvalid (B.configsFor true)).1, (made_of_valid htool hvalid _).1,
      List.countP_singleton, List.countP_singleton,
      if_neg (by simpa [Toolbox.finalArgs, hname] using Ne.symm hne),
      if_pos (by simp [Toolbox.finalArgs, hname])]
    exact Nat.zero_lt_one

theorem executeToolCalls_sequential {nested : Nested} {node : NodeConfig} {calls : List ToolCall}
    {c : Scope} {s : Run} (hnode : node.parallelToolCalls = false) :
    Exec.executeToolCalls nested node calls c s =
      Exec.foldl (Exec.executeToolCall nested node) [] calls c s := by
  dsimp only [Exec.executeToolCalls, bind, Program.bind, Exec.ctx]
  rw [if_neg (by simp [hnode])]

theorem executeToolCalls_parallel {nested : Nested} {node : NodeConfig} {calls : List ToolCall}
    {parsed : List (Str × Dict × Str)} {c : Scope} {s : Run}
    (hnode : node.parallelToolCalls = true) (hplan : s.ctx.planMode = false)
    (hcalls : Exec.parseCalls calls = .ok (some parsed)) :
    Exec.executeToolCalls nested node calls c s = Exec.executeParallel node parsed c s := by
  dsimp only [Exec.executeToolCalls, bind, Program.bind, Exec.ctx]
  rw [if_pos ⟨hnode, hplan⟩, hcalls]

/-- **Calls at the same time have the effect of calls one after the other if and only if the
configurations agree** where the arguments leave a name to them. -/
theorem sameEffect_iff (nested : Nested) (node : NodeConfig) {calls : List ToolCall}
    {parsed : List (Str × Dict × Str)} {c : Scope} {s : Run} {t₁ t₂ : List (Event Step.Answer)}
    {r₁ r₂ : Except Stop (List Str) × Run} (hcalls : Exec.parseCalls calls = .ok (some parsed))
    (hplan : s.ctx.planMode = false) (hpolicy : Unescalated c s.ctx parsed)
    (h₁ : (Exec.executeToolCalls nested { node with parallelToolCalls := false } calls c s).Traced
      t₁ r₁)
    (h₂ : (Exec.executeToolCalls nested { node with parallelToolCalls := true } calls c s).Traced
      t₂ r₂)
    (hB₁ : AnsweredBy B (B.configsFor false) t₁) (hB₂ : AnsweredBy B (B.configsFor true) t₂) :
    SameEffect t₁ t₂ r₁.2 r₂.2 ↔ B.ConfigsAgree parsed := by
  rw [executeToolCalls_sequential rfl] at h₁
  rw [executeToolCalls_parallel rfl hplan hcalls] at h₂
  obtain ⟨hmade₁, hctx₁⟩ := traced_sequential hcalls hplan h₁ hB₁
  obtain ⟨hmade₂, hctx₂⟩ := traced_parallel hpolicy h₂ hB₂
  constructor
  · intro h
    exact configsAgree_of_perm (hmade₁ ▸ h.made.trans hmade₂)
  · intro h
    constructor
    · rw [hmade₁]
      refine (List.Perm.of_eq ?_).trans hmade₂.symm
      exact List.flatMap_congr fun call hcall => (h.alike hcall).1
    · rw [hctx₁, hctx₂]
      refine congrArg AgentContext.messages (List.foldl_ext _ _ _ fun x call hcall => ?_)
      rw [Toolbox.settle, Toolbox.settle, (h.alike hcall).2]

end

/-! ### A tool that has a configuration -/

/-- The tool answers with the text of its argument `k`. -/
def readTool : Tool where
  parameters := []
  execute := fun kwargs => .ok (((kwargs "k").bind decodeStr).getD [])

/-- The tool `q`, with a configuration of the execution. -/
def readBox (cfg : List (Str × Json)) : Toolbox where
  tools := fun toolName => if toolName = "q" then some readTool else none
  conv := {
    text := fun _ => []
    float := fun _ => none
    int := fun _ => none
    noGet := fun _ => [] }
  toolConfigs := []
  execConfigs := [("q", cfg)]
  hooked := fun _ args => args

/-- The answers of this toolbox to a call whose final arguments are given. -/
def Call.read (final : Dict) : (call : Call) → call.Answer
  | .admission _ args _ _ => { allowed := true, args }
  | .prepareArgs _ _ => .ok final
  | .execute _ _ args => readTool.execute fun name => args.members.lookup name
  | call => call.oblige {}

def readNode : NodeConfig := { type := .llm }

def readCall : ToolCall := { call := .ok ("q", Dict.empty) }

def readScope : Scope := { rt := { process := plainProcess } }

def readRun (parallel : Bool) (final : Dict) :
    List (Event Step.Answer) × Except Stop (List Str) × Run :=
  (Exec.executeToolCalls (branchesOnly 0) { readNode with parallelToolCalls := parallel } [readCall]
    readScope { ctx := {} }).run (fun q _ => (q.call.read final, ())) ()

/-- The arguments with a value for `k`. -/
def kArgs : Dict :=
  ⟨[("k", .str "1")], by simp, by simp [Json.WF]⟩

/-- The questions of this run are answered by the toolbox, if the final arguments are those that the
configurations make. -/
theorem answeredBy_readRun {cfg : List (Str × Json)} {ctx : Option Configs} (parallel : Bool)
    {final : Dict} (hfinal : final = Dict.empty ∨ final = kArgs)
    (h : final.members = mergeToolConfigDefaults [] ctx "q" []) :
    AnsweredBy (readBox cfg) ctx (readRun parallel final).1 := by
  have hprepared : (Call.prepareArgs "q" Dict.empty).AnsweredBy (readBox cfg) ctx
      (ToolAnswer.ok final) := congrArg ToolAnswer.ok h
  have hexecuted : (Call.execute .functionCall "q" final).AnsweredBy (readBox cfg) ctx
      (readTool.execute fun name => final.members.lookup name) := by
    intro tool htool
    obtain rfl : readTool = tool := Option.some.inj htool
    rfl
  intro e he
  rcases hfinal with rfl | rfl <;> cases parallel <;>
  · change e ∈ [_, _, _, _, _, _] at he
    simp only [List.mem_cons, List.not_mem_nil, or_false] at he
    rcases he with rfl | rfl | rfl | rfl | rfl | rfl
    exacts [trivial, ⟨rfl, rfl, rfl⟩, rfl, hprepared, hexecuted, trivial]

theorem parseCalls_read :
    Exec.parseCalls [readCall] = .ok (some [("q", Dict.empty, [])]) := rfl

theorem unescalated_read : Unescalated readScope {} [("q", Dict.empty, [])] := by
  intro call hcall
  rw [List.mem_singleton.mp hcall]
  rfl

/-- Without a configuration the two ways have the same effect. -/
theorem sameEffect_unconfigured :
    SameEffect (readRun false Dict.empty).1 (readRun true Dict.empty).1
    (readRun false Dict.empty).2.2 (readRun true Dict.empty).2.2 := by
  have hagree : (readBox []).ConfigsAgree [("q", Dict.empty, [])] := by
    intro call hcall tool validated _ _ name _
    rw [List.mem_singleton.mp hcall]
    rfl
  exact (sameEffect_iff (branchesOnly 0) readNode parseCalls_read rfl unescalated_read
    (Program.traced_run _ _ _) (Program.traced_run _ _ _) (answeredBy_readRun false (.inl rfl) rfl)
    (answeredBy_readRun true (.inl rfl) rfl)).mpr hagree

/-- The configuration of the execution is not seen by a call of several at the same time. -/
theorem not_sameEffect : ¬ ∀ (B : Toolbox) (nested : Nested) (node : NodeConfig)
    (calls : List ToolCall) (parsed : List (Str × Dict × Str)) (c : Scope) (s : Run)
    (t₁ t₂ : List (Event Step.Answer)) (r₁ r₂ : Except Stop (List Str) × Run),
    Exec.parseCalls calls = .ok (some parsed) → s.ctx.planMode = false →
    Unescalated c s.ctx parsed →
    (Exec.executeToolCalls nested { node with parallelToolCalls := false } calls c s).Traced t₁ r₁ →
    (Exec.executeToolCalls nested { node with parallelToolCalls := true } calls c s).Traced t₂ r₂ →
    AnsweredBy B (B.configsFor false) t₁ → AnsweredBy B (B.configsFor true) t₂ →
    SameEffect t₁ t₂ r₁.2 r₂.2 := by
  intro h
  have heffect := h (readBox kArgs.members) (branchesOnly 0) readNode [readCall] _ readScope
    { ctx := {} } _ _ _ _ parseCalls_read rfl unescalated_read (Program.traced_run _ _ _)
    (Program.traced_run _ _ _) (answeredBy_readRun false (.inr rfl) rfl)
    (answeredBy_readRun true (.inl rfl) rfl)
  have hcontents := congrArg (List.map Message.content) heffect.messages
  exact absurd hcontents (by decide)

end AgentStudio.Execution

import AgentStudio.Execution.Turns

/-!
# Turns of tool nodes

What comes of a tool node: its call is refused, or its tool answers (`ToolTurn`), where a turn may
be cut short by the loop of a run around it. `toolTurn_iff` reads this off the executor. The turn
of a tool that answers notes the answer in the messages of the context, under the label of the node
(`noted`); a refused turn leaves an error there, and otherwise the error stays as it is.
-/

namespace AgentStudio.Execution

open PyText PyJson PyDict AgentStudio.Graph Programs

namespace Exec

variable {α β : Type}

/-! ### What executors return -/

/-- An executor that changes nothing, and does not end early. -/
def Reading (x : Exec α) : Prop := ∀ c s, (x c s).Always fun r => ∃ a, r = (.ok a, s)

theorem Reading.pure (a : α) : Reading (pure a) := fun _ _ => ⟨a, rfl⟩

theorem Reading.ask (call : Call) : Reading (ask call) := fun _ _ a => ⟨a, rfl⟩

theorem Reading.scope : Reading scope := fun c _ => ⟨c, rfl⟩

theorem Reading.ctx : Reading ctx := fun _ s => ⟨s.ctx, rfl⟩

theorem Reading.bind {x : Exec α} {f : α → Exec β} (hx : Reading x) (hf : ∀ a, Reading (f a)) :
    Reading (x >>= f) := fun c s => by
  rw [bind_apply, Program.always_bind]
  refine (hx c s).mono ?_
  rintro _ ⟨a, rfl⟩
  exact hf a c s

theorem Reading.ite {p : Prop} [Decidable p] {x y : Exec α} (hx : Reading x) (hy : Reading y) :
    Reading (if p then x else y) := by
  split_ifs
  · exact hx
  · exact hy

theorem Reading.policy : Reading policy := .bind .ctx fun _ => .bind .scope fun _ => .pure _

theorem Reading.admitInteractive (toolName : Str) (params : Dict) (nodeLabel : Str) :
    Reading (admitInteractive toolName params nodeLabel) := by
  refine .bind (.ask _) fun o => ?_
  split
  · exact .pure _
  · exact .bind (.ask _) fun _ => .bind .scope fun _ => .bind .policy fun _ => .bind .ctx fun _ =>
      .ite (.pure _) (.bind (.ask _) fun _ => .pure _)

theorem Reading.callTool (site : ToolSite) (toolName : Str) (args : Dict) :
    Reading (callTool site toolName args) := by
  refine .bind (.ask _) fun found => .ite (.bind (.ask _) fun answer => ?_) (.pure _)
  cases answer with
  | keyError | failed => exact .pure _
  | ok args => exact .ask _

theorem Reading.captureFrame : Reading captureFrame := by
  refine .bind (.ask _) fun found => .ite (.bind (.ask _) fun answer => ?_) (.pure _)
  cases answer with
  | ok capture => exact .ask _
  | _ => exact .pure _

variable {c : Scope} {s : Run} {r : Except Stop Unit × Run} {node : NodeConfig}

theorem Reading.returns {x : Exec α} (hx : Reading x) {f : α → Exec β} {r : Except Stop β × Run}
    (h : ((x >>= f) c s).Returns r) : ∃ a, (f a c s).Returns r := by
  rw [bind_apply, Program.returns_bind] at h
  obtain ⟨r', hr', h⟩ := h
  obtain ⟨a, rfl⟩ := Program.always_iff.mp (hx c s) r' hr'
  exact ⟨a, h⟩

/-- Where an `ERROR` event ends a run. -/
def errorStop (c : Scope) : Except Stop Unit :=
  match c.errorStops with
  | none => .ok ()
  | some runs => .error (.ended runs)

/-- How a `yield` ends. -/
def yieldEnd (e : AgentEvent) (c : Scope) : Except Stop Unit :=
  if e.type = .error then errorStop c else .ok ()

def abortStop (c : Scope) : Stop := (c.errorStops.map Stop.ended).getD .returned

theorem emit_apply (e : AgentEvent) (c : Scope) (s : Run) :
    emit e c s = .ask ⟨c, s.ctx, .emit e⟩ fun _ =>
      .ret (yieldEnd e c, { s with events := s.events ++ [e] }) := by
  rw [yieldEnd]
  refine congrArg _ (funext fun _ => ?_)
  change (if e.type = .error then _ else _ : Exec Unit) c { s with events := s.events ++ [e] } = _
  split_ifs
  · obtain ⟨rt, budget, hop, errorStops⟩ := c
    cases errorStops <;> rfl
  · rfl

theorem returns_emit {e : AgentEvent} :
    (emit e c s).Returns r ↔ r = (yieldEnd e c, { s with events := s.events ++ [e] }) := by
  rw [emit_apply, Program.returns_ask]
  simp only [Program.returns_ret, exists_const]

theorem returns_abort {text : Str} {r : Except Stop α × Run} (h : (abort text c s).Returns r) :
    r.2.ctx = { s.ctx with error := text } ∧
      r.1 = .error (abortStop c) := by
  change ((emit ⟨.error, text⟩ >>= fun _ => stop .returned : Exec α) c
    { s with ctx := { s.ctx with error := text } }).Returns r at h
  rw [bind_apply, Program.returns_bind] at h
  obtain ⟨r', hr', h⟩ := h
  rw [returns_emit, yieldEnd, if_pos rfl] at hr'
  rw [hr', errorStop] at h
  obtain ⟨rt, budget, hop, errorStops⟩ := c
  cases errorStops <;> exact (Program.returns_ret.mp h) ▸ ⟨rfl, rfl⟩

private theorem always_events (events : List Runtime.Event) (c : Scope) (s : Run) :
    (each events (fun e => emit (.ofGate e)) c s).Always fun r =>
      r.2.ctx = s.ctx ∧ r.1 ≠ .error .returned := by
  induction events generalizing s with
  | nil => exact ⟨rfl, by simp⟩
  | cons e events ih =>
    rw [each, bind_apply, Program.always_bind, Program.always_iff]
    intro r hr
    rw [returns_emit] at hr
    rw [hr, yieldEnd]
    split_ifs
    · rw [errorStop]
      cases c.errorStops with
      | none => exact ih _
      | some runs => exact ⟨rfl, by simp⟩
    · exact ih _

theorem always_pass {γ : Type} (gate : Runtime.Gate γ) (c : Scope) (s : Run) :
    (pass gate c s).Always fun r =>
      r.2.ctx = { s.ctx with error := gate.error } ∧ r.1 ≠ .error .returned :=
  always_events gate.events c { s with ctx := { s.ctx with error := gate.error } }

/-! ### The call of a tool node -/

/-- The call of a tool node with its arguments, if it is admitted. -/
def callAdmitted (node : NodeConfig) : Option Dict → Exec (Option (ToolAnswer Str))
  | none => return none
  | some args => return some (← callTool .toolNode node.toolName args)

/-- A tool node whose tool is no sub-graph, up to the answer of the tool: there is none if the call
is refused. -/
def answerToolNode (node : NodeConfig) : Exec (Option (ToolAnswer Str)) := do
  let values ← vars
  let process := (← scope).rt.process
  if node.toolName = "terminal" ∧ process.terminalAllowInterp = false ∧
      "\x7b\x7b" <:+: paramStr node "command" then
    abort interpolationText
  else
    let params := interpolateParams (process.interpolate values) node.toolParams
    if ← planBlocks node.toolName then abort (nodeBlockedText node.toolName)
    else
      let (o, readmission, reaction) ← admitInteractive node.toolName params node.label
      let gate := Runtime.toolNodeGate process.isAlnum (← policy) node.label (← ctx).error
        node.toolName params o readmission reaction
      pass gate
      callAdmitted node gate.passed

/-- What follows the call of a tool node, if there is an answer. -/
def followAdmitted (node : NodeConfig) (g : AgentGraph) : Option (ToolAnswer Str) → Exec Unit
  | none => pure ()
  | some answer => followToolNode node g answer

theorem executeToolNode_eq {nested : Nested} {g : AgentGraph}
    (hname : node.toolName ≠ "__sub_graph__") :
    executeToolNode nested node g = body (answerToolNode node >>= followAdmitted node g) := by
  rw [executeToolNode, if_neg hname, answerToolNode]
  refine congrArg body ?_
  simp only [bind_bind, ite_bind, abort_bind]
  refine bind_congr fun values => bind_congr fun c => ite_congr rfl (fun _ => rfl) fun _ =>
    bind_congr fun blocked => ite_congr rfl (fun _ => rfl) fun _ => bind_congr fun asked =>
      bind_congr fun policy => bind_congr fun ctx => bind_congr fun _ => ?_
  generalize (Runtime.toolNodeGate _ _ _ _ _ _ _ _ _).passed = passed
  cases passed with
  | none => rfl
  | some args =>
    exact (bind_bind (callTool .toolNode node.toolName args) (fun answer => pure (some answer))
      (followAdmitted node g)).symm

/-! ### The error of a tool node -/

private theorem toolNodeGate_error (isAlnum : Char → Bool)
    (policy : Option Runtime.ConfirmationPolicy) (nodeLabel ctxError toolName : Str) (params : Dict)
    (o readmission : Runtime.FunnelOutcome) (reaction : Runtime.Ask) :
    let gate := Runtime.toolNodeGate isAlnum policy nodeLabel ctxError toolName params o readmission
      reaction
    (gate.passed = none → gate.error ≠ []) ∧ (gate.passed ≠ none → gate.error = ctxError) := by
  have hadmission (events : List Runtime.Event) (o : Runtime.FunnelOutcome) :
      let gate := Runtime.admitToolNode ctxError events o
      (gate.passed = none → gate.error ≠ []) ∧ (gate.passed ≠ none → gate.error = ctxError) := by
    simp only [Runtime.admitToolNode, Runtime.admission]
    split_ifs
    · refine ⟨fun _ => ?_, fun h => absurd rfl h⟩
      simp only [id, Runtime.deniedText]
      split_ifs <;> exact List.cons_ne_nil _ _
    · exact ⟨fun h => absurd h (by simp), fun _ => rfl⟩
  simp only [Runtime.toolNodeGate]
  split_ifs
  · split
    · exact ⟨fun _ => List.cons_ne_nil _ _, fun h => absurd rfl h⟩
    · split_ifs with herror
      · exact ⟨fun _ => herror, fun h => absurd rfl h⟩
      · exact hadmission _ _
  · exact hadmission _ _

/-- What the call of a tool node leaves: the messages, and an error if it is refused. -/
def CallLeaves (s : Run) (r : Except Stop (Option (ToolAnswer Str)) × Run) : Prop :=
  (r.1 = .error .returned ∨ r.1 = .ok none → r.2.ctx.error ≠ []) ∧
    ∀ answer, r.1 = .ok (some answer) →
      r.2.ctx.messages = s.ctx.messages ∧ r.2.ctx.error = s.ctx.error

private theorem callLeaves_of_gate {gate : Runtime.Gate Dict}
    {r : Except Stop (Option (ToolAnswer Str)) × Run}
    (hrefused : gate.passed = none → gate.error ≠ [])
    (hpassed : gate.passed ≠ none → gate.error = s.ctx.error)
    (h : ((pass gate >>= fun _ => callAdmitted node gate.passed) c s).Returns r) :
    CallLeaves s r := by
  rw [bind_apply, Program.returns_bind] at h
  obtain ⟨⟨stop | _, s'⟩, hpass, h⟩ := h
  · obtain ⟨-, hstop⟩ := Program.always_iff.mp (always_pass gate c s) _ hpass
    obtain rfl := Program.returns_ret.mp h
    refine ⟨fun h => absurd h (by simpa using hstop), fun answer h => absurd h (by simp)⟩
  · obtain ⟨hctx, -⟩ := Program.always_iff.mp (always_pass gate c s) _ hpass
    dsimp only at hctx h
    cases hp : gate.passed with
    | none =>
      rw [hp] at h
      obtain rfl := Program.returns_ret.mp h
      exact ⟨fun _ => hctx ▸ hrefused hp, fun answer h => absurd h (by simp)⟩
    | some args =>
      rw [hp] at h
      obtain ⟨answer, h⟩ := (Reading.callTool _ _ _).returns h
      obtain rfl := Program.returns_ret.mp h
      refine ⟨fun h => absurd h (by simp), fun answer _ => ?_⟩
      rw [hctx]
      exact ⟨rfl, hpassed (by simp [hp])⟩

theorem callLeaves {r : Except Stop (Option (ToolAnswer Str)) × Run}
    (h : (answerToolNode node c s).Returns r) : CallLeaves s r := by
  have habort {text : Str} (htext : text ≠ [])
      (h : ((abort text : Exec (Option (ToolAnswer Str))) c s).Returns r) : CallLeaves s r := by
    obtain ⟨hctx, hstop⟩ := returns_abort h
    refine ⟨fun _ => by rw [hctx]; exact htext, fun answer h => ?_⟩
    rw [hstop] at h
    exact absurd h (by simp)
  rw [answerToolNode] at h
  change ((if _ then _ else _ : Exec _) c s).Returns r at h
  split_ifs at h
  · exact habort (by decide +kernel) h
  · change ((if _ then _ else _ : Exec _) c s).Returns r at h
    split_ifs at h
    · exact habort (List.cons_ne_nil _ _) h
    · obtain ⟨⟨o, readmission, reaction⟩, h⟩ := (Reading.admitInteractive _ _ _).returns h
      obtain ⟨policy, h⟩ := Reading.policy.returns h
      obtain ⟨hrefused, hpassed⟩ := toolNodeGate_error c.rt.process.isAlnum policy node.label
        s.ctx.error node.toolName
        (interpolateParams (c.rt.process.interpolate (s.ctx.seeded c.rt.vars)) node.toolParams) o
        readmission reaction
      exact callLeaves_of_gate hrefused hpassed h

/-! ### After the answer of a tool -/

/-- An executor that leaves the messages and the error, and does not end with `return`. -/
def Spares (x : Exec α) : Prop := ∀ c s, (x c s).Always fun r =>
  r.2.ctx.messages = s.ctx.messages ∧ r.2.ctx.error = s.ctx.error ∧ r.1 ≠ .error .returned

namespace Spares

theorem of_reading {x : Exec α} (hx : Reading x) : Spares x := fun c s =>
  (hx c s).mono fun _ ⟨_, hr⟩ => hr ▸ ⟨rfl, rfl, by simp⟩

theorem pure (a : α) : Spares (Pure.pure a : Exec α) := .of_reading (.pure a)

theorem bind {x : Exec α} {f : α → Exec β} (hx : Spares x) (hf : ∀ a, Spares (f a)) :
    Spares (x >>= f) := fun c s => by
  rw [bind_apply, Program.always_bind]
  refine (hx c s).mono ?_
  rintro ⟨stop | a, s'⟩ ⟨hmessages, herror, hstop⟩
  · exact ⟨hmessages, herror, by simpa using hstop⟩
  · refine (hf a c s').mono ?_
    rintro r ⟨hmessages', herror', hstop'⟩
    exact ⟨hmessages'.trans hmessages, herror'.trans herror, hstop'⟩

theorem ite {p : Prop} [Decidable p] {x y : Exec α} (hx : Spares x) (hy : Spares y) :
    Spares (if p then x else y) := by
  split_ifs
  · exact hx
  · exact hy

theorem emit (e : AgentEvent) : Spares (Exec.emit e) := fun c s => by
  rw [Program.always_iff]
  intro r hr
  rw [returns_emit.mp hr]
  refine ⟨rfl, rfl, ?_⟩
  simp only [yieldEnd, errorStop]
  split_ifs
  · cases c.errorStops <;> simp
  · simp

theorem setVar (name : Str) (value : Json) : Spares (Exec.setVar name value) := fun _ _ =>
  ⟨rfl, rfl, by simp⟩

theorem each (xs : List α) {f : α → Exec Unit} (hf : ∀ a, Spares (f a)) :
    Spares (Exec.each xs f) := by
  induction xs with
  | nil => exact .pure ()
  | cons x xs ih => exact .bind (hf x) fun _ => ih

theorem applyToolOutputMapping (result : Str) (m : Str × Str) :
    Spares (Exec.applyToolOutputMapping result m) := by
  refine .ite (.pure _) (.ite (.setVar _ _) ?_)
  split <;> exact .setVar _ _

theorem postActionAssert (node : NodeConfig) : Spares (Exec.postActionAssert node) :=
  .bind (.of_reading .captureFrame) fun _ => .bind (.emit _) fun _ =>
    .bind (.of_reading .scope) fun _ => .ite (.bind (.of_reading (.ask _)) fun _ =>
      .ite (.emit _) (.pure _)) (.pure _)

end Spares

def toolMessage (node : NodeConfig) (result : Str) : Message where
  role := .tool
  content := result
  toolCallId := "tool_" ++ node.toolName

/-- The messages with the answer of a tool node, under the label of the node. -/
def noted (cap : ℕ) (node : NodeConfig) (result : Str) (messages : List Message) : List Message :=
  let kept := (trim cap (messages ++ [toolMessage node result])).1
  kept.dropLast ++ (kept.getLast?.map ({ · with nodeId := node.label })).toList

theorem returns_addMessage {m : Message} (h : (addMessage m c s).Returns r) :
    r = (.ok (), { s with ctx := { s.ctx with
      messages := (trim c.rt.process.contextMaxMessages (s.ctx.messages ++ [m])).1 } }) := by
  change ((if _ then _ else _ : Exec Unit) c s).Returns r at h
  split_ifs at h
  · change (Program.ask _ _).Returns r at h
    obtain ⟨_, h⟩ := Program.returns_ask.mp h
    exact Program.returns_ret.mp h
  · exact Program.returns_ret.mp h

/-- The answer of a tool node becomes a message. -/
def note (node : NodeConfig) (result : Str) : Exec Unit := do
  addMessage (toolMessage node result)
  modifyLast ({ · with nodeId := node.label })
  emit ⟨.toolResult, result⟩

private theorem always_note (node : NodeConfig) (result : Str) (c : Scope) (s : Run) :
    (note node result c s).Always fun r => r.1 = .ok () ∧
      r.2.ctx.messages = noted c.rt.process.contextMaxMessages node result s.ctx.messages ∧
      r.2.ctx.error = s.ctx.error := by
  rw [Program.always_iff]
  intro r h
  rw [note, bind_apply, Program.returns_bind] at h
  obtain ⟨r₁, hadd, h⟩ := h
  rw [returns_addMessage hadd] at h
  have hr := returns_emit.mp h
  rw [yieldEnd, if_neg (by simp)] at hr
  rw [hr]
  exact ⟨rfl, rfl, rfl⟩

def afterNote (node : NodeConfig) (g : AgentGraph) (result : Str) : Exec Unit :=
  if isToolError result ∧ g.stopOnToolError then
    abort ("Tool '" ++ node.toolName ++ "' (node '" ++ node.label ++
      "') failed: " ++ result)
  else
    match mapping "output_mapping" node.toolParams.members with
    | none => stop .raised
    | some outputs => do
      each outputs (applyToolOutputMapping result)
      if node.postActionCapture then postActionAssert node

theorem followToolNode_eq (node : NodeConfig) (g : AgentGraph) (answer : ToolAnswer Str) :
    followToolNode node g answer = note node (answer.text node.toolName) >>= fun _ =>
      afterNote node g (answer.text node.toolName) := by
  simp only [followToolNode, note, afterNote, bind_bind]
  rfl

/-- What follows the answer of a tool node: the answer is noted, and an error that stops the run
becomes the error of the context, which stays as it is otherwise. -/
theorem followToolNode_leaves {g : AgentGraph} {answer : ToolAnswer Str}
    (h : (followToolNode node g answer c s).Returns r) :
    r.2.ctx.messages = noted c.rt.process.contextMaxMessages node (answer.text node.toolName)
        s.ctx.messages ∧
      if isToolError (answer.text node.toolName) = true ∧ g.stopOnToolError = true then
        r.1 = .error (abortStop c)
      else r.2.ctx.error = s.ctx.error ∧ r.1 ≠ .error .returned := by
  rw [followToolNode_eq, bind_apply, Program.returns_bind] at h
  obtain ⟨⟨_, s₁⟩, hr, h⟩ := h
  obtain ⟨rfl, hmessages, herror⟩ := Program.always_iff.mp (always_note node _ c s) _ hr
  dsimp only at hmessages herror h
  by_cases hstops : isToolError (answer.text node.toolName) = true ∧ g.stopOnToolError = true
  · rw [afterNote, if_pos hstops] at h
    rw [if_pos hstops]
    obtain ⟨hctx, hstop⟩ := returns_abort h
    exact ⟨by rw [hctx, ← hmessages], hstop⟩
  · rw [afterNote, if_neg hstops] at h
    rw [if_neg hstops, ← hmessages, ← herror]
    cases hm : mapping "output_mapping" node.toolParams.members with
    | none =>
      rw [hm] at h
      rw [Program.returns_ret.mp h]
      exact ⟨rfl, rfl, by simp⟩
    | some outputs =>
      rw [hm] at h
      exact Program.always_iff.mp ((Spares.each outputs fun m => .applyToolOutputMapping _ m).bind
        (fun _ => Spares.ite (.postActionAssert node) (.pure ())) c s₁) r h

def bodyEnd : Except Stop α → Except Stop Unit
  | .ok _ | .error .returned => .ok ()
  | .error stop => .error stop

theorem returns_body {x : Exec Unit} :
    (body x c s).Returns r ↔ ∃ r', (x c s).Returns r' ∧ r = (bodyEnd r'.1, r'.2) := by
  rw [body, Program.returns_bind]
  refine exists_congr fun r' => and_congr_right fun _ => ?_
  obtain ⟨stop | _, s'⟩ := r'
  · cases stop <;> exact Program.returns_ret
  · exact Program.returns_ret

end Exec

/-! ### The turn of a tool node -/

inductive Outcome where
  | refused
  | answered (result : Str)
deriving DecidableEq

/-- The tool has answered without an error. -/
def Outcome.succeeded : Outcome → Bool
  | .refused => false
  | .answered result => !Exec.isToolError result

/-- A turn of a tool node whose tool is no sub-graph: what comes of its tool, and what the turn
returns. -/
inductive ToolTurn (node : NodeConfig) (g : AgentGraph) (c : Scope) (s : Run) :
    Outcome → Except Stop Unit × Run → Prop
  | refused {r : Except Stop (Option (ToolAnswer Str)) × Run}
      (h : (Exec.answerToolNode node c s).Returns r) (hr : ∀ answer, r.1 ≠ .ok (some answer)) :
      ToolTurn node g c s .refused (Exec.bodyEnd r.1, r.2)
  | answered {answer : ToolAnswer Str} {s₁ : Run} {r : Except Stop Unit × Run}
      (h : (Exec.answerToolNode node c s).Returns (.ok (some answer), s₁))
      (h' : (Exec.followToolNode node g answer c s₁).Returns r) :
      ToolTurn node g c s (.answered (answer.text node.toolName)) (Exec.bodyEnd r.1, r.2)

namespace ToolTurn

variable {node : NodeConfig} {g : AgentGraph} {c : Scope} {s : Run} {o : Outcome}
  {r : Except Stop Unit × Run}

theorem of_returns {nested : Nested} (hname : node.toolName ≠ "__sub_graph__")
    (h : (Exec.executeToolNode nested node g c s).Returns r) : ∃ o, ToolTurn node g c s o r := by
  rw [Exec.executeToolNode_eq hname, Exec.returns_body] at h
  obtain ⟨r', h, rfl⟩ := h
  rw [bind_apply, Program.returns_bind] at h
  obtain ⟨⟨stop | answer, s₁⟩, hcall, h⟩ := h
  · obtain rfl := Program.returns_ret.mp h
    have hrefused : ToolTurn node g c s .refused _ := .refused hcall (by simp)
    exact ⟨_, by cases stop <;> exact hrefused⟩
  · cases answer with
    | none =>
      obtain rfl := Program.returns_ret.mp h
      exact ⟨_, .refused hcall (by simp)⟩
    | some answer => exact ⟨_, .answered hcall h⟩

theorem error_ne_nil (h : ToolTurn node g c s .refused r) (hr : r.1 = .ok ()) :
    r.2.ctx.error ≠ [] := by
  cases h with
  | refused h hanswer =>
    refine (Exec.callLeaves h).1 ?_
    rename_i r'
    obtain ⟨stop | answer, s'⟩ := r'
    · cases stop with
      | returned => exact .inl rfl
      | _ => exact absurd hr (by simp [Exec.bodyEnd])
    · cases answer with
      | none => exact .inr rfl
      | some answer => exact absurd rfl (hanswer answer)

/-- The answer of a tool is noted, and an error that stops the run becomes the error of the context,
which stays as it is otherwise. -/
theorem leaves {result : Str} (h : ToolTurn node g c s (.answered result) r) :
    r.2.ctx.messages = Exec.noted c.rt.process.contextMaxMessages node result s.ctx.messages ∧
      if Exec.isToolError result = true ∧ g.stopOnToolError = true then
        c.errorStops ≠ none → r.1 ≠ .ok ()
      else r.2.ctx.error = s.ctx.error := by
  cases h with
  | answered h h' =>
    obtain ⟨hmessages, herror⟩ := (Exec.callLeaves h).2 _ rfl
    obtain ⟨hnoted, hfollow⟩ := Exec.followToolNode_leaves h'
    rw [hmessages] at hnoted
    refine ⟨hnoted, ?_⟩
    split_ifs at hfollow ⊢
    · intro hstops
      obtain ⟨runs, hruns⟩ := Option.ne_none_iff_exists'.mp hstops
      simp [hfollow, Exec.abortStop, hruns, Exec.bodyEnd]
    · exact hfollow.1.trans herror

end ToolTurn

end AgentStudio.Execution

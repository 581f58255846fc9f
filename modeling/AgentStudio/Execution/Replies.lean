import AgentStudio.Execution.ToolTurns

/-!
# Replies to tool calls

What an LLM node appends to the messages once it has its answer. A message is seen as far as it
speaks of tool calls (`Mark`): the messages that a cap has dropped and the ones that are left are,
in this order, what was there at the answer and a `log` of what has been appended (`history`).

`Appends` follows the log through the executors of an LLM node, in runs without an `ERROR` event
and with answers that are `answerable`. The log of such a run is made of groups, a message of the
assistant and one reply for each of its calls (`appends_followAnswer`), so the calls of a message
are answered once if and only if their ids are not empty and differ (`answeredOnce_iff`).

Three answers lead to a call without a reply: a sub-graph that is started by a tool call, an
approval while the context still has the error of an earlier node, and a self-repair whose call
cannot be read.
-/

namespace AgentStudio.Execution

open PyText PyJson PyDict AgentStudio.Graph Programs

/-! ### Marks -/

/-- What a message says about tool calls: the ids of its own calls, and of the one it answers. -/
structure Mark where
  role : Role
  callIds : List Str := []
  toolCallId : Str := []
deriving DecidableEq

/-- What a message says about tool calls. -/
def Message.mark (m : Message) : Mark where
  role := m.role
  callIds := m.toolCalls.map ToolCall.id
  toolCallId := m.toolCallId

/-- The marks of messages. Those of the system are left out: they speak of no calls, and a cap on
the messages puts them before the others. -/
def marks (messages : List Message) : List Mark :=
  (messages.filter (·.role ≠ .system)).map Message.mark

namespace Mark

def calls (ids : List Str) : Mark where
  role := .assistant
  callIds := ids

def reply (id : Str) : Mark where
  role := .tool
  toolCallId := id

/-- The message answers the call. A message with an empty id has no `tool_call_id`. -/
def Answers (id : Str) (m : Mark) : Prop := m.role = .tool ∧ m.toolCallId = id ∧ id ≠ []

instance (id : Str) (m : Mark) : Decidable (m.Answers id) :=
  inferInstanceAs (Decidable (_ ∧ _ ∧ _))

/-- The number of replies to a call before the next message of the assistant. -/
def replies (id : Str) (later : List Mark) : ℕ :=
  (later.takeWhile (·.role ≠ .assistant)).countP fun m => m.Answers id

/-- Every call of the message has one reply before the next message of the assistant. -/
def AnsweredOnce (m : Mark) (later : List Mark) : Prop := ∀ id ∈ m.callIds, replies id later = 1

/-- The calls of the message have ids, which are not the same. -/
def HasIds (m : Mark) : Prop := m.callIds.Nodup ∧ [] ∉ m.callIds

/-- A message of the assistant and the replies to its calls. -/
def group (ids : List Str) : List Mark := calls ids :: ids.map reply

theorem replies_group (id : Str) (ids : List Str) (groups : List (List Str)) :
    replies id (ids.map reply ++ groups.flatMap group) = if id = [] then 0 else ids.count id := by
  have hreplies : ∀ m ∈ ids.map reply, decide (m.role ≠ .assistant) = true := by
    intro m hm
    obtain ⟨id, -, rfl⟩ := List.mem_map.mp hm
    rfl
  have hgroups : (groups.flatMap group).takeWhile (·.role ≠ .assistant) = [] := by
    cases groups <;> rfl
  rw [replies, List.takeWhile_append_of_pos hreplies, hgroups, List.append_nil, List.countP_map]
  split_ifs with hid
  · exact List.countP_eq_zero.mpr fun id' _ => by simp [Answers, hid]
  · rw [List.count_eq_countP]
    refine List.countP_congr fun id' _ => ?_
    rw [Function.comp_apply, decide_eq_true_iff, beq_iff_eq]
    exact ⟨fun h => h.2.1, fun h => ⟨rfl, h, hid⟩⟩

theorem answeredOnce_iff {groups : List (List Str)} {past later : List Mark} {m : Mark}
    (h : groups.flatMap group = past ++ m :: later) (hm : m.role = .assistant) :
    m.AnsweredOnce later ↔ m.HasIds := by
  induction groups generalizing past with
  | nil => simp at h
  | cons ids groups ih =>
    rw [List.flatMap_cons, group, List.cons_append] at h
    cases past with
    | nil =>
      obtain ⟨rfl, rfl⟩ := List.cons.inj h
      simp only [AnsweredOnce, replies_group]
      change (∀ id ∈ ids, (if id = [] then 0 else ids.count id) = 1) ↔ ids.Nodup ∧ [] ∉ ids
      constructor
      · intro hone
        refine ⟨List.nodup_iff_count_le_one.mpr fun id => ?_, fun hid => ?_⟩
        · by_cases hid : id ∈ ids
          · have := hone id hid
            split_ifs at this
            omega
          · rw [List.count_eq_zero_of_not_mem hid]
            exact Nat.zero_le 1
        · simpa using hone [] hid
      · rintro ⟨hnodup, hnil⟩ id hid
        rw [if_neg (ne_of_mem_of_not_mem hid hnil)]
        exact List.count_eq_one_of_mem hnodup hid
    | cons m' past =>
      have htail := (List.cons.inj h).2
      rcases List.append_eq_append_iff.mp htail with ⟨past', hpast, hrest⟩ | ⟨rest, hids, hrest⟩
      · exact ih hrest
      · cases rest with
        | nil =>
          rw [List.nil_append] at hrest
          have hempty : groups.flatMap group = [] ++ m :: later := hrest.symm
          exact ih hempty
        | cons m'' rest =>
          obtain ⟨rfl, -⟩ := List.cons.inj hrest
          have hmem : m ∈ ids.map reply := by simp [hids]
          obtain ⟨id, -, rfl⟩ := List.mem_map.mp hmem
          exact absurd hm (by simp [reply])

end Mark

@[simp]
theorem marks_append (ms ms' : List Message) : marks (ms ++ ms') = marks ms ++ marks ms' := by
  simp [marks]

theorem marks_trim (cap : ℕ) (messages : List Message) :
    marks ((trim cap messages).2 ++ (trim cap messages).1) = marks messages := by
  rw [trim]
  split_ifs
  · dsimp only
    have hkept : marks (messages.filter (·.role = .system)) = [] := by
      simp [marks, List.filter_filter]
    have hothers : marks (messages.filter (·.role ≠ .system)) = marks messages := by
      simp [marks, List.filter_filter]
    rw [marks_append, marks_append, hkept, List.nil_append, ← marks_append, List.take_append_drop,
      hothers]
  · rfl

theorem marks_modifyLast {f : Message → Message} (hrole : ∀ m, (f m).role = m.role)
    (hf : ∀ m, (f m).mark = m.mark) (ms : List Message) :
    marks (ms.dropLast ++ (ms.getLast?.map f).toList) = marks ms := by
  rcases List.eq_nil_or_concat ms with rfl | ⟨ms, m, rfl⟩
  · rfl
  · simp only [List.concat_eq_append, List.dropLast_concat, List.getLast?_append,
      List.getLast?_singleton, Option.some_or, Option.map_some, Option.toList_some, marks_append]
    refine congrArg _ ?_
    by_cases hm : m.role = .system
    · simp [marks, hrole, hm]
    · simp [marks, hrole, hm, hf]

/-! ### The log of a run -/

/-- The messages that a question of a run drops; `depth` is that of the runtime. -/
def Step.dropped (depth : ℕ) (q : Step) : List Message :=
  match q.call with
  | .trimmed messages => if q.scope.rt.subGraphDepth = depth then messages else []
  | _ => []

/-- What has been appended to the messages up to the end of a run. -/
def history (depth : ℕ) (t : List (Event Step.Answer)) (s : Run) : List Mark :=
  marks (t.flatMap (fun e => e.1.dropped depth) ++ s.ctx.messages)

/-- An `ERROR` event. -/
def Call.isErrorEvent : Call → Bool
  | .emit e => e.type = .error
  | _ => false

/-- An answer after which no tool call is left without a reply: no run is started, no approval is
waited for while the context has an error, and the calls of a self-repair can be read. -/
def Call.answerable (error : Str) : (call : Call) → call.Answer → Bool
  | .start _, _ => false
  | .admission _ _ true false, o =>
    !o.needsApproval || (o.safetyResult.or o.escalation).isNone || error.isEmpty
  | .chat .selfRepair _, .answered r => r.toolCalls.all fun call => call.call.isOk
  | _, _ => true

/-- A run without an `ERROR` event. -/
def ErrorFree (t : List (Event Step.Answer)) : Prop := ∀ e ∈ t, e.1.call.isErrorEvent = false

/-- A run whose answers leave no tool call without a reply. -/
def Answerable (t : List (Event Step.Answer)) : Prop :=
  ∀ e ∈ t, e.1.call.answerable e.1.ctx.error e.2 = true

instance (t : List (Event Step.Answer)) : Decidable (ErrorFree t) :=
  inferInstanceAs (Decidable (∀ e ∈ t, _))

instance (t : List (Event Step.Answer)) : Decidable (Answerable t) :=
  inferInstanceAs (Decidable (∀ e ∈ t, _))

def Quiet (t : List (Event Step.Answer)) : Prop := ErrorFree t ∧ Answerable t

variable {t : List (Event Step.Answer)}

theorem quiet_append {t' : List (Event Step.Answer)} : Quiet (t ++ t') ↔ Quiet t ∧ Quiet t' := by
  simp only [Quiet, ErrorFree, Answerable, List.forall_mem_append]
  exact and_and_and_comm

theorem quiet_cons {e : Event Step.Answer} :
    Quiet (e :: t) ↔ (e.1.call.isErrorEvent = false ∧
      e.1.call.answerable e.1.ctx.error e.2 = true) ∧ Quiet t := by
  simp only [Quiet, ErrorFree, Answerable, List.forall_mem_cons]
  exact and_and_and_comm

variable {α β : Type}

/-- In a run that is looked at, the executor does not end with `return`, and where it comes to its
end the condition holds of its value, the run, and the log of what it has appended. -/
def Appends (x : Exec α) (c : Scope) (s : Run) (P : α → Run → List Mark → Prop) : Prop :=
  ∀ t r, Program.Traced (x c s) t r → Quiet t → r.1 ≠ .error .returned ∧ ∀ a, r.1 = .ok a →
    ∃ log, history c.rt.subGraphDepth t r.2 = marks s.ctx.messages ++ log ∧ P a r.2 log

namespace Appends

variable {c : Scope} {s : Run} {P P' : α → Run → List Mark → Prop} {R : β → Run → List Mark → Prop}

variable {x : Exec α}

theorem mono (h : Appends x c s P) (hP : ∀ a s' log, P a s' log → P' a s' log) :
    Appends x c s P' := by
  intro t r ht hquiet
  refine ⟨(h t r ht hquiet).1, fun a ha => ?_⟩
  obtain ⟨log, hlog, h⟩ := (h t r ht hquiet).2 a ha
  exact ⟨log, hlog, hP _ _ _ h⟩

theorem value {a : α} (hx : x c s = .ret (.ok a, s)) (h : P a s []) : Appends x c s P := by
  intro t r ht _
  rw [hx] at ht
  obtain ⟨rfl, rfl⟩ := Program.traced_ret.mp ht
  refine ⟨by simp, fun a' ha' => ⟨[], (List.append_nil _).symm, ?_⟩⟩
  rwa [← Except.ok.inj ha']

theorem pure {a : α} (h : P a s []) : Appends (pure a) c s P := value rfl h

theorem stop {e : Stop} (he : e ≠ .returned) : Appends (Exec.stop e : Exec α) c s P := by
  intro t r ht _
  obtain ⟨rfl, rfl⟩ := Program.traced_ret.mp ht
  exact ⟨by simpa using he, fun a ha => absurd ha (by simp)⟩

theorem bind {f : α → Exec β} (hx : Appends x c s P)
    (hf : ∀ a s' log, P a s' log → Appends (f a) c s' fun b s'' log' => R b s'' (log ++ log')) :
    Appends (x >>= f) c s R := by
  intro t r ht hquiet
  rw [bind_apply, Program.traced_bind] at ht
  obtain ⟨t₁, t₂, ⟨e | a, s'⟩, rfl, h₁, h₂⟩ := ht
  · obtain ⟨rfl, rfl⟩ := Program.traced_ret.mp h₂
    exact ⟨by simpa using (hx _ _ h₁ (quiet_append.mp hquiet).1).1, fun b hb => absurd hb (by simp)⟩
  · obtain ⟨hquiet₁, hquiet₂⟩ := quiet_append.mp hquiet
    obtain ⟨log, hlog, h⟩ := (hx _ _ h₁ hquiet₁).2 a rfl
    obtain ⟨hend, hvalue⟩ := hf a s' log h t₂ r h₂ hquiet₂
    refine ⟨hend, fun b hb => ?_⟩
    obtain ⟨log', hlog', h'⟩ := hvalue b hb
    refine ⟨log ++ log', ?_, h'⟩
    simp only [history, List.flatMap_append, marks_append, List.append_assoc] at hlog hlog' ⊢
    rw [hlog', ← List.append_assoc, hlog, List.append_assoc]

theorem read {f : α → Exec β} {a : α} (hx : x c s = .ret (.ok a, s)) (hf : Appends (f a) c s R) :
    Appends (x >>= f) c s R := by
  intro t r ht
  rw [bind_apply, hx] at ht
  exact hf t r ht

theorem ite {p : Prop} [Decidable p] {y : Exec α} (hx : p → Appends x c s P)
    (hy : ¬p → Appends y c s P) : Appends (if p then x else y) c s P := by
  split_ifs with h
  · exact hx h
  · exact hy h

theorem ask_bind {call : Call} {f : call.Answer → Exec β}
    (hcall : ∀ depth, Step.dropped depth ⟨c, s.ctx, call⟩ = [])
    (hf : ∀ a, call.answerable s.ctx.error a = true → Appends (f a) c s R) :
    Appends (Exec.ask call >>= f) c s R := by
  intro t r ht hquiet
  obtain ⟨a, t', rfl, ht'⟩ := Program.traced_ask.mp ht
  obtain ⟨⟨-, hanswer⟩, hquiet'⟩ := quiet_cons.mp hquiet
  have h := hf a hanswer t' r ht' hquiet'
  simpa only [history, List.flatMap_cons, hcall, List.nil_append] using h

theorem modify {f : AgentContext → AgentContext} {P : Unit → Run → List Mark → Prop}
    (hf : marks (f s.ctx).messages = marks s.ctx.messages)
    (h : P () { s with ctx := f s.ctx } []) : Appends (Exec.modify f) c s P := by
  intro t r ht _
  obtain ⟨rfl, rfl⟩ := Program.traced_ret.mp ht
  exact ⟨by simp, fun _ _ => ⟨[], by simpa [history] using hf, h⟩⟩

theorem emit {e : AgentEvent} {P : Unit → Run → List Mark → Prop}
    (h : e.type ≠ .error → P () { s with events := s.events ++ [e] } []) :
    Appends (Exec.emit e) c s P := by
  intro t r ht hquiet
  rw [Exec.emit_apply] at ht
  obtain ⟨a, t', rfl, hret⟩ := Program.traced_ask.mp ht
  obtain ⟨rfl, rfl⟩ := Program.traced_ret.mp hret
  have he : e.type ≠ .error := of_decide_eq_false (quiet_cons.mp hquiet).1.1
  rw [Exec.yieldEnd, if_neg he]
  refine ⟨by simp, fun _ _ => ⟨[], ?_, h he⟩⟩
  simp [history, Step.dropped]

theorem fail {text : Str} : Appends (Exec.fail text : Exec α) c s P :=
  .bind (P := fun _ _ _ => False) (.emit fun h => h rfl) fun _ _ _ h => h.elim

theorem abort {text : Str} : Appends (Exec.abort text : Exec α) c s P :=
  .bind (P := fun _ _ _ => True) (.modify rfl trivial) fun _ _ _ _ => .fail

theorem addMessage {m : Message} :
    Appends (Exec.addMessage m) c s fun _ _ log => log = marks [m] := by
  intro t r ht _
  have hmarks := marks_trim c.rt.process.contextMaxMessages (s.ctx.messages ++ [m])
  change Program.Traced ((if _ then _ else _ : Exec Unit) c s) t r at ht
  split_ifs at ht with hdropped
  · change Program.Traced (.ask _ _) t r at ht
    obtain ⟨_, t', rfl, hret⟩ := Program.traced_ask.mp ht
    obtain ⟨rfl, rfl⟩ := Program.traced_ret.mp hret
    refine ⟨by simp, fun _ _ => ⟨_, ?_, rfl⟩⟩
    rw [← marks_append, ← hmarks]
    simp [history, Step.dropped]
  · obtain ⟨rfl, rfl⟩ := Program.traced_ret.mp ht
    refine ⟨by simp, fun _ _ => ⟨_, ?_, rfl⟩⟩
    rw [not_not] at hdropped
    rw [← marks_append, ← hmarks, hdropped]
    rfl

end Appends

/-! ### Executors that only read -/

/-- What is watched of executors that only read: they drop no messages. -/
def keepsMessages (depth : ℕ) : Ledger Step.Answer where
  grants q := q.dropped depth = []
  charge _ _ := 0

/-- The executor returns a value, changes nothing and drops no messages. -/
def Still (x : Exec α) : Prop := ∀ c s depth, (x c s).Free (keepsMessages depth) fun r =>
  ∃ a, r = (.ok a, s)

namespace Still

theorem value {x : Exec α} (hx : ∀ c s, ∃ a, x c s = .ret (.ok a, s)) : Still x := by
  intro c s depth
  obtain ⟨a, ha⟩ := hx c s
  rw [ha]
  exact ⟨rfl, a, rfl⟩

theorem pure (a : α) : Still (pure a) := value fun _ _ => ⟨a, rfl⟩

theorem ask {call : Call} (h : ∀ c ctx depth, Step.dropped depth ⟨c, ctx, call⟩ = []) :
    Still (Exec.ask call) := fun c s depth => ⟨h c s.ctx depth, fun a => ⟨rfl, a, rfl⟩⟩

theorem bind {x : Exec α} {f : α → Exec β} (hx : Still x) (hf : ∀ a, Still (f a)) :
    Still (x >>= f) := by
  intro c s depth
  rw [bind_apply]
  refine Program.meets_bind.mpr ((hx c s depth).mono ?_)
  rintro _ _ ⟨rfl, a, rfl⟩
  exact (hf a c s depth).mono fun n r ⟨hn, hr⟩ => ⟨(zero_add n).trans hn, hr⟩

theorem ite {p : Prop} [Decidable p] {x y : Exec α} (hx : Still x) (hy : Still y) :
    Still (if p then x else y) := by
  split_ifs
  · exact hx
  · exact hy

theorem scope : Still Exec.scope := value fun c _ => ⟨c, rfl⟩

theorem ctx : Still Exec.ctx := value fun _ s => ⟨s.ctx, rfl⟩

theorem policy : Still Exec.policy := .bind .ctx fun _ => .bind .scope fun _ => .pure _

theorem vars : Still Exec.vars := .bind .ctx fun _ => .bind .scope fun _ => .pure _

theorem planBlocks (toolName : Str) : Still (Exec.planBlocks toolName) :=
  .bind .ctx fun _ => .pure _

theorem callTool (site : ToolSite) (toolName : Str) (args : Dict) :
    Still (Exec.callTool site toolName args) := by
  refine .bind (.ask fun _ _ _ => rfl) fun found => .ite ?_ (.pure _)
  refine .bind (.ask fun _ _ _ => rfl) fun answer => ?_
  cases answer with
  | keyError | failed => exact .pure _
  | ok args => exact .ask fun _ _ _ => rfl

theorem execParallelTool (call : Str × Dict × Str) : Still (Exec.execParallelTool call) := by
  refine .bind (.ask fun _ _ _ => rfl) fun o => .bind .scope fun c => .bind .policy fun policy =>
    .bind .ctx fun ctx => ?_
  dsimp only
  generalize Runtime.parallelToolGate _ _ _ _ _ _ = gate
  cases gate.passed with
  | none => exact .pure _
  | some args => exact .bind (.callTool _ _ _) fun _ => .pure _

end Still

/-- The executor appends what the log says, from every context. -/
def Logs (x : Exec α) (log : List Mark) : Prop := ∀ c s, Appends x c s fun _ _ log' => log' = log

theorem Appends.after {x : Exec α} {f : α → Exec β} {c : Scope} {s : Run}
    {P : β → Run → List Mark → Prop} (hx : Logs x []) (hf : ∀ a s', Appends (f a) c s' P) :
    Appends (x >>= f) c s P :=
  .bind (hx c s) fun a s' _ hlog => (hf a s').mono fun _ _ _ h => by rwa [hlog]

theorem Still.logs {x : Exec α} (hx : Still x) : Logs x [] := by
  intro c s t r ht _
  obtain ⟨hkept, -, a, rfl⟩ := (hx c s c.rt.subGraphDepth).traced ht
  refine ⟨by simp, fun _ _ => ⟨[], ?_, rfl⟩⟩
  have hdropped : t.flatMap (fun e => e.1.dropped c.rt.subGraphDepth) = [] :=
    List.flatMap_eq_nil_iff.mpr hkept
  simp [history, hdropped]

namespace Logs

variable {log log' : List Mark}

theorem bind {x : Exec α} {f : α → Exec β} (hx : Logs x log) (hf : ∀ a, Logs (f a) log') :
    Logs (x >>= f) (log ++ log') := fun c s =>
  .bind (hx c s) fun a s' _ hlog => (hf a c s').mono fun _ _ _ hlog' => by rw [hlog, hlog']

theorem after {x : Exec α} {f : α → Exec β} (hx : Logs x []) (hf : ∀ a, Logs (f a) log) :
    Logs (x >>= f) log := hx.bind hf

theorem before {x : Exec α} {f : α → Exec β} (hx : Logs x log) (hf : ∀ a, Logs (f a) []) :
    Logs (x >>= f) log := by
  have h := hx.bind hf
  rwa [List.append_nil] at h

theorem pure (a : α) : Logs (Pure.pure a : Exec α) [] := (Still.pure a).logs

theorem ask {call : Call} (h : ∀ c ctx depth, Step.dropped depth ⟨c, ctx, call⟩ = []) :
    Logs (Exec.ask call) [] := (Still.ask h).logs

theorem modify {f : AgentContext → AgentContext}
    (hf : ∀ ctx, marks (f ctx).messages = marks ctx.messages) : Logs (Exec.modify f) [] :=
  fun _ s => .modify (hf s.ctx) rfl

theorem ite {p : Prop} [Decidable p] {x y : Exec α} (hx : p → Logs x log) (hy : ¬p → Logs y log) :
    Logs (if p then x else y) log := fun c s => .ite (fun h => hx h c s) fun h => hy h c s

theorem emit (e : AgentEvent) : Logs (Exec.emit e) [] := fun _ _ => .emit fun _ => rfl

theorem fail (text : Str) : Logs (Exec.fail text : Exec α) log := fun _ _ => .fail

theorem addMessage (m : Message) : Logs (Exec.addMessage m) (marks [m]) := fun _ _ => .addMessage

theorem setError (text : Str) : Logs (Exec.setError text) [] := .modify fun _ => rfl

theorem setVar (name : Str) (value : Json) : Logs (Exec.setVar name value) [] :=
  .after Still.vars.logs fun _ => .modify fun _ => rfl

theorem modifyLast {f : Message → Message} (hrole : ∀ m, (f m).role = m.role)
    (hf : ∀ m, (f m).mark = m.mark) : Logs (Exec.modifyLast f) [] :=
  .modify fun _ => marks_modifyLast hrole hf _

theorem each (xs : List α) {f : α → Exec Unit} (hf : ∀ a, Logs (f a) []) :
    Logs (Exec.each xs f) [] := by
  induction xs with
  | nil => exact .pure ()
  | cons x xs ih => exact .after (hf x) fun _ => ih

theorem foldl {f : β → α → Exec β} {g : α → List Mark} (xs : List α)
    (hf : ∀ b, ∀ x ∈ xs, Logs (f b x) (g x)) (b : β) :
    Logs (Exec.foldl f b xs) (xs.flatMap g) := by
  induction xs generalizing b with
  | nil => exact .pure b
  | cons x xs ih =>
    refine .bind (hf b x List.mem_cons_self) fun b => ih (fun b x hx => ?_) b
    exact hf b x (List.mem_cons_of_mem _ hx)

theorem foldl_nil {f : β → α → Exec β} (xs : List α) (hf : ∀ b x, Logs (f b x) []) (b : β) :
    Logs (Exec.foldl f b xs) [] := by
  have h := foldl (g := fun _ => []) xs (fun b x _ => hf b x) b
  rwa [List.flatMap_eq_nil_iff.mpr fun _ _ => rfl] at h

theorem pass (gate : Runtime.Gate α) : Logs (Exec.pass gate) [] :=
  .after (.setError _) fun _ => .each _ fun _ => .emit _

theorem answerCall (result id : Str) : Logs (Exec.answerCall result id) [.reply id] :=
  .before (.addMessage _) fun _ => .emit _

theorem escalateRepeatToolError (toolName result : Str) :
    Logs (Exec.escalateRepeatToolError toolName result) [] :=
  .after Still.ctx.logs fun _ => .after (.modify fun _ => rfl) fun _ =>
    .ite (fun _ => .pure _) fun _ => .pure _

theorem mapInput (input : Str) (m : Str × Str) : Logs (Exec.mapInput input m) [] :=
  .after Still.vars.logs fun _ => .ite (fun _ => .after Still.scope.logs fun _ => .pure _) fun _ =>
    .after (.setVar _ _) fun _ => .pure _

/-! ### Tool calls, one after the other -/

theorem executeRegistration (node : NodeConfig) (toolName : Str) (args : Dict) (id : Str) :
    Logs (Exec.executeRegistration node toolName args id) [.reply id] := by
  refine .after (.ask fun _ _ _ => rfl) fun o => .after Still.ctx.logs fun ctx => ?_
  dsimp only
  generalize Runtime.registerToolGate _ _ _ _ _ = gate
  cases gate.passed with
  | none => exact .before (.addMessage _) fun _ => .pass _
  | some args =>
    exact .ite (fun _ => .after (.ask fun _ _ _ => rfl) fun _ => .answerCall _ _)
      fun _ => .after (.ask fun _ _ _ => rfl) fun _ => .answerCall _ _

private theorem labelled {node : NodeConfig} (content id : Str) (e : AgentEvent) (b : β) : Logs (do
      Exec.addMessage { role := .tool, content, toolCallId := id }
      Exec.modifyLast ({ · with nodeId := node.label })
      Exec.emit e
      return b) [.reply id] :=
  .before (.addMessage _) fun _ => .after (.modifyLast (fun _ => rfl) fun _ => rfl) fun _ =>
    .after (.emit _) fun _ => .pure _

theorem storeResult (node : NodeConfig) (toolName id : Str) (answer : ToolAnswer Str) :
    Logs (Exec.storeResult node toolName id answer) [.reply id] := by
  refine .ite (fun _ => ?_) fun _ => ?_
  · exact .after (.modify fun _ => rfl) fun _ => labelled _ _ _ _
  · exact .ite (fun _ => .after (.escalateRepeatToolError _ _) fun _ => labelled _ _ _ _)
      fun _ => labelled _ _ _ _

end Logs

namespace Appends

variable {c : Scope} {s : Run}

theorem admitInteractive {toolName : Str} {params : Dict} {nodeLabel : Str} :
    Appends (Exec.admitInteractive toolName params nodeLabel) c s fun r s' log =>
      log = [] ∧ s' = s ∧ (r.1.needsApproval = true →
        (r.1.safetyResult.or r.1.escalation).isSome = true → s.ctx.error = []) := by
  refine .ask_bind (fun _ => rfl) fun o hanswer => ?_
  have ho : o.needsApproval = true → (o.safetyResult.or o.escalation).isSome = true →
      s.ctx.error = [] := by
    intro happroval hsome
    have hnone : (o.safetyResult.or o.escalation).isNone = false := by
      rw [← Option.not_isSome, hsome, Bool.not_true]
    simp only [Call.answerable, happroval, hnone, Bool.not_true, Bool.false_or,
      List.isEmpty_iff] at hanswer
    exact hanswer
  split
  · exact .pure ⟨rfl, rfl, ho⟩
  · refine .ask_bind (fun _ => rfl) fun reaction _ => .read rfl (.read rfl (.read rfl ?_))
    exact .ite (fun _ => .pure ⟨rfl, rfl, ho⟩) fun _ =>
      .ask_bind (fun _ => rfl) fun _ _ => .pure ⟨rfl, rfl, ho⟩

theorem pass_of_raised {gate : Runtime.Gate α} {P : Unit → Run → List Mark → Prop}
    (h : gate.events.any Runtime.Event.isError = true) : Appends (Exec.pass gate) c s P := by
  have hevents : ∀ events : List Runtime.Event, events.any Runtime.Event.isError = true →
      ∀ s, Appends (Exec.each events fun e => Exec.emit (.ofGate e)) c s P := by
    intro events
    induction events with
    | nil => exact fun h => absurd h (by simp)
    | cons e events ih =>
      intro h s
      by_cases he : e.isError = true
      · refine .bind (P := fun _ _ _ => False) (.emit fun hne => ?_) fun _ _ _ h => h.elim
        cases e with
        | error content nodeId => exact hne rfl
        | _ => exact absurd he (by simp [Runtime.Event.isError])
      · refine .after (.emit _) fun _ s' => ih ?_ s'
        simpa [he] using h
  exact .after (.setError _) fun _ s' => hevents gate.events h s'

end Appends

private theorem deniedText_ne_nil (o : Runtime.FunnelOutcome) : Runtime.deniedText o ≠ [] := by
  simp only [Runtime.deniedText]
  split_ifs <;> exact List.cons_ne_nil _ _

/-- Where the gate of a tool call has no text, an approval has failed, or there has been an error
before. -/
private theorem toolCallGate_silent {ctxError : Str} {o : Runtime.FunnelOutcome}
    (isAlnum : Char → Bool) (policy : Option Runtime.ConfirmationPolicy) (nodeLabel toolName : Str)
    (params : Dict) (readmission : Runtime.FunnelOutcome) (reaction : Runtime.Ask)
    (hctx : o.needsApproval = true → (o.safetyResult.or o.escalation).isSome = true →
      ctxError = []) :
    let gate := Runtime.toolCallGate isAlnum policy nodeLabel ctxError toolName params o readmission
      reaction
    gate.passed = none → gate.denial = [] → gate.events.any Runtime.Event.isError = true := by
  have hdenied (ctxError : Str) (events : List Runtime.Event) (o : Runtime.FunnelOutcome) :
      let gate := Runtime.admitToolCall nodeLabel ctxError toolName events o
      gate.passed = none → gate.denial ≠ [] := by
    simp only [Runtime.admitToolCall, Runtime.admission]
    split_ifs
    · exact fun _ => deniedText_ne_nil _
    · exact fun h => absurd h (by simp)
  simp only [Runtime.toolCallGate]
  split_ifs with happroval
  · split
    · exact fun _ h => absurd h (List.cons_ne_nil _ _)
    · next v hv =>
      rw [hctx happroval (by simp [hv])]
      split_ifs with herror
      · intro _ _
        rw [Runtime.orText] at herror
        split_ifs at herror with hflow
        · exact absurd rfl herror
        · exact Bool.of_not_eq_false (mt Runtime.error_awaitSafetyApproval.mpr hflow)
      · exact fun h h' => absurd h' (hdenied _ _ _ h)
  · exact fun h h' => absurd h' (hdenied _ _ _ h)

private theorem selfRepairToolGate_silent (isAlnum : Char → Bool)
    (policy : Option Runtime.ConfirmationPolicy) (nodeLabel ctxError toolName : Str) (params : Dict)
    (o : Runtime.FunnelOutcome) (reaction : Runtime.Ask) :
    let gate := Runtime.selfRepairToolGate isAlnum policy nodeLabel ctxError toolName params o
      reaction
    gate.passed = none → gate.denial = [] → gate.events.any Runtime.Event.isError = true := by
  simp only [Runtime.selfRepairToolGate]
  generalize (if (o.allowed && !o.needsApproval) = true then
    Runtime.policyEscalationVerdict isAlnum policy toolName params else none) = escalation
  split_ifs
  · split
    · exact fun _ h => absurd h (List.cons_ne_nil _ _)
    · split_ifs with hraised
      · exact fun _ _ => hraised
      · exact fun h => absurd h (by simp)
  · exact fun _ h => absurd h (deniedText_ne_nil _)
  · exact fun h => absurd h (by simp)

namespace Logs

variable {log : List Mark}

theorem executeFunction (node : NodeConfig) (toolName : Str) (args : Dict) (id : Str) :
    Logs (Exec.executeFunction node toolName args id) [.reply id] := by
  intro c s
  refine .after (.emit _) fun _ s => .bind .admitInteractive ?_
  rintro ⟨o, readmission, reaction⟩ s' _ ⟨rfl, rfl, ho⟩
  refine .read rfl (.read rfl (.read rfl ?_))
  have hsilent := toolCallGate_silent c.rt.process.isAlnum
    (s'.ctx.confirmationPolicy.bind c.rt.process.policy) node.label toolName args readmission
    reaction ho
  dsimp only at hsilent ⊢
  generalize Runtime.toolCallGate _ _ _ _ _ _ _ _ _ = gate at hsilent
  cases hpassed : gate.passed with
  | some args =>
    exact after (.pass _) (fun _ => .after (Still.callTool _ _ _).logs fun _ =>
      .storeResult _ _ _ _) c s'
  | none =>
    refine .ite (fun _ => ?_) fun hdenial => ?_
    · exact before (.addMessage _) (fun _ => .after (.pass _) fun _ => .pure _) c s'
    · rw [not_not] at hdenial
      exact .bind (.pass_of_raised (P := fun _ _ _ => False) (hsilent hpassed hdenial))
        fun _ _ _ h => h.elim

end Logs

/-! ### Sub-graphs -/

/-- A run inside a run starts, which is no answer that leaves all calls with a reply, or it raises
an exception. -/
def Opens (nested : Nested) : Prop := ∀ rt g input ctx parent up t r,
  Program.Traced (nested rt g input ctx parent up) t r → Quiet t → r.1 = .error .raised

theorem not_quiet_of_runGraph {nested : Nested} {e : Entry} {parent : Option Bool} {up : Option ℕ}
    {r : Except Stop Unit × Run} (h : Program.Traced (runGraph nested e parent up) t r) :
    ¬ Quiet t := by
  obtain ⟨a, t', rfl, -⟩ := Program.traced_ask.mp h
  exact fun hquiet => absurd (quiet_cons.mp hquiet).1.2 (by simp [Call.answerable])

theorem opens_branchesOnly (nodes : ℕ) : Opens (branchesOnly nodes) := by
  intro rt g input ctx parent up t r h hquiet
  cases nodes with
  | zero => rw [(Program.traced_ret.mp h).2]
  | succ nodes => exact absurd hquiet (not_quiet_of_runGraph h)

theorem opens_nestedAt (depth : ℕ) (graph : AgentGraph) : Opens (nestedAt depth graph) := by
  intro rt g input ctx parent up t r h hquiet
  cases depth with
  | zero => exact opens_branchesOnly _ _ _ _ _ _ _ _ _ h hquiet
  | succ depth => exact absurd hquiet (not_quiet_of_runGraph h)

namespace Appends

variable {c : Scope} {s : Run} {nested : Nested}

theorem runNested {p : Program Step.Answer (Except Stop Unit × Run)}
    {P : Run → Run → List Mark → Prop}
    (h : ∀ t r, Program.Traced p t r → Quiet t → r.1 = .error .raised) :
    Appends (Exec.runNested p) c s P := by
  intro t r ht hquiet
  obtain ⟨t₁, t₂, ⟨e | a, s'⟩, rfl, h₁, h₂⟩ := Program.traced_bind.mp ht
  · obtain ⟨rfl, rfl⟩ := Program.traced_ret.mp h₂
    obtain rfl : e = .raised := Except.error.inj (h _ _ h₁ (quiet_append.mp hquiet).1)
    exact ⟨by simp, fun a ha => absurd ha (by simp)⟩
  · exact absurd (h _ _ h₁ (quiet_append.mp hquiet).1) (by simp)

theorem executeSubGraph (hnested : Opens nested) {params : Vars}
    {P : List AgentEvent → Run → List Mark → Prop} :
    Appends (Exec.executeSubGraph nested params) c s P := by
  have hrefused (text : Str) : Appends
      (do Exec.emit ⟨.error, text⟩; return [⟨.error, text⟩] : Exec (List AgentEvent)) c s P :=
    .bind (P := fun _ _ _ => False) (.emit fun h => h rfl) fun _ _ _ h => h.elim
  refine .read rfl (.ite (fun _ => hrefused _) fun _ => ?_)
  split
  · exact hrefused _
  · split
    · exact .after (.foldl_nil _ .mapInput _) fun _ _ => .after Still.vars.logs fun _ _ => .read rfl
        (.read rfl (.bind (.runNested (P := fun _ _ _ => False) (hnested _ _ _ _ _ _))
          fun _ _ _ h => h.elim))
    · exact .stop (by simp)

end Appends

namespace Logs

variable {log : List Mark} {nested : Nested}

theorem executeToolCall (hnested : Opens nested) (node : NodeConfig) (errors : List Str)
    (call : ToolCall) : Logs (Exec.executeToolCall nested node errors call) [.reply call.id] := by
  unfold Exec.executeToolCall
  split
  · exact .after (.setError _) fun _ => .fail _
  · refine .after (Still.planBlocks _).logs fun blocked => .ite (fun _ => ?_) fun _ =>
      .ite (fun _ => ?_) fun _ => .ite (fun _ => ?_) fun _ => ?_
    · exact .before (.answerCall _ _) fun _ => .pure _
    · exact fun c s => .bind (.executeSubGraph hnested (P := fun _ _ _ => False))
        fun _ _ _ h => h.elim
    · exact .before (.executeRegistration _ _ _ _) fun _ => .pure _
    · exact .before (.executeFunction _ _ _ _) fun _ => .pure _

/-! ### Tool calls at the same time -/

theorem storeParallel (node : NodeConfig) (errors : List Str)
    (r : (Str × Dict × Str) × (Str × Bool)) :
    Logs (Exec.storeParallel node errors r) [.reply r.1.2.2] := by
  obtain ⟨⟨toolName, args, id⟩, result, failed⟩ := r
  exact .ite (fun _ => .after (.escalateRepeatToolError _ _) fun _ => labelled _ _ _ _)
    fun _ => labelled _ _ _ _

end Logs

theorem Appends.gatherAll {f : α → Exec β} {xs : List α} {c : Scope} {s : Run}
    (hf : ∀ x ∈ xs, Still (f x)) :
    Appends (Exec.gatherAll (xs.map f)) c s fun rs _ log => log = [] ∧ rs.length = xs.length := by
  intro t r ht _
  let ledger := keepsMessages c.rt.subGraphDepth
  have hgather : (Program.gather ⟨c, s.ctx, .schedule⟩ id
      (xs.map fun x => (f x c s).map Prod.fst)).Free ledger fun rs =>
        List.Forall₂ (fun _ r => ∃ b, r = .ok b) xs rs :=
    Program.Free.gather_map ⟨rfl, fun _ => rfl⟩ fun x hx => Program.meets_map.mpr <|
      (hf x hx c s _).mono fun n r ⟨hn, b, hr⟩ => ⟨hn, b, by rw [hr]⟩
  rw [Exec.gatherAll, List.map_map] at ht
  obtain ⟨t₁, t₂, rs, rfl, h₁, h₂⟩ := Program.traced_bind.mp ht
  obtain ⟨rfl, rfl⟩ := Program.traced_ret.mp h₂
  obtain ⟨hkept, -, hrs⟩ := hgather.traced h₁
  have hmapM : ∃ bs, rs.mapM id = (.ok bs : Except Stop (List β)) ∧ bs.length = xs.length := by
    clear h₁ h₂ ht hgather hf
    induction hrs with
    | nil => exact ⟨[], rfl, rfl⟩
    | cons hr _ ih =>
      obtain ⟨b, rfl⟩ := hr
      obtain ⟨bs, hbs, hlength⟩ := ih
      exact ⟨b :: bs, by simp [List.mapM_cons, hbs]; rfl, by simp [hlength]⟩
  obtain ⟨bs, hbs, hlength⟩ := hmapM
  rw [hbs]
  refine ⟨by simp, fun bs' hbs' => ⟨[], ?_, rfl, ?_⟩⟩
  · have hdropped : t₁.flatMap (fun e => e.1.dropped c.rt.subGraphDepth) = [] :=
      List.flatMap_eq_nil_iff.mpr hkept
    simp [history, hdropped]
  · rw [← Except.ok.inj hbs', hlength]

theorem ids_of_parseCalls {calls : List ToolCall} {parsed : List (Str × Dict × Str)}
    (h : Exec.parseCalls calls = .ok (some parsed)) :
    parsed.map (fun call => call.2.2) = calls.map ToolCall.id := by
  induction calls generalizing parsed with
  | nil =>
    obtain rfl := Option.some.inj (Except.ok.inj h)
    rfl
  | cons call calls ih =>
    rw [Exec.parseCalls] at h
    split at h
    · simp at h
    · split_ifs at h
      · simp at h
      · cases hcalls : Exec.parseCalls calls with
        | error text => simp [hcalls, Except.map] at h
        | ok rest =>
          cases rest with
          | none => simp [hcalls, Except.map] at h
          | some rest =>
            rw [hcalls] at h
            obtain rfl := Option.some.inj (Except.ok.inj h)
            simp [ih hcalls]

namespace Logs

variable {nested : Nested}

theorem executeParallel (node : NodeConfig) (calls : List (Str × Dict × Str)) :
    Logs (Exec.executeParallel node calls) ((calls.map fun call => call.2.2).map .reply) := by
  intro c s
  refine .after (.each _ fun _ => .emit _) fun _ s => .bind
    (.gatherAll fun call _ => .execParallelTool call) ?_
  rintro results s' _ ⟨rfl, hlength⟩
  refine (foldl (calls.zip results) (fun errors r _ => storeParallel node errors r) [] c s').mono ?_
  rintro _ _ _ rfl
  have hzip : (calls.zip results).map Prod.fst = calls := List.map_fst_zip hlength.ge
  rw [List.nil_append, ← List.map_eq_flatMap]
  conv_rhs => rw [← hzip, List.map_map, List.map_map]
  rfl

theorem executeToolCalls (hnested : Opens nested) (node : NodeConfig) (calls : List ToolCall) :
    Logs (Exec.executeToolCalls nested node calls) ((calls.map ToolCall.id).map .reply) := by
  have hsequential : Logs (Exec.foldl (Exec.executeToolCall nested node) [] calls)
      ((calls.map ToolCall.id).map .reply) := by
    rw [List.map_map, List.map_eq_flatMap]
    exact foldl calls (fun errors call _ => executeToolCall hnested node errors call) []
  refine .after Still.ctx.logs fun ctx => .ite (fun _ => ?_) fun _ => hsequential
  cases hparsed : Exec.parseCalls calls with
  | error text => exact .after (.setError _) fun _ => .fail _
  | ok parsed =>
    cases parsed with
    | none => exact hsequential
    | some parsed =>
      rw [← ids_of_parseCalls hparsed]
      exact .executeParallel _ _

/-! ### Self-repair -/

theorem executeRepairCall (node : NodeConfig) (errors : List Str) {call : ToolCall}
    (hcall : call.call.isOk = true) :
    Logs (Exec.executeRepairCall node errors call) [.reply call.id] := by
  unfold Exec.executeRepairCall
  split
  · next text htext => simp [htext, Except.isOk, Except.toBool] at hcall
  · next toolName args _ =>
    refine .after (.emit _) fun _ => .after (Still.planBlocks _).logs fun _ => .ite (fun _ => ?_)
      fun _ => ?_
    · exact .before (.answerCall _ _) fun _ => .pure _
    · refine .after (.ask fun _ _ _ => rfl) fun o => .after (.ask fun _ _ _ => rfl) fun reaction =>
        .after Still.scope.logs fun c => .after Still.policy.logs fun policy =>
        .after Still.ctx.logs fun ctx => ?_
      have hsilent := selfRepairToolGate_silent c.rt.process.isAlnum policy node.label ctx.error
        toolName args o reaction
      dsimp only at hsilent ⊢
      generalize Runtime.selfRepairToolGate _ _ _ _ _ _ _ _ = gate at hsilent
      cases hpassed : gate.passed with
      | some args =>
        exact .after (.pass _) fun _ => .after (Still.callTool _ _ _).logs fun _ =>
          .before (.answerCall _ _) fun _ => .pure _
      | none =>
        have hdenied (hdenial : gate.denial ≠ []) : Logs (do
            Exec.pass gate
            if gate.denial = [] then Exec.stop .returned
            return errors ++ [toolName ++ ": " ++ gate.denial]) [] := by
          rw [if_neg hdenial]
          exact .after (.pass _) fun _ => .pure _
        refine .ite (fun hdenial => .before (.addMessage _) fun _ => hdenied hdenial)
          fun hdenial => ?_
        rw [not_not] at hdenial
        exact fun c s => .bind (.pass_of_raised (P := fun _ _ _ => False)
          (hsilent hpassed hdenial)) fun _ _ _ h => h.elim

end Logs

namespace Logs

theorem safetyGate (gate : Runtime.SafetyVerdict → Runtime.Ask → Str →
    Option Runtime.ConfirmationPolicy → Runtime.Gate Unit) : Logs (Exec.safetyGate gate) [] := by
  have hevent (e : Runtime.Event) :
      Logs (do Exec.emit (.ofGate e); if e.isError then Exec.stop .returned) [] := by
    by_cases he : e.isError = true
    · refine fun c s => .bind (P := fun _ _ _ => False) (.emit fun hne => ?_) fun _ _ _ h => h.elim
      cases e with
      | error content nodeId => exact hne rfl
      | _ => exact absurd he (by simp [Runtime.Event.isError])
    · simp only [he]
      exact .after (.emit _) fun _ => .pure _
  exact .after Still.scope.logs fun _ => .ite (fun _ => .after (.ask fun _ _ _ => rfl) fun _ =>
    .after (.ask fun _ _ _ => rfl) fun _ => .after Still.ctx.logs fun _ =>
    .after Still.policy.logs fun _ => .after (.setError _) fun _ => .each _ hevent) fun _ => .pure _

theorem structuredContent (node : NodeConfig) (content : Str) :
    Logs (Exec.structuredContent node content) [] := by
  refine .ite (fun _ => .after (.ask fun _ _ _ => rfl) fun part => ?_) fun _ => .pure _
  cases part with
  | none => exact .pure _
  | some part => exact .after (.setVar _ _) fun _ => .pure _

theorem requestAnswer (model : Str) (stream : Bool) :
    Logs (Exec.requestAnswer model stream) [] := by
  refine .after (.ask fun _ _ _ => rfl) fun answer => ?_
  cases answer with
  | failed error usage => exact .pure _
  | answered r =>
    refine .ite (fun _ => .after (.foldl_nil _ (fun r call => ?_) _) fun _ => .pure _)
      fun _ => .pure _
    refine .ite (fun _ => .after (.ask fun _ _ _ => rfl) fun answer => ?_) fun _ => .pure _
    cases answer <;> exact .pure _

theorem truncationRecovery (content : Str) : Logs (Exec.truncationRecovery content) [] :=
  .after Still.scope.logs fun _ => .ite (fun _ => .after (.ask fun _ _ _ => rfl) fun _ =>
    .each _ fun _ => .addMessage _) fun _ => .pure _

theorem storeAnswer (node : NodeConfig) (r : LLMResponse) :
    Logs (Exec.storeAnswer node r) [.calls (r.toolCalls.map ToolCall.id)] := by
  refine .after (.structuredContent _ _) fun content => .before (.addMessage _) fun _ =>
    .after (.truncationRecovery _) fun _ => ?_
  cases r.usage with
  | none => exact .emit _
  | some usage =>
    exact .ite (fun _ => .after (.ask fun _ _ _ => rfl) fun _ =>
      .after (.modifyLast (fun _ => rfl) fun _ => rfl) fun _ => .emit _) fun _ => .emit _

end Logs

namespace Appends

variable {c : Scope} {s : Run} {nested : Nested}

theorem requestRepair {node : NodeConfig} {model : Str} {errors : List Str} :
    Appends (Exec.requestRepair node model errors) c s fun r _ log => log = [] ∧
      ∀ r', r = some r' → ∀ call ∈ r'.toolCalls, call.call.isOk = true := by
  refine .after (.emit _) fun _ s => .after (.addMessage _) fun _ s => .read rfl <|
    .after (.safetyGate _) fun _ s => .ask_bind (fun _ => rfl) fun reason _ => ?_
  cases reason with
  | some reason => exact .abort
  | none =>
    refine .ask_bind (fun _ => rfl) fun answer hanswer => ?_
    cases answer with
    | failed error usage => exact .pure ⟨rfl, fun r' h => absurd h (by simp)⟩
    | answered r =>
      refine .pure ⟨rfl, fun r' h => ?_⟩
      rw [← Option.some.inj h]
      exact List.all_eq_true.mp hanswer

theorem selfRepair {node : NodeConfig} {model : Str} {attempts : ℕ} {errors : List Str} :
    Appends (Exec.selfRepair node model attempts errors) c s fun _ _ log =>
      ∃ groups : List (List Str), log = groups.flatMap Mark.group := by
  induction attempts generalizing errors s with
  | zero => exact .pure ⟨[], rfl⟩
  | succ attempts ih =>
    refine .bind .requestRepair ?_
    rintro answer s' _ ⟨rfl, hcalls⟩
    cases answer with
    | none => exact ih
    | some r =>
      have hcall := hcalls r rfl
      refine .bind .addMessage ?_
      rintro _ s' _ rfl
      refine .ite (fun hempty => ?_) fun _ => ?_
      · refine (Logs.emit _ c s').mono ?_
        rintro _ _ _ rfl
        exact ⟨[r.toolCalls.map ToolCall.id], by simp [List.isEmpty_iff.mp hempty]; rfl⟩
      · refine .bind (Logs.foldl (f := Exec.executeRepairCall node)
          (g := fun call => [.reply call.id]) r.toolCalls (fun errors call h =>
            Logs.executeRepairCall node errors (hcall call h)) [] c s') ?_
        rintro errors s' _ rfl
        have hgroup : marks [{ role := .assistant, content := r.content, toolCalls := r.toolCalls }]
            ++ r.toolCalls.flatMap (fun call => [Mark.reply call.id]) =
              Mark.group (r.toolCalls.map ToolCall.id) := by
          rw [← List.map_eq_flatMap, Mark.group, List.map_map]
          rfl
        refine .ite (fun _ => ?_) fun _ => ih.mono ?_
        · refine (Logs.emit _ c s').mono ?_
          rintro _ _ _ rfl
          exact ⟨[r.toolCalls.map ToolCall.id], by simp [← hgroup]⟩
        · rintro _ _ _ ⟨groups, rfl⟩
          refine ⟨r.toolCalls.map ToolCall.id :: groups, ?_⟩
          rw [List.flatMap_cons, ← hgroup, List.append_assoc, List.nil_append]

end Appends

/-- **After the answer.** An LLM node appends groups: its answer and those of a self-repair, each
with a reply for each of its calls. -/
theorem appends_followAnswer {nested : Nested} (hnested : Opens nested) (node : NodeConfig)
    (g : AgentGraph) (model : Str) (r : LLMResponse) (c : Scope) (s : Run) :
    Appends (Exec.followAnswer nested node g model r) c s fun _ _ log =>
      ∃ groups : List (List Str), log = groups.flatMap Mark.group := by
  refine .bind (Logs.storeAnswer node r c s) ?_
  rintro _ s' _ rfl
  refine .ite (fun hempty => .pure ⟨[[]], by simp [List.isEmpty_iff.mp hempty]; rfl⟩) fun _ => ?_
  refine .after (.modify fun _ => rfl) fun _ s => .read rfl (.ite (fun _ => .abort) fun _ => ?_)
  refine .bind (Logs.executeToolCalls hnested node r.toolCalls c s) ?_
  rintro errors s' _ rfl
  have hgroup : [Mark.group (r.toolCalls.map ToolCall.id)].flatten =
      [Mark.calls (r.toolCalls.map ToolCall.id)] ++
        ((r.toolCalls.map ToolCall.id).map .reply ++ []) := by simp [Mark.group]
  refine .ite (fun _ => .pure ⟨[r.toolCalls.map ToolCall.id], hgroup.symm⟩) fun _ =>
    .ite (fun _ => .abort) fun _ => .ite (fun _ => ?_) fun _ => .pure ⟨[_], hgroup.symm⟩
  refine Appends.selfRepair.mono ?_
  rintro _ _ _ ⟨groups, rfl⟩
  exact ⟨r.toolCalls.map ToolCall.id :: groups, rfl⟩

/-! ### The node -/

namespace Exec

/-- The part of `_execute_llm_node` up to its answer. -/
def answerLlmNode (node : NodeConfig) (graphModel : Str) (stream : Bool) : Exec LLMResponse := do
  prepareArtifacts
  let isAlnum := (← scope).rt.process.isAlnum
  safetyGate fun v reaction error policy =>
    Runtime.llmCallGate isAlnum policy node.label error v reaction
  match ← ask .preLlm with
  | some reason => abort reason
  | none =>
    match ← requestAnswer (if node.model = [] then graphModel else node.model) stream with
    | .error text => abort ("LLM call failed: " ++ text)
    | .ok r => return r

theorem executeLlmNode_eq (nested : Nested) (node : NodeConfig) (g : AgentGraph) (graphModel : Str)
    (stream : Bool) : executeLlmNode nested node g graphModel stream =
      body (answerLlmNode node graphModel stream >>= fun r => afterAnswer
        (followAnswer nested node g (if node.model = [] then graphModel else node.model) r)) := by
  refine congrArg body ?_
  simp only [answerLlmNode, bind_bind]
  refine bind_congr fun _ => bind_congr fun c => bind_congr fun _ => bind_congr fun reason => ?_
  cases reason with
  | some reason => exact (abort_bind _ _).symm
  | none =>
    dsimp only
    rw [bind_bind]
    refine bind_congr fun answer => ?_
    cases answer with
    | error text => exact (abort_bind _ _).symm
    | ok r => rfl

end Exec

theorem Appends.afterAnswer {x : Exec Unit} {c : Scope} {s : Run}
    {P : Unit → Run → List Mark → Prop}
    (h : Appends x { c with hop := Exec.answeredHop c.hop } s P) :
    Appends (Exec.afterAnswer x) c s P := by
  intro t r ht hquiet
  obtain ⟨t₁, t₂, ⟨e | a, s'⟩, rfl, h₁, h₂⟩ := Program.traced_bind.mp ht
  · obtain ⟨hend, -⟩ := h _ _ h₁ (quiet_append.mp hquiet).1
    cases e with
    | returned => exact absurd rfl hend
    | _ =>
      obtain ⟨a, t', rfl, hret⟩ := Program.traced_ask.mp h₂
      rw [(Program.traced_ret.mp hret).2]
      exact ⟨by simp, fun a ha => absurd ha (by simp)⟩
  · obtain ⟨rfl, rfl⟩ := Program.traced_ret.mp h₂
    rw [List.append_nil] at hquiet ⊢
    exact h _ _ h₁ hquiet

/-- In a run that is looked at, the executor does not end with `return`. -/
def Stays (x : Exec α) : Prop := ∀ c s t r, Program.Traced (x c s) t r → Quiet t →
  r.1 ≠ .error .returned

namespace Stays

theorem of_logs {x : Exec α} {log : List Mark} (h : Logs x log) : Stays x :=
  fun c s t r ht hquiet => (h c s t r ht hquiet).1

theorem abort (text : Str) : Stays (Exec.abort text : Exec α) :=
  fun _ _ _ _ ht hquiet => (Appends.abort (P := fun _ _ _ => True) _ _ ht hquiet).1

theorem modify (f : AgentContext → AgentContext) : Stays (Exec.modify f) := by
  intro c s t r ht _
  rw [(Program.traced_ret.mp ht).2]
  simp

theorem bind {x : Exec α} {f : α → Exec β} (hx : Stays x) (hf : ∀ a, Stays (f a)) :
    Stays (x >>= f) := by
  intro c s t r ht hquiet
  rw [bind_apply, Program.traced_bind] at ht
  obtain ⟨t₁, t₂, ⟨e | a, s'⟩, rfl, h₁, h₂⟩ := ht
  · rw [(Program.traced_ret.mp h₂).2]
    simpa using hx c s _ _ h₁ (quiet_append.mp hquiet).1
  · exact hf a c s' _ _ h₂ (quiet_append.mp hquiet).2

theorem ite {p : Prop} [Decidable p] {x y : Exec α} (hx : Stays x) (hy : Stays y) :
    Stays (if p then x else y) := by
  split_ifs
  · exact hx
  · exact hy

private theorem artifactCompaction {f : Option Compaction → Exec Unit} (hnone : Stays (f none))
    (hsome : ∀ compaction, Stays (f (some compaction))) :
    Stays (Exec.ask .artifactCompaction >>= f) := by
  refine .bind (.of_logs (.ask fun _ _ _ => rfl)) fun a => ?_
  cases a with
  | none => exact hnone
  | some compaction => exact hsome compaction

theorem prepareArtifacts : Stays Exec.prepareArtifacts := by
  refine .bind (.of_logs Still.scope.logs) fun c => .ite ?_ (.of_logs (.pure _))
  refine .bind (.modify _) fun _ => .bind (.of_logs Still.ctx.logs) fun ctx => .ite
    (.bind (.of_logs (.ask fun _ _ _ => rfl)) fun _ => .ite (.bind (.of_logs (.addMessage _))
      fun _ => ?_) ?_) ?_
  all_goals exact artifactCompaction (.of_logs (.pure _)) fun _ => .bind (.modify _) fun _ =>
    .of_logs (.emit _)

theorem answerLlmNode (node : NodeConfig) (graphModel : Str) (stream : Bool) :
    Stays (Exec.answerLlmNode node graphModel stream) := by
  refine .bind .prepareArtifacts fun _ => .bind (.of_logs Still.scope.logs) fun _ =>
    .bind (.of_logs (.safetyGate _)) fun _ => .bind (.of_logs (.ask fun _ _ _ => rfl))
    fun reason => ?_
  cases reason with
  | some reason => exact .abort _
  | none =>
    refine .bind (.of_logs (.requestAnswer _ _)) fun answer => ?_
    cases answer with
    | error text => exact .abort _
    | ok r => exact .of_logs (.pure _)

end Stays

/-- The condition holds of every message of the assistant that an LLM node has appended, and of
what it has appended after it: the run is cut where the node has its answer. -/
def AppendsEach (node : NodeConfig) (graphModel : Str) (stream : Bool) (c : Scope) (s : Run)
    (t : List (Event Step.Answer)) (s' : Run) (R : Mark → List Mark → Prop) : Prop :=
  ∃ t₁ t₂ r s₁ log, t = t₁ ++ t₂ ∧
    Program.Traced (Exec.answerLlmNode node graphModel stream c s) t₁ (.ok r, s₁) ∧
    history c.rt.subGraphDepth t₂ s' = marks s₁.ctx.messages ++ log ∧
    ∀ past m later, log = past ++ m :: later → m.role = .assistant → R m later

/-- **Replies.** In a run of an LLM node that comes to its end without an `ERROR` event, and whose
answers are answerable, the calls of each message of the assistant that has been appended are
answered once, before the next one, if and only if their ids are not empty and differ. -/
theorem answeredOnce_iff_of_answerable {depth : ℕ} {graph g : AgentGraph} {node : NodeConfig}
    {graphModel : Str} {stream : Bool} {c : Scope} {s s' : Run} {t : List (Event Step.Answer)}
    (h : Program.Traced (Exec.executeLlmNode (nestedAt depth graph) node g graphModel stream c s) t
      (.ok (), s')) (herror : ErrorFree t) (hanswers : Answerable t) :
    AppendsEach node graphModel stream c s t s' fun m later =>
      m.AnsweredOnce later ↔ m.HasIds := by
  rw [Exec.executeLlmNode_eq, Exec.body] at h
  obtain ⟨t, t', ⟨r, s''⟩, rfl, h, hend⟩ := Program.traced_bind.mp h
  have hquiet : Quiet t := (quiet_append.mp ⟨herror, hanswers⟩).1
  rw [bind_apply, Program.traced_bind] at h
  obtain ⟨t₁, t₂, ⟨e | r', s₁⟩, rfl, h₁, h₂⟩ := h
  · obtain ⟨rfl, hr⟩ := Program.traced_ret.mp h₂
    obtain ⟨rfl, rfl⟩ := Prod.mk.inj hr
    have hstays := Stays.answerLlmNode _ _ _ _ _ _ _ h₁ (quiet_append.mp hquiet).1
    cases e with
    | returned => exact absurd rfl hstays
    | _ => simp [Program.traced_ret] at hend
  · obtain ⟨hstays, hvalue⟩ := (appends_followAnswer (opens_nestedAt depth graph) node g _ r' _
      s₁).afterAnswer t₂ _ h₂ (quiet_append.mp hquiet).2
    rcases r with e | a
    · cases e with
      | returned => exact absurd rfl hstays
      | _ => simp [Program.traced_ret] at hend
    · obtain ⟨rfl, hr⟩ := Program.traced_ret.mp hend
      obtain ⟨-, rfl⟩ := Prod.mk.inj hr
      obtain ⟨log, hlog, groups, rfl⟩ := hvalue a rfl
      exact ⟨t₁, t₂, r', s₁, _, List.append_nil _, h₁, hlog, fun past m later hsplit hm =>
        Mark.answeredOnce_iff hsplit hm⟩

/-! ### A self-repair whose call cannot be read -/

theorem traced_executeLlmNode {nested : Nested} {node : NodeConfig} {g : AgentGraph}
    {graphModel model : Str} {stream : Bool} {c : Scope} {s s₁ s₂ : Run}
    {t₁ t₂ : List (Event Step.Answer)} {r : LLMResponse}
    (hmodel : (if node.model = [] then graphModel else node.model) = model)
    (h₁ : Program.Traced (Exec.answerLlmNode node graphModel stream c s) t₁ (.ok r, s₁))
    (h₂ : Program.Traced (Exec.followAnswer nested node g model r
      { c with hop := Exec.answeredHop c.hop } s₁) t₂ (.ok (), s₂)) :
    Program.Traced (Exec.executeLlmNode nested node g graphModel stream c s) (t₁ ++ t₂)
      (.ok (), s₂) := by
  have hafter : Program.Traced (Exec.afterAnswer (Exec.followAnswer nested node g model r) c s₁) t₂
      (.ok (), s₂) :=
    Program.traced_bind.mpr ⟨t₂, [], _, (List.append_nil _).symm, h₂, .ret _⟩
  rw [Exec.executeLlmNode_eq, hmodel]
  refine Program.traced_bind.mpr ⟨_, [], (.ok (), s₂), (List.append_nil _).symm, ?_, .ret _⟩
  exact Program.traced_bind.mpr ⟨t₁, t₂, _, rfl, h₁, hafter⟩

/-- An environment without tools, in which the gateway answers and gives a second answer to a
self-repair. -/
def withoutTools (answer repair : LLMResponse) : (q : Step) → q.Answer
  | ⟨_, _, .getTool _⟩ => false
  | ⟨_, _, .chat .selfRepair _⟩ => .answered repair
  | q => q.call.oblige answer

def calling (id : String) (call : Except Str (Str × Dict)) : LLMResponse where
  toolCalls := [{ id := id.toList, call }]

def repairNode : NodeConfig where
  type := .llm
  model := "m"
  maxRetries := 1
  retryOnError := true

def repairGraph : AgentGraph where
  id := "g"
  nodes := [("n", repairNode)]
  edges := []
  startNodeId := "n"
  nodup := List.nodup_singleton _

def repairScope : Scope where
  rt := { process := plainProcess }

/-- The node as far as its answer, a call of a tool that is not there. -/
def answeredRun (repair : LLMResponse) : List (Event Step.Answer) × Except Stop LLMResponse × Run :=
  (Exec.answerLlmNode repairNode [] false repairScope { ctx := {} }).run
    (fun q _ => (withoutTools (calling "a" (.ok ("t", .empty))) repair q, ())) ()

def repairedRun (repair : LLMResponse) : List (Event Step.Answer) × Except Stop Unit × Run :=
  (Exec.followAnswer (nestedAt 0 repairGraph) repairNode repairGraph "m"
    (calling "a" (.ok ("t", .empty)))
    { repairScope with hop := Exec.answeredHop repairScope.hop }
      (answeredRun repair).2.2).run
    (fun q _ => (withoutTools (calling "a" (.ok ("t", .empty))) repair q, ())) ()

theorem traced_answeredRun (repair : LLMResponse) :
    Program.Traced (Exec.answerLlmNode repairNode [] false repairScope { ctx := {} })
      (answeredRun repair).1 (.ok (calling "a" (.ok ("t", .empty))),
        (answeredRun repair).2.2) := Program.traced_of_run rfl

theorem traced_repairedRun (repair : LLMResponse) (h : (repairedRun repair).2.1 = .ok ()) :
    Program.Traced (Exec.executeLlmNode (nestedAt 0 repairGraph) repairNode repairGraph [] false
        repairScope { ctx := {} })
      ((answeredRun repair).1 ++ (repairedRun repair).1) (.ok (), (repairedRun repair).2.2) := by
  have hanswered := traced_answeredRun repair
  have hrepaired : Program.Traced (Exec.followAnswer (nestedAt 0 repairGraph) repairNode repairGraph
      "m" (calling "a" (.ok ("t", .empty)))
      { repairScope with hop := Exec.answeredHop repairScope.hop } (answeredRun repair).2.2)
      (repairedRun repair).1 (.ok (), (repairedRun repair).2.2) := by
    have htraced := Program.traced_of_run h
    exact htraced
  exact traced_executeLlmNode (by decide) hanswered hrepaired

/-- A self-repair whose call can be read: the calls are answered once, as their ids differ. -/
theorem answeredOnce_iff_repaired :
    AppendsEach repairNode [] false repairScope { ctx := {} }
      ((answeredRun (calling "b" (.ok ("t".toList, .empty)))).1 ++
        (repairedRun (calling "b" (.ok ("t".toList, .empty)))).1)
      (repairedRun (calling "b" (.ok ("t".toList, .empty)))).2.2 fun m later =>
        m.AnsweredOnce later ↔ m.HasIds :=
  answeredOnce_iff_of_answerable (traced_repairedRun _ (by decide +kernel)) (by decide +kernel)
    (by decide +kernel)

/-- A self-repair whose call cannot be read: the call has no reply. -/
theorem not_answeredOnce : ¬ ∀ (depth : ℕ) (graph g : AgentGraph) (node : NodeConfig)
    (graphModel : Str) (stream : Bool) (c : Scope) (s s' : Run) (t : List (Event Step.Answer)),
    Program.Traced (Exec.executeLlmNode (nestedAt depth graph) node g graphModel stream c s) t
      (.ok (), s') → ErrorFree t →
    AppendsEach node graphModel stream c s t s' Mark.AnsweredOnce := by
  intro h
  obtain ⟨t₁, t₂, r, s₁, log, ht, h₁, hlog, hlaw⟩ := h 0 repairGraph repairGraph repairNode []
    false repairScope { ctx := {} } _ _
    (traced_repairedRun (calling "b" (.error "bad")) (by decide +kernel))
    (by decide +kernel)
  obtain ⟨hr, rfl⟩ := (traced_answeredRun _).unique h₁ ht
  obtain ⟨-, rfl⟩ := Prod.mk.inj hr
  have hmarks : history 0 (repairedRun (calling "b" (.error "bad"))).1
      (repairedRun (calling "b" (.error "bad"))).2.2 =
        [.calls ["a"], .reply "a", .calls ["b"]] := by decide +kernel
  have hnone : marks (answeredRun (calling "b" (.error "bad"))).2.2.ctx.messages = [] := by
    decide +kernel
  rw [show repairScope.rt.subGraphDepth = 0 from rfl, hmarks, hnone] at hlog
  have hone := hlaw [.calls ["a"], .reply "a"] (.calls ["b"]) [] hlog.symm rfl
    "b" List.mem_cons_self
  exact absurd hone (by decide)

end AgentStudio.Execution

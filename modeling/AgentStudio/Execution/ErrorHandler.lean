import AgentStudio.Execution.ToolTurns

/-!
# Error handlers

An `error_handler` node after a tool node is to execute that node again if its tool has failed, as
often as it takes and at most `max_retries` times (`HandlerLaw`). It finds the node by the label
that the message of the tool carries, and tells from `ctx.error` whether an attempt has failed,
which a tool that answers with an error does not set; without an attempt it raises.
`handlerLaw_iff` is the exact condition under which the law holds.

`Attempts` are the executions of a handler as they are, with what comes of each tool, and
`HandlerRun` is a handler with its attempts (`exists_handlerRun`).
-/

namespace AgentStudio.Execution

open PyText PyJson PyDict AgentStudio.Graph Programs

/-! ### The attempts of a handler -/

/-- An execution of a node by an error handler: its id, what comes of its tool if it is a tool
node, and whether the execution is cut short. -/
structure Attempt where
  target : Str
  outcome : Option Outcome
  cut : Bool
deriving DecidableEq

/-- The tool of the node has answered without an error. -/
def Attempt.succeeded (a : Attempt) : Bool := a.outcome.any Outcome.succeeded

def retryEvent (attempt : ℕ) : AgentEvent :=
  ⟨.think, "Retry attempt " ++ Nat.toDigits 10 (attempt + 1)⟩

/-- What is emitted at the end of an error handler. -/
def completionEvent (attempt : ℕ) : AgentEvent :=
  ⟨.toolResult, "Error handler completed after " ++ Nat.toDigits 10 attempt ++
    " attempt(s)"⟩

def Run.emit (s : Run) (e : AgentEvent) : Run := { s with events := s.events ++ [e] }

def handlerTarget (ctx : AgentContext) : Str :=
  match Exec.failedNodeOf ctx.messages.reverse with
  | none | some [] => ctx.currentNodeId
  | some nodeId => nodeId

/-- The run of a handler before its first attempt. -/
def Run.clearError (s : Run) : Run := { s with ctx := { s.ctx with error := [] } }

section Attempts

variable (nested : Nested) (g : AgentGraph) (c : Scope) (target : Str)

/-- A node is executed again, with what comes of its tool. -/
inductive Again (s : Run) : Option Outcome → Except Stop Unit × Run → Prop
  | tool {node : NodeConfig} {o : Outcome} {r : Except Stop Unit × Run}
      (hnode : g.getNode target = some node) (htype : node.type = .tool)
      (hname : node.toolName ≠ "__sub_graph__") (h : ToolTurn node g c s o r) :
      Again s (some o) r
  | other {r : Except Stop Unit × Run}
      (hother : ∀ node, g.getNode target = some node → node.type = .tool →
        node.toolName = "__sub_graph__")
      (h : (Exec.executeFailed nested g target c s).Returns r) : Again s none r

/-- The attempts of a handler: as many as are left, after some. -/
inductive Attempts : ℕ → ℕ → Run → List Attempt → Except Stop ℕ × Run → Prop
  | none {attempt : ℕ} {s : Run} : Attempts 0 attempt s [] (.ok attempt, s)
  | done {left attempt : ℕ} {s s' : Run} {o : Option Outcome}
      (h : Again nested g c target (s.emit (retryEvent attempt)) o (.ok (), s'))
      (herror : s'.ctx.error = []) :
      Attempts (left + 1) attempt s [⟨target, o, false⟩] (.ok (attempt + 1), s')
  | again {left attempt : ℕ} {s s' : Run} {o : Option Outcome} {as : List Attempt}
      {r : Except Stop ℕ × Run}
      (h : Again nested g c target (s.emit (retryEvent attempt)) o (.ok (), s'))
      (herror : s'.ctx.error ≠ []) (hrest : Attempts left (attempt + 1) s' as r) :
      Attempts (left + 1) attempt s (⟨target, o, false⟩ :: as) r
  | cut {left attempt : ℕ} {s s' : Run} {o : Option Outcome} {stop : Stop}
      (h : Again nested g c target (s.emit (retryEvent attempt)) o (.error stop, s')) :
      Attempts (left + 1) attempt s [⟨target, o, true⟩] (.error stop, s')

end Attempts

inductive HandlerRun (nested : Nested) (handler : NodeConfig) (g : AgentGraph) (c : Scope)
    (s : Run) : List Attempt → Except Stop Unit × Run → Prop
  | raised (h : handler.maxRetries ≤ 0) :
      HandlerRun nested handler g c s [] (.error .raised, s.clearError)
  | cut {as : List Attempt} {stop : Stop} {s' : Run} (h : 0 < handler.maxRetries)
      (hattempts : Attempts nested g { c with hop := .errorHandler } (handlerTarget s.ctx)
        handler.maxRetries.toNat 0 s.clearError as (.error stop, s')) :
      HandlerRun nested handler g c s as (.error stop, s')
  | completed {as : List Attempt} {attempt : ℕ} {s' : Run} (h : 0 < handler.maxRetries)
      (hattempts : Attempts nested g { c with hop := .errorHandler } (handlerTarget s.ctx)
        handler.maxRetries.toNat 0 s.clearError as (.ok attempt, s')) :
      HandlerRun nested handler g c s as (.ok (), s'.emit (completionEvent attempt))

variable {nested : Nested} {g : AgentGraph} {c : Scope} {target : Str}

theorem exists_again {s : Run} {r : Except Stop Unit × Run}
    (h : (Exec.executeFailed nested g target c s).Returns r) :
    ∃ o, Again nested g c target s o r := by
  by_cases htool : ∃ node, g.getNode target = some node ∧ node.type = .tool ∧
      node.toolName ≠ "__sub_graph__"
  · obtain ⟨node, hnode, htype, hname⟩ := htool
    rw [Exec.executeFailed, hnode] at h
    dsimp only at h
    rw [htype] at h
    obtain ⟨o, hturn⟩ := ToolTurn.of_returns hname h
    exact ⟨some o, .tool hnode htype hname hturn⟩
  · refine ⟨none, .other (fun node hnode htype => ?_) h⟩
    by_contra hname
    exact htool ⟨node, hnode, htype, hname⟩

variable {r : Except Stop ℕ × Run} {attempt left : ℕ} {as : List Attempt}

theorem exists_attempts {s : Run}
    (h : (Exec.retryAttempts nested g target left attempt c s).Returns r) :
    ∃ as, Attempts nested g c target left attempt s as r := by
  induction left generalizing attempt s with
  | zero =>
    obtain rfl := Program.returns_ret.mp h
    exact ⟨[], .none⟩
  | succ left ih =>
    rw [Exec.retryAttempts, bind_apply, Program.returns_bind] at h
    obtain ⟨r₁, hemit, h⟩ := h
    rw [Exec.returns_emit.mp hemit, Exec.yieldEnd, if_neg (by simp)] at h
    change ((Exec.executeFailed nested g target >>= _ : Exec ℕ) c
      (s.emit (retryEvent attempt))).Returns r at h
    rw [bind_apply, Program.returns_bind] at h
    obtain ⟨⟨stop | _, s'⟩, hexec, h⟩ := h
    · obtain rfl := Program.returns_ret.mp h
      obtain ⟨o, hagain⟩ := exists_again hexec
      exact ⟨_, .cut hagain⟩
    · obtain ⟨o, hagain⟩ := exists_again hexec
      change ((if _ then _ else _ : Exec ℕ) c s').Returns r at h
      split_ifs at h with herror
      · obtain rfl := Program.returns_ret.mp h
        exact ⟨_, .done hagain herror⟩
      · obtain ⟨as, has⟩ := ih h
        exact ⟨_, .again hagain herror has⟩

theorem exists_handlerRun {handler : NodeConfig} {s : Run} {r : Except Stop Unit × Run}
    (h : (Exec.executeErrorHandlerNode nested handler g c s).Returns r) :
    ∃ as, HandlerRun nested handler g c s as r := by
  change ((if handler.maxRetries ≤ 0 then _ else _ : Exec Unit) c s.clearError).Returns r at h
  split_ifs at h with hretries
  · obtain rfl := Program.returns_ret.mp h
    exact ⟨[], .raised hretries⟩
  · rw [bind_apply, Program.returns_bind] at h
    obtain ⟨⟨stop | attempt, s'⟩, hattempts, h⟩ := h
    · obtain rfl := Program.returns_ret.mp h
      obtain ⟨as, has⟩ := exists_attempts hattempts
      exact ⟨as, .cut (not_le.mp hretries) has⟩
    · obtain ⟨as, has⟩ := exists_attempts hattempts
      rw [Exec.returns_emit.mp h, Exec.yieldEnd, if_neg (by simp)]
      exact ⟨as, .completed (not_le.mp hretries) has⟩

/-! ### The dynamics of the error -/

theorem Attempts.target_eq {s : Run} (h : Attempts nested g c target left attempt s as r) :
    ∀ a ∈ as, a.target = target := by
  induction h with
  | none => simp
  | done => simp
  | again h herror hrest ih => simpa using ih
  | cut => simp

theorem Attempts.ne_nil {s : Run} (h : Attempts nested g c target left attempt s as r)
    (hleft : 0 < left) : as ≠ [] := by
  cases h with
  | none => exact absurd hleft (lt_irrefl 0)
  | _ => exact List.cons_ne_nil _ _

theorem Attempts.uncut_iff {s : Run} (h : Attempts nested g c target left attempt s as r) :
    (∀ a ∈ as, a.cut = false) ↔ r.1 = .ok (attempt + as.length) := by
  induction h with
  | none => simp
  | done => simp
  | again h herror hrest ih =>
    simp only [List.forall_mem_cons, true_and, ih, List.length_cons]
    rw [Nat.add_right_comm, Nat.add_assoc]
  | cut => simp

theorem Attempts.eq_of_ok {n : ℕ} {s s' : Run}
    (h : Attempts nested g c target left attempt s as (.ok n, s')) : n = attempt + as.length := by
  generalize hr : (Except.ok n, s') = r at h
  induction h with
  | none | done => exact Except.ok.inj (congrArg Prod.fst hr)
  | again h herror hrest ih =>
    rw [ih hr, List.length_cons]
    omega
  | cut => exact absurd (congrArg Prod.fst hr) (by simp)

variable {node : NodeConfig}

theorem Again.error (hnode : g.getNode target = some node) (htype : node.type = .tool)
    (hname : node.toolName ≠ "__sub_graph__") (hstop : g.stopOnToolError = false)
    {s s' : Run} {o : Option Outcome} (h : Again nested g c target s o (.ok (), s')) :
    (o = some .refused ∧ s'.ctx.error ≠ []) ∨
      (∃ result, o = some (.answered result)) ∧ s'.ctx.error = s.ctx.error := by
  cases h with
  | other hother => exact absurd (hother node hnode htype) hname
  | tool hnode' htype' hname' h =>
    rename_i o
    cases o with
    | refused => exact .inl ⟨rfl, h.error_ne_nil rfl⟩
    | answered result =>
      refine .inr ⟨⟨result, rfl⟩, ?_⟩
      have herror := h.leaves.2
      rwa [if_neg (by simp [hstop])] at herror

theorem Attempts.length_eq (hnode : g.getNode target = some node) (htype : node.type = .tool)
    (hname : node.toolName ≠ "__sub_graph__") (hstop : g.stopOnToolError = false) {s : Run}
    (h : Attempts nested g c target left attempt s as r) (hs : s.ctx.error ≠ [])
    (huncut : ∀ a ∈ as, a.cut = false) : as.length = left := by
  induction h with
  | none => rfl
  | done h herror =>
    obtain ⟨-, hne⟩ | ⟨-, heq⟩ := h.error hnode htype hname hstop
    · exact absurd herror hne
    · exact absurd (heq.symm.trans herror) hs
  | again h herror hrest ih =>
    rw [List.length_cons, ih herror fun a ha => huncut a (List.mem_cons_of_mem _ ha)]
  | cut => exact absurd (huncut _ List.mem_cons_self) (by simp)

/-! ### The law -/

/-- What an error handler is to do after a tool node: it executes this node and no other, if its
tool has failed, until it succeeds and at most as often as it may, and it completes. -/
structure HandlerLaw (nodeId : Str) (maxRetries : ℤ) (failed : Bool) (as : List Attempt)
    (r : Except Stop Unit × Run) : Prop where
  target : ∀ a ∈ as, a.target = nodeId
  count : as.length =
    if failed then min (as.findIdx Attempt.succeeded + 1) maxRetries.toNat else 0
  completed : r.1 = .ok () ∧ r.2.events.getLast? = some (completionEvent as.length)

/-- The end of an attempt tells whether the tool has failed, as far as it matters: there is only
one attempt, or the first one succeeds, or the first one is refused and none succeeds before the
last one. -/
def Heeded (maxRetries : ℤ) (as : List Attempt) : Prop :=
  maxRetries = 1 ∨ as.head?.any Attempt.succeeded = true ∨
    as.head?.map Attempt.outcome = some (some .refused) ∧
      ∀ a ∈ as.take (maxRetries.toNat - 1), a.succeeded = false

/-- When an error handler does what it is to do after the turn of a tool node: the tool has failed,
there is an attempt, the message of the tool is still there and names the node, no attempt is cut
short, and the ends of the attempts are heeded. -/
structure HandlerCondition (node : NodeConfig) (nodeId : Str) (maxRetries : ℤ) (result : Str)
    (messages : List Message) (as : List Attempt) : Prop where
  failed : Exec.isToolError result = true
  retries : 1 ≤ maxRetries
  kept : messages.getLast?.map Message.role = some .tool
  named : Runtime.orText node.label node.toolName = nodeId
  uncut : ∀ a ∈ as, a.cut = false
  heeded : Heeded maxRetries as

private theorem forall_take_iff {n : ℕ} (hn : n ≤ as.length) :
    (∀ a ∈ as.take n, a.succeeded = false) ↔ n ≤ as.findIdx Attempt.succeeded := by
  induction as generalizing n with
  | nil => simpa using hn
  | cons a as ih =>
    cases n with
    | zero => simp
    | succ n =>
      rw [List.take_succ_cons, List.forall_mem_cons, List.findIdx_cons]
      have hrest := ih (Nat.le_of_succ_le_succ hn)
      cases ha : a.succeeded with
      | true => simp
      | false => simpa using hrest

theorem Attempts.count_iff (hnode : g.getNode target = some node) (htype : node.type = .tool)
    (hname : node.toolName ≠ "__sub_graph__") (hstop : g.stopOnToolError = false)
    {maxRetries : ℤ} (hretries : 1 ≤ maxRetries) {s : Run}
    (h : Attempts nested g c target maxRetries.toNat attempt s as r) (hs : s.ctx.error = [])
    (huncut : ∀ a ∈ as, a.cut = false) :
    as.length = min (as.findIdx Attempt.succeeded + 1) maxRetries.toNat ↔
      Heeded maxRetries as := by
  obtain ⟨left, hleft⟩ : ∃ left, maxRetries.toNat = left + 1 := ⟨maxRetries.toNat - 1, by omega⟩
  rw [Heeded, hleft, Nat.add_sub_cancel]
  rw [hleft] at h
  cases h with
  | cut => exact absurd (huncut _ List.mem_cons_self) (by simp)
  | done h herror =>
    obtain ⟨-, hne⟩ | ⟨⟨result, rfl⟩, -⟩ := h.error hnode htype hname hstop
    · exact absurd herror hne
    · set a : Attempt := ⟨target, some (.answered result), false⟩ with ha
      have hanswered : a.outcome ≠ some .refused := by simp [ha]
      cases hsucceeded : a.succeeded with
      | true => simp [List.findIdx_cons, hsucceeded]
      | false =>
        simp only [List.length_singleton, List.findIdx_cons, hsucceeded, List.findIdx_nil,
          cond_false, List.head?_cons, Option.any_some, Option.map_some, Option.some.injEq,
          hanswered, Bool.false_eq_true, false_and, or_false]
        omega
  | again h herror hrest =>
    obtain ⟨rfl, -⟩ | ⟨-, heq⟩ := h.error hnode htype hname hstop
    · rename_i as
      have hlength : as.length = left := hrest.length_eq hnode htype hname hstop herror fun a ha =>
        huncut a (List.mem_cons_of_mem _ ha)
      set a : Attempt := ⟨target, some .refused, false⟩
      have houtcome : a.outcome = some .refused := rfl
      have hsucceeded : a.succeeded = false := rfl
      have hfind : (a :: as).findIdx Attempt.succeeded = as.findIdx Attempt.succeeded + 1 := by
        rw [List.findIdx_cons, hsucceeded, cond_false]
      clear_value a
      rw [forall_take_iff (by simp [hlength]), hfind]
      simp only [List.length_cons, hlength, List.head?_cons, Option.any_some, hsucceeded,
        Option.map_some, houtcome, Bool.false_eq_true, false_or, true_and]
      omega
    · exact absurd (heq.trans hs) herror

/-! ### The node that has failed -/

private theorem trim_concat (cap : ℕ) (messages : List Message) {m : Message}
    (hm : m.role ≠ .system) :
    (∃ ms, (trim cap (messages ++ [m])).1 = ms ++ [m]) ∨
      ∀ m' ∈ (trim cap (messages ++ [m])).1, m'.role = .system := by
  have hothers : (messages ++ [m]).filter (·.role ≠ .system) =
      messages.filter (·.role ≠ .system) ++ [m] := by simp [hm]
  rw [trim]
  split_ifs
  · rw [hothers]
    generalize messages.filter (·.role ≠ .system) = others
    generalize (others ++ [m]).length - _ = overflow
    rcases Nat.lt_or_ge others.length overflow with h | h
    · right
      rw [List.drop_of_length_le (by simpa [Nat.succ_le_iff] using h), List.append_nil]
      intro m' hm'
      simpa using (List.mem_filter.mp hm').2
    · left
      rw [List.drop_append_of_le_length h, ← List.append_assoc]
      exact ⟨_, rfl⟩
  · exact .inl ⟨messages, rfl⟩

private theorem failedNodeOf_system {messages : List Message}
    (h : ∀ m ∈ messages, m.role = .system) : Exec.failedNodeOf messages = none := by
  induction messages with
  | nil => rfl
  | cons m ms ih =>
    rw [Exec.failedNodeOf, h m List.mem_cons_self]
    exact ih fun m' hm' => h m' (List.mem_cons_of_mem _ hm')

private theorem failedNodeOf_tool {m : Message} {toolName : Str} (hrole : m.role = .tool)
    (hcall : m.toolCallId = "tool_" ++ toolName) (messages : List Message) :
    Exec.failedNodeOf (m :: messages) = some (Runtime.orText m.nodeId toolName) := by
  have hprefixed : "tool_".toList.isPrefixOf m.toolCallId = true := by
    rw [hcall]
    exact List.isPrefixOf_iff_prefix.mpr (List.prefix_append _ _)
  have hdrop : m.toolCallId.drop 5 = toolName := by
    rw [hcall]
    exact List.drop_left' rfl
  rw [Exec.failedNodeOf, hrole]
  dsimp only
  rw [hprefixed, hdrop, Runtime.orText, if_pos rfl, ite_not]
  split_ifs <;> rfl

theorem handlerTarget_eq_iff {nodeId : Str} (hid : nodeId ≠ []) {ctx : AgentContext}
    (hcurrent : ctx.currentNodeId ≠ nodeId) {cap : ℕ} {result : Str} {messages : List Message}
    (hmessages : ctx.messages = Exec.noted cap node result messages) :
    handlerTarget ctx = nodeId ↔ ctx.messages.getLast?.map Message.role = some .tool ∧
      Runtime.orText node.label node.toolName = nodeId := by
  obtain ⟨ms, hkept⟩ | hsystem := trim_concat cap messages (m := Exec.toolMessage node result)
    (by simp [Exec.toolMessage])
  · have hlast : ctx.messages = ms ++ [{ Exec.toolMessage node result with
        nodeId := node.label }] := by
      rw [hmessages, Exec.noted, hkept, List.dropLast_concat, List.getLast?_concat]
      rfl
    have hfailed : Exec.failedNodeOf ctx.messages.reverse =
        some (Runtime.orText node.label node.toolName) := by
      rw [hlast, List.reverse_concat]
      exact failedNodeOf_tool rfl rfl _
    have hrole : ctx.messages.getLast?.map Message.role = some .tool := by
      rw [hlast, List.getLast?_concat]
      rfl
    rw [handlerTarget, hfailed, and_iff_right hrole]
    cases hname : Runtime.orText node.label node.toolName with
    | nil => exact iff_of_false hcurrent (Ne.symm hid)
    | cons => exact Iff.rfl
  · have hroles : ∀ m ∈ ctx.messages, m.role = .system := by
      rw [hmessages, Exec.noted]
      intro m hm
      rcases List.mem_append.mp hm with hm | hm
      · exact hsystem m (List.dropLast_subset _ hm)
      · obtain ⟨m', hm', rfl⟩ := Option.map_eq_some_iff.mp (Option.mem_toList.mp hm)
        exact hsystem m' (List.mem_of_getLast? hm')
    have hfailed : Exec.failedNodeOf ctx.messages.reverse = none :=
      failedNodeOf_system fun m hm => hroles m (List.mem_reverse.mp hm)
    rw [handlerTarget, hfailed]
    refine iff_of_false hcurrent fun h => ?_
    obtain ⟨m, hm, hrole⟩ := Option.map_eq_some_iff.mp h.1
    exact absurd (hroles m (List.mem_of_getLast? hm)) (by simp [hrole])

/-! ### The exact condition -/

/-- The scope in which the dispatch loop consumes the events of an executor. -/
def Scope.consuming (c : Scope) : Scope := { c with errorStops := some (c.errorStops.getD 0) }

/-- A handler is dispatched after the turn of a tool node whose tool has answered: the messages
are those that the turn has left. -/
structure ReachedAfter (g : AgentGraph) (c : Scope) (nodeId : Str) (node handler : NodeConfig)
    (result : Str) (s : Run) : Prop where
  nodeId_ne_nil : nodeId ≠ []
  getNode : g.getNode nodeId = some node
  type : node.type = .tool
  toolName : node.toolName ≠ "__sub_graph__"
  turn : ∃ s₀ s₁, ToolTurn node g c.consuming s₀ (.answered result) (.ok (), s₁) ∧
    s.ctx.messages = s₁.ctx.messages
  current : g.getNode s.ctx.currentNodeId = some handler
  handler : handler.type = .errorHandler

namespace ReachedAfter

variable {nodeId result : Str} {handler : NodeConfig} {s : Run}

theorem currentNodeId_ne (h : ReachedAfter g c nodeId node handler result s) :
    s.ctx.currentNodeId ≠ nodeId := by
  intro heq
  have hsame : handler = node := Option.some.inj (h.current.symm.trans (heq ▸ h.getNode))
  have htype := h.handler
  rw [hsame, h.type] at htype
  exact absurd htype (by simp)

theorem stopOnToolError (h : ReachedAfter g c nodeId node handler result s)
    (hfailed : Exec.isToolError result = true) : g.stopOnToolError = false := by
  obtain ⟨s₀, s₁, hturn, -⟩ := h.turn
  have hleaves := hturn.leaves.2
  by_contra hstop
  rw [if_pos ⟨hfailed, by simpa using hstop⟩] at hleaves
  exact hleaves (by simp [Scope.consuming]) rfl

theorem target_eq_iff (h : ReachedAfter g c nodeId node handler result s) :
    handlerTarget s.ctx = nodeId ↔ s.ctx.messages.getLast?.map Message.role = some .tool ∧
      Runtime.orText node.label node.toolName = nodeId := by
  obtain ⟨s₀, s₁, hturn, hmessages⟩ := h.turn
  exact handlerTarget_eq_iff h.nodeId_ne_nil h.currentNodeId_ne
    (hmessages.trans hturn.leaves.1)

end ReachedAfter

/-- **Error handlers.** After the turn of a tool node, every run of an error handler has its
attempts, and the handler does what it is to do if and only if the tool has failed, there is an
attempt, the message of the tool is kept and names the node, no attempt is cut short, and the ends
of the attempts are heeded. -/
theorem handlerLaw_iff {nodeId result : Str} {handler : NodeConfig} {s : Run}
    {r : Except Stop Unit × Run} (h : ReachedAfter g c nodeId node handler result s)
    (hr : (Exec.executeErrorHandlerNode nested handler g c s).Returns r) :
    (∃ as, HandlerRun nested handler g c s as r) ∧ ∀ as, HandlerRun nested handler g c s as r →
      (HandlerLaw nodeId handler.maxRetries (Exec.isToolError result) as r ↔
        HandlerCondition node nodeId handler.maxRetries result s.ctx.messages as) := by
  refine ⟨exists_handlerRun hr, fun as hrun => ?_⟩
  cases hrun with
  | raised hretries =>
    refine iff_of_false (fun hlaw => ?_) fun hcond => ?_
    · exact absurd hlaw.completed.1 (by simp)
    · have := hcond.retries
      omega
  | cut hretries hattempts =>
    refine iff_of_false (fun hlaw => ?_) fun hcond => ?_
    · exact absurd hlaw.completed.1 (by simp)
    · exact absurd (hattempts.uncut_iff.mp hcond.uncut) (by simp)
  | completed hretries hattempts =>
    rename_i attempt s'
    have hlength : attempt = as.length := by
      rw [hattempts.eq_of_ok, Nat.zero_add]
    have huncut : ∀ a ∈ as, a.cut = false := by
      rw [hattempts.uncut_iff, hlength, Nat.zero_add]
    obtain ⟨a, ha⟩ := List.exists_mem_of_ne_nil _ (hattempts.ne_nil (by omega))
    have htarget : (∀ a ∈ as, a.target = nodeId) ↔ handlerTarget s.ctx = nodeId :=
      ⟨fun hall => (hattempts.target_eq a ha).symm.trans (hall a ha), fun heq a ha =>
        (hattempts.target_eq a ha).trans heq⟩
    have hcount (hfailed : Exec.isToolError result = true) (heq : handlerTarget s.ctx = nodeId) :
        as.length = min (as.findIdx Attempt.succeeded + 1) handler.maxRetries.toNat ↔
          Heeded handler.maxRetries as :=
      hattempts.count_iff (heq ▸ h.getNode) h.type h.toolName (h.stopOnToolError hfailed) hretries
        rfl huncut
    constructor
    · intro hlaw
      have hfailed : Exec.isToolError result = true := by
        by_contra hne
        have hzero := hlaw.count
        rw [if_neg hne, List.length_eq_zero_iff] at hzero
        exact absurd ha (by simp [hzero])
      have heq := htarget.mp hlaw.target
      obtain ⟨hkept, hnamed⟩ := h.target_eq_iff.mp heq
      have hlawCount := hlaw.count
      rw [if_pos hfailed] at hlawCount
      exact ⟨hfailed, hretries, hkept, hnamed, huncut, (hcount hfailed heq).mp hlawCount⟩
    · intro hcond
      have heq := h.target_eq_iff.mpr ⟨hcond.kept, hcond.named⟩
      refine ⟨htarget.mpr heq, ?_, rfl, ?_⟩
      · rw [if_pos hcond.failed]
        exact (hcount hcond.failed heq).mpr hcond.heeded
      · simp [Run.emit, hlength]

/-! ### A label that is not the id -/

/-- The answers of an environment in which every call of a tool fails. -/
def failing : (q : Step) → q.Answer
  | ⟨_, _, .execute _ _ _⟩ => .failed "timeout"
  | q => q.call.oblige {}

/-- A node that calls the tool `fetch`. -/
def fetchNode (label : Str) : NodeConfig where
  type := .tool
  label
  toolName := "fetch"

def handlerNode (maxRetries : ℤ) : NodeConfig where
  type := .errorHandler
  maxRetries

/-- A graph with an error handler after the node `t`. -/
def fetchGraph (label : Str) (maxRetries : ℤ) : AgentGraph where
  id := "g"
  nodes := [("s", { type := .start }), ("t", fetchNode label),
    ("h", handlerNode maxRetries), ("e", { type := .end_ })]
  edges := [{ sourceId := "s", targetId := "t" },
    { sourceId := "t", targetId := "h" },
    { sourceId := "h", targetId := "e" }]
  startNodeId := "s"
  nodup := by
    change List.Nodup ["s".toList, "t".toList, "h".toList, "e".toList]
    decide

/-- The scope of a run that nobody else runs. -/
def plainScope : Scope where
  rt := { process := plainProcess }

/-- The run after the call of the node `t`, and after its turn. -/
def fetching (label : Str) : Run :=
  ((Exec.answerToolNode (fetchNode label) plainScope.consuming { ctx := {} }).run
    (fun q _ => (failing q, ())) ()).2.2

/-- The run after the turn of the node `t`. -/
def fetched (label : Str) (maxRetries : ℤ) : Run :=
  ((Exec.followToolNode (fetchNode label) (fetchGraph label maxRetries)
    (.failed "timeout") plainScope.consuming (fetching label)).run
    (fun q _ => (failing q, ())) ()).2.2

theorem reachedAfter_fetched (label : Str) (maxRetries : ℤ) :
    ReachedAfter (fetchGraph label maxRetries) plainScope "t" (fetchNode label)
      (handlerNode maxRetries) "Error: timeout" ((fetched label maxRetries).visit "h")
    where
  nodeId_ne_nil := by decide
  getNode := rfl
  type := rfl
  toolName := by
    change "fetch".toList ≠ "__sub_graph__".toList
    decide
  turn := by
    have hcall := Program.returns_run (fun q _ => (failing q, ()))
      (Exec.answerToolNode (fetchNode label) plainScope.consuming { ctx := {} }) ()
    have hfollow := Program.returns_run (fun q _ => (failing q, ()))
      (Exec.followToolNode (fetchNode label) (fetchGraph label maxRetries)
        (.failed "timeout") plainScope.consuming (fetching label)) ()
    exact ⟨{ ctx := {} }, fetched label maxRetries, .answered hcall hfollow, rfl⟩
  current := rfl
  handler := rfl

/-- A handler after the node `t`, in this environment. -/
def handled (label : Str) (maxRetries : ℤ) : Except Stop Unit × Run :=
  ((Exec.executeErrorHandlerNode (branchesOnly 0) (handlerNode maxRetries)
    (fetchGraph label maxRetries) plainScope ((fetched label maxRetries).visit "h")).run
    (fun q _ => (failing q, ())) ()).2

/-- If the label of the node is its id, the one attempt that a handler may make is right. -/
theorem handlerLaw_labelled :
    (∃ as, HandlerRun (branchesOnly 0) (handlerNode 1) (fetchGraph "t".toList 1) plainScope
      ((fetched "t".toList 1).visit "h".toList) as (handled "t".toList 1)) ∧
    ∀ as, HandlerRun (branchesOnly 0) (handlerNode 1) (fetchGraph "t".toList 1) plainScope
        ((fetched "t".toList 1).visit "h".toList) as (handled "t".toList 1) →
      (HandlerLaw "t".toList 1 (Exec.isToolError "Error: timeout".toList) as
          (handled "t".toList 1) ↔
        HandlerCondition (fetchNode "t".toList) "t".toList 1 "Error: timeout".toList
          ((fetched "t".toList 1).visit "h".toList).ctx.messages as) :=
  handlerLaw_iff (reachedAfter_fetched "t" 1) (Program.returns_run _ _ _)

/-- The handler looks for a node with the id `Fetch`, which is the label of the node `t`. -/
theorem not_handlerLaw : ¬ ∀ (nested : Nested) (g : AgentGraph) (c : Scope) (nodeId : Str)
    (node handler : NodeConfig) (result : Str) (s : Run) (as : List Attempt)
    (r : Except Stop Unit × Run), ReachedAfter g c nodeId node handler result s →
    0 ≤ handler.maxRetries → HandlerRun nested handler g c s as r →
    HandlerLaw nodeId handler.maxRetries (Exec.isToolError result) as r := by
  intro h
  have htarget : handlerTarget ((fetched "Fetch" 2).visit "h").ctx =
      "Fetch" := by decide +kernel
  have hlost : (fetchGraph "Fetch" 2).getNode "Fetch" = none := rfl
  have hagain (s : Run) : Again (branchesOnly 0) (fetchGraph "Fetch" 2)
      { plainScope with hop := .errorHandler } "Fetch" s none (.ok (), s) := by
    refine .other (fun node hnode => absurd (hlost.symm.trans hnode) (by simp)) ?_
    rw [Exec.executeFailed, hlost]
    exact Program.returns_ret.mpr rfl
  have hattempts : Attempts (branchesOnly 0) (fetchGraph "Fetch" 2)
      { plainScope with hop := .errorHandler }
      (handlerTarget ((fetched "Fetch" 2).visit "h").ctx)
      (handlerNode 2).maxRetries.toNat 0 ((fetched "Fetch" 2).visit "h").clearError
      [⟨"Fetch", none, false⟩]
      (.ok 1, ((fetched "Fetch" 2).visit "h").clearError.emit (retryEvent 0)) := by
    rw [htarget]
    exact .done (hagain _) rfl
  have hrun := HandlerRun.completed (by decide) hattempts
  have hlaw := h _ _ _ _ _ _ _ _ _ _ (reachedAfter_fetched "Fetch" 2) (by decide) hrun
  exact absurd (hlaw.target _ List.mem_cons_self) (by decide)

end AgentStudio.Execution

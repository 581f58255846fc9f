import AgentStudio.Graph.Basic
import AgentStudio.Runtime.Policy
import Mathlib.Algebra.BigOperators.Group.List.Basic

/-!
# The context of an execution

`AgentContext` of `agent_runtime/context.py`, as far as the execution of a graph reads and writes
it: the messages with the usage that LLM answers report, the error, the counters, the flag
`plan_mode` and the variables of `agent_runtime/variable_manager.py`.

`tokenUsage` adds up the usage of all messages. `withMessage` is `add_message`: a message that
goes beyond the cap on messages pushes the oldest ones out (`trim`), and what is pushed out no
longer counts (`spent_trim`). The cut can go through an exchange of a call and its replies;
`keepsDialogue_messagesAfter` says when it does not.
-/

namespace AgentStudio.Execution

open PyText PyJson PyDict AgentStudio.Graph

/-! ### Usage -/

/-- What an LLM call reports to have used. -/
structure Usage where
  promptTokens : ℤ := 0
  completionTokens : ℤ := 0
  reasoningTokens : ℤ := 0
deriving DecidableEq

namespace Usage

/-- What a call counts against a budget. -/
def total (u : Usage) : ℤ := u.promptTokens + u.completionTokens

def add (u v : Usage) : Usage :=
  ⟨u.promptTokens + v.promptTokens, u.completionTokens + v.completionTokens,
    u.reasoningTokens + v.reasoningTokens⟩

@[simp] theorem total_add (u v : Usage) : (u.add v).total = u.total + v.total := by
  simp only [total, add]
  ring

@[simp] theorem total_zero : ({} : Usage).total = 0 := rfl

end Usage

/-- What an answer that may report nothing counts against a budget. -/
def totalOf (usage : Option Usage) : ℤ := (usage.map Usage.total).getD 0

@[simp] theorem totalOf_none : totalOf none = 0 := rfl

@[simp] theorem totalOf_some (u : Usage) : totalOf (some u) = u.total := rfl

/-! ### Messages -/

/-- A tool call of an LLM answer: its id, and its name and arguments, or the text of the error
that reading them raises. The arguments are incomplete if their text is there and is no JSON. -/
structure ToolCall where
  id : Str := []
  call : Except Str (Str × Dict)
  incomplete : Bool := false

/-- `role`. -/
inductive Role where
  | user
  | assistant
  | system
  | tool
deriving DecidableEq

/-- A message; `nodeId` is its annotation `_node_id`. -/
structure Message where
  role : Role
  content : Str
  toolCalls : List ToolCall := []
  toolCallId : Str := []
  usage : Option Usage := none
  nodeId : Str := []

/-- What the messages count against a budget. -/
def spent (messages : List Message) : ℤ := (messages.map fun m => totalOf m.usage).sum

@[simp] theorem spent_nil : spent [] = 0 := rfl

@[simp] theorem spent_singleton (m : Message) : spent [m] = totalOf m.usage := by simp [spent]

@[simp]
theorem spent_append (ms ms' : List Message) : spent (ms ++ ms') = spent ms + spent ms' := by
  simp [spent]

theorem spent_modifyLast (f : Message → Message) (ms : List Message) :
    spent (ms.dropLast ++ (ms.getLast?.map f).toList) =
      spent ms + (ms.getLast?.map fun m => totalOf (f m).usage - totalOf m.usage).getD 0 := by
  rcases List.eq_nil_or_concat ms with rfl | ⟨ms, m, rfl⟩
  · rfl
  · simp

/-- The messages that are kept and the ones that are dropped under a cap; no cap is `0`. -/
def trim (cap : ℕ) (messages : List Message) : List Message × List Message :=
  let kept := messages.filter (·.role = .system)
  let others := messages.filter (·.role ≠ .system)
  let overflow := others.length - (cap - kept.length)
  if 0 < cap ∧ cap < messages.length ∧ 0 < overflow then
    (kept ++ others.drop overflow, others.take overflow)
  else (messages, [])

private theorem spent_filter (p : Message → Bool) (messages : List Message) :
    spent (messages.filter p) + spent (messages.filter fun m => !p m) = spent messages := by
  induction messages with
  | nil => rfl
  | cons m ms ih =>
    simp only [spent] at ih ⊢
    rw [List.map_cons, List.sum_cons, ← ih]
    cases hp : p m
    · simp [hp]
      ring
    · simp [hp]
      ring

theorem spent_trim (cap : ℕ) (messages : List Message) :
    spent (trim cap messages).1 + spent (trim cap messages).2 = spent messages := by
  rw [trim]
  split_ifs
  · have hsplit := spent_filter (fun m => decide (m.role = .system)) messages
    have hothers : (messages.filter fun m => !decide (m.role = .system)) =
        messages.filter (·.role ≠ .system) := by simp
    rw [hothers] at hsplit
    rw [← hsplit, spent_append, add_assoc, add_comm (spent (List.drop _ _)), ← spent_append,
      List.take_append_drop]
  · exact add_zero _

/-! ### Calls and their replies -/

/-- The messages of a context after a sequence of calls of `add_message`. -/
def messagesAfter (cap : ℕ) (added : List Message) : List Message :=
  added.foldl (fun messages m => (trim cap (messages ++ [m])).1) []

theorem messagesAfter_concat (cap : ℕ) (added : List Message) (m : Message) :
    messagesAfter cap (added ++ [m]) = (trim cap (messagesAfter cap added ++ [m])).1 := by
  rw [messagesAfter, List.foldl_append]
  rfl

/-- The messages that survive a cut and are no system messages. -/
def survivors (cap : ℕ) (messages : List Message) : List Message :=
  let others := messages.filter (·.role ≠ .system)
  others.drop (others.length - (cap - (messages.filter (·.role = .system)).length))

theorem trim_eq_or (cap : ℕ) (messages : List Message) :
    (trim cap messages).1 = messages ∨ 0 < cap ∧ cap < messages.length ∧
      (trim cap messages).1 = messages.filter (·.role = .system) ++ survivors cap messages := by
  rw [trim]
  split_ifs with h
  · exact .inr ⟨h.1, h.2.1, rfl⟩
  · exact .inl rfl

theorem role_of_mem_survivors {cap : ℕ} {messages : List Message} {m : Message}
    (h : m ∈ survivors cap messages) : m.role ≠ .system := by
  simpa using (List.mem_filter.mp (List.mem_of_mem_drop h)).2

/-- A tool message answers a call of an assistant message. -/
def Message.Calls (a t : Message) : Prop :=
  a.role = .assistant ∧ t.toolCallId ∈ a.toolCalls.map ToolCall.id

/-- Every tool message stands with the assistant message whose call it answers. -/
def Paired (messages : List Message) : Prop :=
  ∀ t ∈ messages, t.role = .tool → ∃ a ∈ messages, a.Calls t

/-- Every tool message answers a call of an assistant message that was added before it. -/
def IsDialogue (added : List Message) : Prop :=
  ∀ i t, added[i]? = some t → t.role = .tool → ∃ a ∈ added.take i, a.Calls t

/-- What a context keeps of the messages that were added: the newest last, in their order, and no
reply without its call. -/
structure KeepsDialogue (added kept : List Message) : Prop where
  last : kept.getLast? = added.getLast?
  order : kept.Sublist added
  paired : Paired kept

/-- A cut that goes through the messages between two exchanges: no system message stands behind a
message that survives, the newest message survives, and so do the calls of the replies that do. -/
structure CutsClean (cap : ℕ) (messages : List Message) : Prop where
  behind : survivors cap messages <:+ messages
  newest : survivors cap messages = [] → ∀ m ∈ messages.getLast?, m.role = .system
  paired : Paired (survivors cap messages)

/-- A call of `add_message` that does no harm: the call that a reply answers has not been cut, and
if the message is one too many for the cap, the cut is clean. -/
structure AddsSafely (cap : ℕ) (messages : List Message) (m : Message) : Prop where
  called : m.role = .tool → ∃ a ∈ messages, a.Calls m
  cut : 0 < cap → cap < messages.length + 1 → CutsClean cap (messages ++ [m])

theorem CutsClean.keeps {cap : ℕ} {messages : List Message} {m : Message}
    (h : CutsClean cap (messages ++ [m])) :
    KeepsDialogue (messages ++ [m])
      ((messages ++ [m]).filter (·.role = .system) ++ survivors cap (messages ++ [m])) := by
  obtain ⟨before, hbefore⟩ := h.behind
  have hnone : (survivors cap (messages ++ [m])).filter (·.role = .system) = [] :=
    List.filter_eq_nil_iff.mpr fun x hx => by simpa using role_of_mem_survivors hx
  refine ⟨?_, ?_, ?_⟩
  · by_cases hnil : survivors cap (messages ++ [m]) = []
    · have hm : m.role = .system := h.newest hnil m (by simp)
      simp [hnil, hm]
    · rw [List.getLast?_append_of_ne_nil _ hnil]
      conv_rhs => rw [← hbefore]
      exact (List.getLast?_append_of_ne_nil _ hnil).symm
  · have hsystem : (messages ++ [m]).filter (·.role = .system) =
        before.filter (·.role = .system) := by
      rw [← hbefore, List.filter_append, hnone, List.append_nil]
    rw [hsystem]
    conv_rhs => rw [← hbefore]
    exact List.filter_sublist.append (List.Sublist.refl _)
  · intro t ht htool
    rcases List.mem_append.mp ht with ht | ht
    · have hsystem := (List.mem_filter.mp ht).2
      rw [htool] at hsystem
      exact absurd hsystem (by decide)
    · obtain ⟨a, ha, hcalls⟩ := h.paired t ht htool
      exact ⟨a, List.mem_append_right _ ha, hcalls⟩

theorem KeepsDialogue.add {cap : ℕ} {added kept : List Message} {m : Message}
    (h : KeepsDialogue added kept) (hm : AddsSafely cap kept m) :
    KeepsDialogue (added ++ [m]) (trim cap (kept ++ [m])).1 := by
  have horder : (kept ++ [m]).Sublist (added ++ [m]) := h.order.append (List.Sublist.refl _)
  rcases trim_eq_or cap (kept ++ [m]) with hall | ⟨hcap, hlong, hcut⟩
  · rw [hall]
    refine ⟨by simp, horder, fun t ht htool => ?_⟩
    have hcall : ∃ a ∈ kept, a.Calls t := by
      rcases List.mem_append.mp ht with ht | ht
      · exact h.paired t ht htool
      · obtain rfl := List.mem_singleton.mp ht
        exact hm.called htool
    obtain ⟨a, ha, hcalls⟩ := hcall
    exact ⟨a, List.mem_append_left _ ha, hcalls⟩
  · rw [hcut]
    have hkeeps := (hm.cut hcap (by simpa using hlong)).keeps
    exact ⟨by rw [hkeeps.last]; simp, hkeeps.order.trans horder, hkeeps.paired⟩

def questioned : List Message :=
  [{ role := .user, content := "q" }, { role := .assistant, content := "a" }]

def twoCalls : List Message :=
  [{ role := .assistant, content := [],
     toolCalls := [⟨"a", .ok ("look", Dict.empty), false⟩,
       ⟨"b", .ok ("look", Dict.empty), false⟩] },
    { role := .tool, content := "seen", toolCallId := "a" },
    { role := .tool, content := "seen", toolCallId := "b" }]

/-- The variables of a run, from their names. -/
abbrev Vars : Type := List (Str × Json)

/-- A part of a value: a member, or an item of a list at a position that may count from the
end. -/
def part (name : Str) : Json → Option Json
  | .obj members => members.lookup name
  | .arr items =>
    (parseInt name).bind fun i =>
      if 0 ≤ i then items[i.toNat]?
      else if -i ≤ items.length then items[(items.length + i).toNat]? else none
  | _ => none

/-- `VariableManager.get`: dots in a name lead into a value. -/
def Vars.get (vars : Vars) (name : Str) : Option Json :=
  if '.' ∈ name then (name.splitOn '.').foldlM (fun value key => part key value) (.obj vars)
  else vars.lookup name

/-! ### The context -/

/-- `AgentContext`; `vars` are its variables, `None` until a run starts. -/
structure AgentContext where
  messages : List Message := []
  currentNodeId : Str := []
  iterationCount : ℤ := 0
  maxIterations : ℤ := 25
  artifactTurnCount : ℤ := 0
  error : Str := []
  stopReason : Str := []
  planMode : Bool := false
  toolCallChainCount : ℕ := 0
  vars : Option Vars := none
  confirmationPolicy : Option Dict := none
  repeatToolErrors : List (Str × ℕ) := []
  pruningDone : Bool := false

namespace AgentContext

variable (ctx : AgentContext)

/-- `is_max_iterations_reached`. -/
def isMaxIterationsReached : Bool := ctx.maxIterations ≤ ctx.iterationCount

/-- `token_usage`. -/
def tokenUsage : Usage :=
  (ctx.messages.filterMap Message.usage).foldl Usage.add {}

/-- The variables after `_seed_ctx_variables`. -/
def seeded (seed : Vars) : Vars := ctx.vars.getD seed

theorem total_tokenUsage : ctx.tokenUsage.total = spent ctx.messages := by
  have key : ∀ (ms : List Message) (u : Usage),
      ((ms.filterMap Message.usage).foldl Usage.add u).total = u.total + spent ms := by
    intro ms
    induction ms with
    | nil => simp
    | cons m ms ih =>
      intro u
      cases hm : m.usage with
      | none => simpa [List.filterMap_cons, hm, spent, totalOf] using ih u
      | some v =>
        rw [List.filterMap_cons_some hm, List.foldl_cons, ih, Usage.total_add, add_assoc]
        simp [spent, totalOf, hm]
  rw [tokenUsage, key, Usage.total_zero, zero_add]

end AgentContext

end AgentStudio.Execution

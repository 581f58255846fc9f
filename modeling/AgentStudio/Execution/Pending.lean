import AgentStudio.Execution.Context
import Mathlib.Data.List.TakeWhile

/-!
# Pending tool calls

`_extract_pending_tool_calls` of `agent_runtime/_runtime_checkpoint.py`, which `_save_checkpoint`
asks for the tool calls that a checkpoint leaves open, so that a resumed run does not make them
again.

The scan goes from the last message to the first and decides at the first tool message or
assistant message that it meets: a tool message closes everything, and an assistant message gives
its own tool calls. It never looks at an id. `openCalls` is what it is asked for, call by call,
and `findsOpen_iff` says for which messages the two agree: those where nothing but user and system
messages follows the last assistant message with tool calls, and those where each call of that
message is answered. A message list in which some of several calls were answered is in neither
class, and the calls that are still open are lost.
-/

namespace AgentStudio.Execution

/-! ### The scan -/

/-- The loop through `reversed(messages)`. An item that is no dictionary is `none`. -/
def extractFrom : List (Option Message) → List ToolCall
  | [] => []
  | none :: earlier => extractFrom earlier
  | some m :: earlier =>
    if m.role = .tool then []
    else if m.role = .assistant ∧ m.toolCalls.isEmpty = false then m.toolCalls
    else if m.role = .assistant then []
    else extractFrom earlier

/-- `_extract_pending_tool_calls`. -/
def extractPendingToolCalls (messages : List (Option Message)) : List ToolCall :=
  extractFrom messages.reverse

/-! ### The calls that are open -/

/-- An assistant message with tool calls. -/
def Asks : Option Message → Bool
  | none => false
  | some m => m.role = .assistant ∧ m.toolCalls.isEmpty = false

/-- A tool message with the id of a call. -/
def answeredBy (c : ToolCall) : Option Message → Bool
  | none => false
  | some m => m.role = .tool ∧ m.toolCallId = c.id

/-- The items after the last assistant message with tool calls, from the last one on. -/
def sinceAsked (messages : List (Option Message)) : List (Option Message) :=
  messages.reverse.takeWhile fun m => !Asks m

/-- The calls of the last assistant message with tool calls. -/
def lastAsked (messages : List (Option Message)) : List ToolCall :=
  match (messages.reverse.dropWhile fun m => !Asks m).head? with
  | some (some m) => m.toolCalls
  | _ => []

/-- The calls of the last assistant message with tool calls that no later tool message answers. -/
def openCalls (messages : List (Option Message)) : List ToolCall :=
  (lastAsked messages).filter fun c => !(sinceAsked messages).any (answeredBy c)

theorem asks_some {m : Message} : Asks (some m) = true ↔
    m.role = .assistant ∧ m.toolCalls.isEmpty = false := by
  simp [Asks]

section Split

variable {before after : List (Option Message)} {m : Message}

end Split

variable {messages : List (Option Message)}

/-! ### What the scan answers -/

/-- An item that the scan passes by: no dictionary, or a user or system message. -/
def Passed : Option Message → Bool
  | none => true
  | some m => m.role ≠ .tool ∧ m.role ≠ .assistant

theorem answers_of_passed {c : ToolCall} {x : Option Message} (h : Passed x = true) :
    answeredBy c x = false := by
  cases x with
  | none => rfl
  | some m =>
    have hrole : m.role ≠ .tool ∧ m.role ≠ .assistant := by simpa [Passed] using h
    simp [answeredBy, hrole.1]

theorem extractFrom_eq (r : List (Option Message)) :
    extractFrom r =
      if (r.takeWhile fun m => !Asks m).all Passed then
        match (r.dropWhile fun m => !Asks m).head? with
        | some (some m) => m.toolCalls
        | _ => []
      else [] := by
  induction r with
  | nil => rfl
  | cons x earlier ih =>
    cases x with
    | none => simpa [extractFrom, Asks, Passed] using ih
    | some m =>
      rw [extractFrom]
      by_cases hm : Asks (some m) = true
      · obtain ⟨hrole, hcalls⟩ := asks_some.mp hm
        simp [hm, hrole, hcalls]
      · have hnot : ¬ (m.role = .assistant ∧ m.toolCalls.isEmpty = false) :=
          fun h => hm (asks_some.mpr h)
        rw [if_neg hnot]
        have hfalse : Asks (some m) = false := by simpa using hm
        by_cases htool : m.role = .tool
        · simp [htool, hfalse, Passed]
        · by_cases hassistant : m.role = .assistant
          · simp [hassistant, hfalse, Passed]
          · simpa [htool, hassistant, hfalse, Passed] using ih

theorem extractPendingToolCalls_eq (messages : List (Option Message)) :
    extractPendingToolCalls messages =
      if (sinceAsked messages).all Passed then lastAsked messages else [] :=
  extractFrom_eq messages.reverse

def FindsOpen (messages : List (Option Message)) : Prop :=
  extractPendingToolCalls messages = openCalls messages

theorem findsOpen_of_passed (h : ∀ x ∈ sinceAsked messages, Passed x = true) :
    FindsOpen messages := by
  have hall : (sinceAsked messages).all Passed = true := List.all_eq_true.mpr h
  rw [FindsOpen, extractPendingToolCalls_eq, if_pos hall, openCalls, eq_comm, List.filter_eq_self]
  intro c _
  have hnone : (sinceAsked messages).any (answeredBy c) = false :=
    List.any_eq_false.mpr fun x hx => by simp [answers_of_passed (h x hx)]
  rw [hnone]
  rfl

theorem extractPendingToolCalls_of_not_passed (h : ¬ ∀ x ∈ sinceAsked messages, Passed x = true) :
    extractPendingToolCalls messages = [] := by
  rw [extractPendingToolCalls_eq, if_neg fun hall => h (List.all_eq_true.mp hall)]

/-- **The scan answers the open calls exactly if only user and system messages follow the last
assistant message with tool calls, or if each of its calls is answered.** -/
theorem findsOpen_iff (messages : List (Option Message)) :
    FindsOpen messages ↔
      (∀ x ∈ sinceAsked messages, Passed x = true) ∨
        ∀ c ∈ lastAsked messages, ∃ x ∈ sinceAsked messages, answeredBy c x = true := by
  by_cases hpassed : ∀ x ∈ sinceAsked messages, Passed x = true
  · exact iff_of_true (findsOpen_of_passed hpassed) (.inl hpassed)
  · rw [FindsOpen, extractPendingToolCalls_of_not_passed hpassed, openCalls, eq_comm,
      List.filter_eq_nil_iff]
    simp [hpassed]

/-- Each tool message answers a call of an earlier assistant message. -/
def Answering (messages : List (Option Message)) : Prop :=
  ∀ before m after, messages = before ++ some m :: after → m.role = .tool →
    ∃ m', some m' ∈ before ∧ m'.role = .assistant ∧ ∃ c ∈ m'.toolCalls, c.id = m.toolCallId

/-- Two calls, of which the first is answered. -/
theorem not_findsOpen : ¬ ∀ messages, Answering messages → FindsOpen messages := by
  intro h
  let asked : Message :=
    { role := .assistant, content := [], toolCalls := [{ id := ['a'], call := .ok (['f'], .empty) },
        { id := ['b'], call := .ok (['f'], .empty) }] }
  let reply : Message := { role := .tool, content := [], toolCallId := ['a'] }
  have hanswering : Answering [some asked, some reply] := by
    intro before m after hsplit hrole
    rcases before with _ | ⟨x, _ | ⟨y, before⟩⟩
    · obtain rfl := Option.some.inj (List.cons.inj hsplit).1
      exact absurd hrole (by decide)
    · obtain ⟨rfl, htail⟩ := List.cons.inj hsplit
      obtain rfl := Option.some.inj (List.cons.inj htail).1
      exact ⟨asked, List.mem_cons_self, rfl, _, List.mem_cons_self, rfl⟩
    · have hlength := congrArg List.length hsplit
      simp only [List.cons_append, List.length_cons, List.length_append, List.length_nil]
        at hlength
      omega
  have hfinds := h _ hanswering
  have hlength := congrArg List.length hfinds
  exact absurd hlength (by decide)

end AgentStudio.Execution

import AgentStudio.Chats.Session

/-!
# The prompts of the modes

What `send` of `agent_runtime/chat_engine.py` sends to the language model. In the modes `rag` and
`code` a handler builds a prompt from the message: `_execute_rag` from what the knowledge engine
finds, `_execute_code` from a preamble. Both give it to `_execute_simple`, which builds the request
from the history of the session (`buildLlmHistory`), where `send` has already put the message and
an empty message of the assistant.

`Prompted` says that the last message of the user in a request is the prompt and that no empty
message of the assistant follows it. `not_prompted` shows that no request in these modes is of that
kind: it ends with the empty message.

The funnel of the language model is a parameter, which may change the request. A funnel that
compacts keeps the last message (`ChatRuntime.KeepsLast`).
-/

namespace AgentStudio.Chats

open PyText PyJson Ancestry ChatSession

/-! ### Requests -/

/-- An entry of a request. No tool calls, and no id of a tool call, are left out. -/
structure Entry where
  role : Str
  content : Content
  toolCalls : List Json
  toolCallId : Str

def ChatMessage.entry (m : ChatMessage) : Entry where
  role := m.role
  content := m.content
  toolCalls := m.toolCalls
  toolCallId := m.toolCallId

/-- `_build_llm_history`. -/
def ChatSession.buildLlmHistory (s : ChatSession) : List Entry :=
  (s.linearBranch []).map ChatMessage.entry

/-- The runtime, as far as a chat reads it: whether it has a gateway to the language model, its
knowledge engine, whose `search` may raise, the soul that is found for a session (`[]` for none),
and `pre_llm` of the funnel, which blocks a call or gives back its messages. The text of a list is
`str`. -/
structure ChatRuntime where
  llmGateway : Bool
  knowledgeEngine : Option (Str → Option (List Str))
  soul : ChatSession → Str
  preLlm : List Entry → Option (List Entry)
  str : List Json → Str

namespace ChatRuntime

variable (rt : ChatRuntime)

/-- A content behind a soul: `f"{soul}\n\n{existing}" if existing else soul`. -/
def joined (soul : Str) : Content → Str
  | .text [] => soul
  | .text (c :: cs) => soul ++ "\n\n" ++ c :: cs
  | .parts [] => soul
  | .parts (p :: ps) => soul ++ "\n\n" ++ rt.str (p :: ps)

/-- The entry of the role `system` that a soul makes. -/
def soulEntry (soul : Str) : Entry := ⟨"system", .text soul, [], []⟩

/-- `_inject_soul`: the soul goes in front, or into the first entry if that has the role
`system`. -/
def injectSoul (s : ChatSession) (history : List Entry) : List Entry :=
  if rt.soul s = [] then history
  else
    match history with
    | [] => [soulEntry (rt.soul s)]
    | e :: rest =>
      if e.role = "system" then
        { e with content := .text (rt.joined (rt.soul s) e.content) } :: rest
      else soulEntry (rt.soul s) :: e :: rest

/-- `_execute_simple`, up to the call of the gateway: the request, if one is sent. The prompt that
it is given is not looked at. -/
def executeSimple (s : ChatSession) (_message : Str) : Option (List Entry) :=
  if rt.llmGateway then rt.preLlm (rt.injectSoul s s.buildLlmHistory) else none

/-- The prompt of `_execute_rag`. -/
def ragPrompt (contextText message : Str) : Str :=
  if contextText ≠ [] then
    "Based on the following context, answer the question.\n\nContext:\n" ++ contextText ++
      "\n\nQuestion: " ++ message
  else message

/-- `_execute_rag` up to its prompt; there is none if the search raises. -/
def retrieve (message : Str) : Option Str :=
  match rt.knowledgeEngine with
  | none => some (ragPrompt [] message)
  | some search =>
    (search message).map fun results => ragPrompt ("\n".toList.intercalate results) message

/-- The prompt of `_execute_code`. -/
def codePrompt (message : Str) : Str :=
  "You are a code assistant. Help with coding tasks.\n\nUser request: " ++ message

/-- The prompt that the handler of a mode builds from a message; a mode without a handler of its own
takes the message. -/
def modePrompt (mode message : Str) : Option Str :=
  if mode = "rag" then rt.retrieve message
  else if mode = "code" then some (codePrompt message)
  else some message

end ChatRuntime

/-! ### Sending -/

/-- The session when the handler of the mode starts: the message of the user has been added, and an
empty one of the assistant below it. -/
def ChatSession.opened (s : ChatSession) (c : SendCall) : ChatSession :=
  let mode := c.effectiveMode s
  let s := s.addMessage (c.userMessage mode) s.activeBranch c.now
  s.addMessage (.new c.assistantId "assistant" (.text []) mode c.now) c.userId c.now

/-- The request that `send` sends with a runtime. In the mode `agent` it sends none itself: the
runtime runs a graph. -/
def ChatRuntime.request (rt : ChatRuntime) (s : ChatSession) (c : SendCall) : Option (List Entry) :=
  if c.effectiveMode s = "agent" then none
  else (rt.modePrompt (c.effectiveMode s) c.message).bind (rt.executeSimple (s.opened c))

/-! ### The last entry -/

/-- A message of the assistant without a content. -/
def Entry.IsPlaceholder (e : Entry) : Prop := e.role = "assistant" ∧ e.content = .text []

/-- The last message of the user is the prompt, and no empty message of the assistant follows it. -/
def Prompted (prompt : Str) (request : List Entry) : Prop :=
  ∃ before e after, request = before ++ e :: after ∧ e.role = "user".toList ∧
    e.content = .text prompt ∧ ∀ x ∈ after, x.role ≠ "user".toList ∧ ¬ x.IsPlaceholder

/-- The funnel keeps the last message of the calls that it lets pass. -/
def ChatRuntime.KeepsLast (rt : ChatRuntime) : Prop :=
  ∀ history request, rt.preLlm history = some request → request.getLast? = history.getLast?

/-- The id that is drawn for the message of the assistant is not in use. -/
structure ChatSession.Draws (s : ChatSession) (c : SendCall) : Prop where
  ne_nil : c.assistantId ≠ []
  ne_userId : c.assistantId ≠ c.userId
  new : c.assistantId ∉ s.messages.map ChatMessage.id

variable {s : ChatSession} {c : SendCall} {rt : ChatRuntime}

theorem not_prompted_of_getLast? {request : List Entry} {e : Entry}
    (hlast : request.getLast? = some e) (he : e.IsPlaceholder) (prompt : Str) :
    ¬ Prompted prompt request := by
  rintro ⟨before, x, after, rfl, hrole, -, hafter⟩
  rw [List.getLast?_append_of_ne_nil _ (List.cons_ne_nil x after)] at hlast
  rcases after.eq_nil_or_concat with rfl | ⟨init, y, rfl⟩
  · obtain rfl : x = e := Option.some.inj hlast
    exact absurd (hrole.symm.trans he.1) (by decide)
  · rw [List.concat_eq_append, ← List.cons_append,
      List.getLast?_append_of_ne_nil _ (List.cons_ne_nil y []), List.getLast?_singleton,
      Option.some.injEq] at hlast
    exact (hafter y (by simp)).2 (hlast ▸ he)

private theorem map_id_modify (l : List ChatMessage) (i : ℕ) (child : Str) :
    (l.modify i (.addChild child)).map ChatMessage.id = l.map ChatMessage.id := by
  refine List.ext_getElem? fun j => ?_
  rw [List.getElem?_map, List.getElem?_modify, List.getElem?_map]
  split_ifs
  · cases l[j]? with
    | none => rfl
    | some m => rfl
  · simp

theorem attach_cases (s : ChatSession) (m : ChatMessage) (parentId : Str) :
    ∃ parent, (s.attach m parentId).1 = { m with parentId := parent } ∧
      (s.attach m parentId).2.messages.map ChatMessage.id = s.messages.map ChatMessage.id := by
  unfold ChatSession.attach
  split_ifs
  · exact ⟨m.parentId, rfl, rfl⟩
  · refine ⟨parentId, rfl, ?_⟩
    dsimp only
    split
    · split_ifs
      · rfl
      · exact map_id_modify _ _ _
    · rfl

theorem attachToRoot_cases (s : ChatSession) (m : ChatMessage) :
    ∃ parent, (s.attachToRoot m).1 = { m with parentId := parent } ∧
      (s.attachToRoot m).2.messages.map ChatMessage.id = s.messages.map ChatMessage.id := by
  unfold ChatSession.attachToRoot
  split_ifs
  · split
    · exact ⟨_, rfl, map_id_modify _ _ _⟩
    · exact ⟨m.parentId, rfl, rfl⟩
  · exact ⟨m.parentId, rfl, rfl⟩

private theorem addMessage_eq (s : ChatSession) (m : ChatMessage) (parentId : Str) (now : ℤ) :
    ∃ t : ChatMessage × ChatSession,
      t = (s.attach m parentId).2.attachToRoot (s.attach m parentId).1 ∧
      s.addMessage m parentId now = { t.2 with
        messages := t.2.messages ++ [t.1], activeBranch := t.1.id, updatedAt := now } :=
  ⟨_, rfl, rfl⟩

theorem messages_addMessage (s : ChatSession) (m : ChatMessage) (parentId : Str) (now : ℤ) :
    ∃ ms parent, (s.addMessage m parentId now).messages = ms ++ [{ m with parentId := parent }] ∧
      ms.map ChatMessage.id = s.messages.map ChatMessage.id ∧
      (s.addMessage m parentId now).activeBranch = m.id := by
  obtain ⟨parent, hm, hids⟩ := attach_cases s m parentId
  obtain ⟨parent', hm', hids'⟩ := attachToRoot_cases (s.attach m parentId).2 (s.attach m parentId).1
  obtain ⟨t, ht, hadd⟩ := addMessage_eq s m parentId now
  rw [← ht, hm] at hm'
  rw [← ht] at hids'
  exact ⟨t.2.messages, parent', by rw [hadd, hm'], hids'.trans hids, by rw [hadd, hm']⟩

theorem getLast?_linearBranch {ms : List ChatMessage} {m : ChatMessage}
    (hmsgs : s.messages = ms ++ [m]) (hnew : m.id ∉ ms.map ChatMessage.id)
    (hactive : s.activeBranch = m.id) (hne : m.id ≠ []) :
    (s.linearBranch []).getLast? = some m := by
  have hfind : s.getMessage m.id = some m := by
    unfold ChatSession.getMessage
    rw [hmsgs, List.find?_append, List.find?_eq_none.mpr]
    · simp
    · intro x hx
      simpa using fun h => hnew (List.mem_map.mpr ⟨x, hx, h⟩)
  unfold ChatSession.linearBranch
  rw [if_neg (by simp [hmsgs])]
  dsimp only
  rw [if_pos rfl, hactive, if_neg hne]
  have hlen : s.messages.length = ms.length + 1 := by simp [hmsgs]
  rw [hlen, List.getLast?_reverse, ascend, Option.bind_some, hfind]
  rfl

theorem getLast?_buildLlmHistory (hdraws : s.Draws c) :
    ∃ e : Entry, (s.opened c).buildLlmHistory.getLast? = some e ∧ e.IsPlaceholder := by
  obtain ⟨ms, parent, hmsgs, hids, -⟩ := messages_addMessage s
    (c.userMessage (c.effectiveMode s)) s.activeBranch c.now
  obtain ⟨ms', parent', hmsgs', hids', hactive⟩ := messages_addMessage
    (s.addMessage (c.userMessage (c.effectiveMode s)) s.activeBranch c.now)
    (.new c.assistantId "assistant" (.text []) (c.effectiveMode s) c.now) c.userId c.now
  have hnew : c.assistantId ∉ ms'.map ChatMessage.id := by
    rw [hids', hmsgs, List.map_append, hids, List.mem_append, not_or]
    refine ⟨hdraws.new, ?_⟩
    simpa [SendCall.userMessage, ChatMessage.new] using hdraws.ne_userId
  have hlast := getLast?_linearBranch (s := s.opened c) hmsgs' hnew hactive hdraws.ne_nil
  exact ⟨ChatMessage.entry _, List.getLast?_map.trans (congrArg _ hlast), rfl, rfl⟩

theorem getLast?_injectSoul {history : List Entry} {e : Entry} (h : history.getLast? = some e)
    (he : e.IsPlaceholder) : (rt.injectSoul s history).getLast? = some e := by
  unfold ChatRuntime.injectSoul
  split_ifs
  · exact h
  · cases history with
    | nil => cases h
    | cons x rest =>
      dsimp only
      split_ifs with hsystem
      · cases rest with
        | nil =>
          obtain rfl : x = e := Option.some.inj h
          exact absurd (hsystem.symm.trans he.1) (by decide)
        | cons y rest =>
          rw [List.getLast?_cons_cons] at h ⊢
          exact h
      · rw [List.getLast?_cons_cons]
        exact h

/-- **The prompt of a mode does not reach the language model.** In `rag`, `code` and every other
mode, no request has the prompt as its last message of the user without an empty message of the
assistant behind it. -/
theorem not_prompted (rt : ChatRuntime) (hfunnel : rt.KeepsLast) (s : ChatSession) (c : SendCall)
    (hdraws : s.Draws c) (prompt : Str) (request : List Entry)
    (hprompt : rt.modePrompt (c.effectiveMode s) c.message = some prompt)
    (hrequest : rt.request s c = some request) : ¬ Prompted prompt request := by
  obtain ⟨e, hlast, he⟩ := getLast?_buildLlmHistory hdraws
  rw [ChatRuntime.request, hprompt, Option.bind_some, ChatRuntime.executeSimple] at hrequest
  split_ifs at hrequest
  refine not_prompted_of_getLast? ?_ he prompt
  rw [hfunnel _ _ hrequest]
  exact getLast?_injectSoul hlast he

/-! ### One question -/

/-- A runtime with a gateway, a knowledge engine that finds one text, no souls and a funnel that
lets every call pass. -/
def oneRuntime : ChatRuntime where
  llmGateway := true
  knowledgeEngine := some fun _ => some ["Paris is in France."]
  soul _ := []
  preLlm := some
  str _ := []

/-- A session in the mode `rag` without messages. -/
def oneSession : ChatSession where
  id := "s"
  title := []
  mode := "rag"
  messages := []
  activeBranch := []
  graphId := []
  metadata := []
  createdAt := 0
  updatedAt := 0

def oneQuestion : SendCall where
  message := "Where is Paris?"
  mode := []
  content := []
  userId := "u"
  assistantId := "a"
  events := []
  completed := true
  now := 1

def questionRequest : List Entry :=
  [⟨"user", .text "Where is Paris?", [], []⟩, ⟨"assistant", .text [], [], []⟩]

theorem not_prompted_question : ¬ Prompted (ChatRuntime.ragPrompt "Paris is in France.".toList
    "Where is Paris?".toList) questionRequest :=
  not_prompted oneRuntime (fun _ _ h => congrArg List.getLast? (Option.some.inj h).symm) oneSession
    oneQuestion ⟨by decide, by decide, by decide⟩ _ questionRequest rfl rfl

/-- The model gets the question as it is, without the text that was found, and an empty message of
its own. -/
theorem request_not_prompted : ¬ ∀ prompt request,
    oneRuntime.modePrompt (oneQuestion.effectiveMode oneSession) oneQuestion.message = some prompt →
      oneRuntime.request oneSession oneQuestion = some request → Prompted prompt request :=
  fun h => not_prompted_of_getLast? (show questionRequest.getLast? = some _ from rfl) ⟨rfl, rfl⟩ _
    (h _ _ rfl rfl)

end AgentStudio.Chats

import AgentStudio.Library.Ancestry
import AgentStudio.Library.Json

/-!
# Chat sessions

`ChatMessage` and `ChatSession` of `agent_runtime/chat_engine.py`, and what the operations of
`ChatEngine` do to a session. A message names its parent and lists its children; `addMessage`
writes both, `edit` writes an entry of a child list and the parent of the new message. The
messages of a session are objects that are found by their id (`indexOf`) and changed in place.

`linearBranch` walks from a message to the root, `branch` copies that walk into a new session, and
`getBranches` lists the children of the parent of a message.

The ids that the code draws, the readings of the clock and what the language model answers are
arguments. An id, a title or a mode of `[]` is the empty string, which is none.
-/

namespace AgentStudio.Chats

open PyText PyJson Ancestry

/-! ### Messages -/

/-- The content of a message: a text or a list of parts. -/
inductive Content where
  | text (s : Str)
  | parts (ps : List Json)

/-- `content[:100] if content else ""`. -/
def Content.preview : Content → Content
  | text s => text (s.take 100)
  | parts [] => text []
  | parts (p :: ps) => parts ((p :: ps).take 100)

/-- `ChatMessage`. -/
structure ChatMessage where
  id : Str
  role : Str
  content : Content
  mode : Str
  toolCalls : List Json
  toolCallId : Str
  parentId : Str
  childrenIds : List Str
  metadata : List (Str × Json)
  createdAt : ℤ

/-- A new message with a drawn id and the defaults of the class. -/
def ChatMessage.new (id role : Str) (content : Content) (mode : Str) (now : ℤ) : ChatMessage where
  id := id
  role := role
  content := content
  mode := mode
  toolCalls := []
  toolCallId := []
  parentId := []
  childrenIds := []
  metadata := []
  createdAt := now

/-- `m.children_ids.append(child)`. -/
def ChatMessage.addChild (child : Str) (m : ChatMessage) : ChatMessage :=
  { m with childrenIds := m.childrenIds ++ [child] }

def ChatMessage.parent (m : ChatMessage) : Option Str :=
  if m.parentId = [] then none else some m.parentId

/-! ### Sessions -/

/-- `ChatSession`. -/
structure ChatSession where
  id : Str
  title : Str
  mode : Str
  messages : List ChatMessage
  activeBranch : Str
  graphId : Str
  metadata : List (Str × Json)
  createdAt : ℤ
  updatedAt : ℤ

namespace ChatSession

variable (s : ChatSession)

/-- The place of the first message with an id. -/
def indexOf (messageId : Str) : ℕ := s.messages.findIdx (·.id = messageId)

/-- `get_message`. -/
def getMessage (messageId : Str) : Option ChatMessage := s.messages.find? (·.id = messageId)

/-- `_root_message_id`. -/
def rootMessageId : Str :=
  ((s.messages.find? (·.parentId = [])).map ChatMessage.id).getD []

/-- `get_linear_branch`; a walk visits no more messages than there are. -/
def linearBranch (leafId : Str) : List ChatMessage :=
  if s.messages = [] then []
  else
    let leaf := if leafId = [] then s.activeBranch else leafId
    if leaf = [] then s.messages
    else (ascend s.getMessage ChatMessage.parent s.messages.length (some leaf)).reverse

/-- The place of the last message without a parent. -/
def lastRoot : Option ℕ :=
  (s.messages.reverse.findIdx? (·.parentId = [])).map (s.messages.length - 1 - ·)

/-- The object that `get_message` returns, changed. -/
def modify (messageId : Str) (f : ChatMessage → ChatMessage) : ChatSession :=
  { s with messages := s.messages.modify (s.indexOf messageId) f }

/-- The part of `add_message` for a given parent. -/
def attach (m : ChatMessage) (parentId : Str) : ChatMessage × ChatSession :=
  if parentId = [] then (m, s)
  else
    ({ m with parentId },
      match s.getMessage parentId with
      | some p => if m.id ∈ p.childrenIds then s else s.modify parentId (.addChild m.id)
      | none => s)

/-- The part of `add_message` for a message that has no parent, in a session with messages. -/
def attachToRoot (m : ChatMessage) : ChatMessage × ChatSession :=
  if m.parentId = [] ∧ s.messages ≠ [] then
    match s.lastRoot with
    | some i =>
      ({ m with parentId := ((s.messages[i]?).map ChatMessage.id).getD [] },
        { s with messages := s.messages.modify i (.addChild m.id) })
    | none => (m, s)
  else (m, s)

/-- `add_message`. -/
def addMessage (m : ChatMessage) (parentId : Str) (now : ℤ) : ChatSession :=
  let (m, s) := s.attach m parentId
  let (m, s) := s.attachToRoot m
  { s with messages := s.messages ++ [m], activeBranch := m.id, updatedAt := now }

/-! ### Sending -/

/-- What the execution of a mode yields: a token, a tool call, or an event that `send` passes on. -/
inductive ChatEvent where
  | token (s : Str)
  | toolCall (args : Json)
  | other

/-- The arguments of `send`, what is drawn and read while it runs, and what the execution yields.
It is `completed` if the stream of events is read to its end. -/
structure SendCall where
  message : Str
  mode : Str
  content : List Json
  userId : Str
  assistantId : Str
  events : List ChatEvent
  completed : Bool
  now : ℤ

def SendCall.fullContent (c : SendCall) : Str :=
  c.events.flatMap fun
    | .token s => s
    | _ => []

def SendCall.calls (c : SendCall) : List Json :=
  c.events.filterMap fun
    | .toolCall args => some args
    | _ => none

/-- `effective_mode`. -/
def SendCall.effectiveMode (c : SendCall) : Str := if c.mode = [] then s.mode else c.mode

def SendCall.userMessage (c : SendCall) (mode : Str) : ChatMessage :=
  .new c.userId "user" (if c.content = [] then .text c.message else .parts c.content) mode
    c.now

/-- What `send` writes into the message of the assistant; tool calls are kept in the mode `agent`
with a runtime. -/
def SendCall.answer (c : SendCall) (agent : Bool) (m : ChatMessage) : ChatMessage :=
  { m with
    content := .text c.fullContent
    toolCalls := if agent then m.toolCalls ++ c.calls else m.toolCalls }

/-- What `send` does to the session before it is stored. -/
def send (c : SendCall) (runtime : Bool) : ChatSession :=
  let mode := c.effectiveMode s
  let s := s.addMessage (c.userMessage mode) s.activeBranch c.now
  let s := s.addMessage (.new c.assistantId "assistant" (.text []) mode c.now) c.userId c.now
  let s := s.modify c.assistantId (c.answer (decide (mode = "agent") && runtime))
  if c.completed ∧ s.title = [] then { s with title := c.fullContent.take 60 } else s

/-! ### Branches and edits -/

def copyMessage (m : ChatMessage) (id : Str) (now : ℤ) : ChatMessage :=
  { m with id, parentId := [], childrenIds := [], createdAt := now }

/-- The session that `branch` starts with. -/
def branchStart (messageId newId : Str) (now : ℤ) : ChatSession where
  id := newId
  title := s.title ++ " (branch)"
  mode := s.mode
  messages := []
  activeBranch := []
  graphId := s.graphId
  metadata := [("branched_from", .str s.id), ("branched_at", .str messageId)]
  createdAt := now
  updatedAt := now

/-- The loop of `branch`: each message is added below the one before. -/
def addCopy (now : ℤ) (t : ChatSession) (m : ChatMessage × Str) : ChatSession :=
  t.addMessage (copyMessage m.1 m.2 now) (if t.messages = [] then [] else t.activeBranch) now

/-- The session that `branch` makes of a message of the session; `ids` are drawn for the copies. -/
def branch (messageId newId : Str) (ids : ℕ → Str) (now : ℤ) : Option ChatSession :=
  (s.getMessage messageId).map fun _ =>
    ((s.linearBranch messageId).zipIdx.map fun m => (m.1, ids m.2)).foldl (addCopy now)
      (s.branchStart messageId newId now)

/-- The message that `edit` adds. -/
def editedMessage (original : ChatMessage) (messageId content editedId : Str) (now : ℤ) :
    ChatMessage :=
  { ChatMessage.new editedId "user" (.text content) original.mode now with
    parentId := original.parentId
    metadata := [("edited_from", .str messageId)] }

/-- What `edit` does to the session before it is stored; only messages of the user are edited. -/
def edit (messageId content editedId : Str) (now : ℤ) : Option (ChatMessage × ChatSession) :=
  match s.getMessage messageId with
  | none => none
  | some original =>
    if original.role = "user" then
      let edited := editedMessage original messageId content editedId now
      let s := s.modify messageId (.addChild editedId)
      some (edited, { s with messages := s.messages ++ [edited], activeBranch := editedId })
    else none

/-- What `switch_branch` does to the session before it is stored. -/
def switchBranch (messageId : Str) : Option ChatSession :=
  match s.getMessage messageId with
  | none => none
  | some _ =>
    if s.linearBranch messageId = [] then none else some { s with activeBranch := messageId }

/-- An entry of `get_branches`. -/
structure BranchInfo where
  leafId : Str
  contentPreview : Content
  role : Str
  createdAt : ℤ
  messageCount : ℕ
  isActive : Bool

def branchInfo (m : ChatMessage) : BranchInfo where
  leafId := m.id
  contentPreview := m.content.preview
  role := m.role
  createdAt := m.createdAt
  messageCount := (s.linearBranch m.id).length
  isActive := m.id = s.activeBranch

/-- `get_branches`: the children of the parent of a message, or all roots. -/
def getBranches (messageId : Str) : List BranchInfo :=
  match s.getMessage (if messageId = [] then s.activeBranch else messageId) with
  | none => []
  | some target =>
    let siblings : List ChatMessage :=
      match target.parent.bind s.getMessage with
      | none => s.messages.filter (·.parentId = [])
      | some p => p.childrenIds.filterMap s.getMessage
    siblings.map s.branchInfo

end ChatSession

end AgentStudio.Chats

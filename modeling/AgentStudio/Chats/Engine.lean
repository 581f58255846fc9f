import AgentStudio.Chats.Session
import AgentStudio.Library.Rows
import Mathlib.Data.List.Sort

/-!
# The chat engine

`ChatEngine` of `agent_runtime/chat_engine.py` with its store, the table `chat_sessions` of
`agent_runtime/persistence.py`. The engine keeps a dictionary of sessions in memory, of at most
128 entries after an eviction; an operation changes the session object it is given, which is the
one in the dictionary if that has the session, and writes the whole session back to its row.

`getSession` reads a row with its messages, `listSessions` reads the fifty latest rows without
them; both put what they read into the dictionary. A statement that fails is logged and leaves the
row as it was (`Save`).

Rows hold the session as it was written: messages and metadata are stored as JSON texts and read
back. The defaults for a missing time do not apply to a row, whose times are set.
-/

namespace AgentStudio.Chats

open PyText PyJson

structure ChatEngine where
  chatSessions : Rows.Table ChatSession.id
  sessions : Rows.Table ChatSession.id
  runtime : Bool

/-- When a session is written, and whether the statement goes through. -/
structure Save where
  now : ℤ
  ok : Bool

/-- `MAX_CACHED_SESSIONS`. -/
def maxCachedSessions : ℕ := 128

/-- The limit of `list_chat_sessions`. -/
def listLimit : ℕ := 50

/-- The session that is made of a row with its messages: `from_dict` and `__post_init__`. -/
def ChatSession.load (row : ChatSession) : ChatSession :=
  if row.activeBranch = [] ∧ row.messages ≠ [] then { row with activeBranch := row.rootMessageId }
  else row

namespace ChatEngine

variable (e : ChatEngine)

/-! ### The table -/

/-- The row that `save_chat_session` writes; a row that exists keeps its creation time. -/
def rowFor (s : ChatSession) : ChatSession :=
  match e.chatSessions.find s.id with
  | some old => { s with createdAt := old.createdAt }
  | none => s

/-- `list_chat_sessions`: the latest rows, without their messages. -/
def listChatSessions : List ChatSession :=
  ((e.chatSessions.rows.insertionSort fun a b => b.updatedAt ≤ a.updatedAt).take listLimit).map
    fun row => { row with messages := [] }

/-! ### The dictionary -/

/-- The session object is changed: the dictionary shows the change if it has the session. -/
def assign (s : ChatSession) : ChatEngine :=
  if (e.sessions.find s.id).isSome then { e with sessions := e.sessions.upsert s } else e

/-- `_persist_session`, for a session object that was changed. -/
def persist (s : ChatSession) (save : Save) : ChatEngine :=
  let s := { s with updatedAt := save.now }
  let e := e.assign s
  if save.ok then { e with chatSessions := e.chatSessions.upsert (e.rowFor s) } else e

/-- The sessions that `_evict_sessions` removes: the least recently updated ones. -/
def evicted : List ChatSession :=
  (e.sessions.rows.insertionSort fun a b => a.updatedAt ≤ b.updatedAt).take
    (e.sessions.rows.length - maxCachedSessions)

/-- `_evict_sessions`. -/
def evictSessions : ChatEngine :=
  if e.sessions.rows.length ≤ maxCachedSessions then e
  else
    { e with sessions := e.sessions.select fun s => s.id ∉ e.evicted.map ChatSession.id }

/-- `get_session`. -/
def getSession (sessionId : Str) : Option ChatSession × ChatEngine :=
  match e.sessions.find sessionId with
  | some s => (some s, e)
  | none =>
    match e.chatSessions.find sessionId with
    | some row => (some row.load, { e with sessions := e.sessions.upsert row.load }.evictSessions)
    | none => (none, e)

/-! ### The operations -/

/-- The session of `create_session`; `clockTitle` is the default title, the time of the day. -/
def newSession (mode title clockTitle graphId newId : Str) (metadata : List (Str × Json))
    (now : ℤ) : ChatSession where
  id := newId
  title := if title = [] then clockTitle else title
  mode := mode
  messages := []
  activeBranch := []
  graphId := graphId
  metadata := metadata
  createdAt := now
  updatedAt := now

/-- `create_session`. -/
def createSession (s : ChatSession) (save : Save) : ChatEngine :=
  { e with sessions := e.sessions.upsert s }.evictSessions.persist s save

/-- `list_sessions`: the sessions that are not in memory enter the dictionary. -/
def listSessions : List ChatSession × ChatEngine :=
  let e := { e with
    sessions := e.listChatSessions.foldl
      (fun cache s => if (cache.find s.id).isSome then cache else cache.upsert s) e.sessions }
  (e.sessions.rows.insertionSort fun a b => b.updatedAt ≤ a.updatedAt, e)

/-- `delete_session`. -/
def deleteSession (sessionId : Str) : Bool × ChatEngine :=
  ((e.sessions.find sessionId).isSome,
    { e with
      sessions := e.sessions.select fun s => s.id ≠ sessionId
      chatSessions := e.chatSessions.select fun s => s.id ≠ sessionId })

/-- `send`; a stream that is not read to its end leaves the session unwritten. -/
def send (sessionId : Str) (c : ChatSession.SendCall) (save : Save) : Bool × ChatEngine :=
  match e.getSession sessionId with
  | (none, e) => (false, e)
  | (some s, e) =>
    let s := s.send c e.runtime
    (true, if c.completed then e.persist s save else e.assign s)

/-- `branch`. -/
def branch (sessionId messageId newId : Str) (ids : ℕ → Str) (now : ℤ) (save : Save) :
    Option ChatSession × ChatEngine :=
  match e.getSession sessionId with
  | (none, e) => (none, e)
  | (some s, e) =>
    match s.branch messageId newId ids now with
    | none => (none, e)
    | some b => (some b, { e with sessions := e.sessions.upsert b }.persist b save)

/-- `edit`. -/
def edit (sessionId messageId content editedId : Str) (now : ℤ) (save : Save) :
    Option ChatMessage × ChatEngine :=
  match e.getSession sessionId with
  | (none, e) => (none, e)
  | (some s, e) =>
    match s.edit messageId content editedId now with
    | none => (none, e)
    | some (m, s) => (some m, e.persist s save)

/-- `switch_branch`. -/
def switchBranch (sessionId messageId : Str) (save : Save) : Bool × ChatEngine :=
  match e.getSession sessionId with
  | (none, e) => (false, e)
  | (some s, e) =>
    match s.switchBranch messageId with
    | none => (false, e)
    | some s => (true, e.persist s save)

/-- A call of the engine; the ids and times that it draws are part of it. -/
inductive Call where
  | createSession (mode title clockTitle graphId newId : Str) (metadata : List (Str × Json))
      (now : ℤ) (save : Save)
  | getSession (sessionId : Str)
  | listSessions
  | deleteSession (sessionId : Str)
  | send (sessionId : Str) (c : ChatSession.SendCall) (save : Save)
  | branch (sessionId messageId newId : Str) (ids : ℕ → Str) (now : ℤ) (save : Save)
  | edit (sessionId messageId content editedId : Str) (now : ℤ) (save : Save)
  | switchBranch (sessionId messageId : Str) (save : Save)
  | evictSessions

inductive Reply where
  | session (s : Option ChatSession)
  | sessions (l : List ChatSession)
  | message (m : Option ChatMessage)
  | done (b : Bool)

def step : Call → ChatEngine → Reply × ChatEngine
  | .createSession mode title clockTitle graphId newId metadata now save, e =>
    let s := newSession mode title clockTitle graphId newId metadata now
    (.session (some s), e.createSession s save)
  | .getSession sessionId, e => (.session (e.getSession sessionId).1, (e.getSession sessionId).2)
  | .listSessions, e => (.sessions e.listSessions.1, e.listSessions.2)
  | .deleteSession sessionId, e =>
    (.done (e.deleteSession sessionId).1, (e.deleteSession sessionId).2)
  | .send sessionId c save, e => (.done (e.send sessionId c save).1, (e.send sessionId c save).2)
  | .branch sessionId messageId newId ids now save, e =>
    (.session (e.branch sessionId messageId newId ids now save).1,
      (e.branch sessionId messageId newId ids now save).2)
  | .edit sessionId messageId content editedId now save, e =>
    (.message (e.edit sessionId messageId content editedId now save).1,
      (e.edit sessionId messageId content editedId now save).2)
  | .switchBranch sessionId messageId save, e =>
    (.done (e.switchBranch sessionId messageId save).1,
      (e.switchBranch sessionId messageId save).2)
  | .evictSessions, e => (.done true, e.evictSessions)

end ChatEngine

end AgentStudio.Chats

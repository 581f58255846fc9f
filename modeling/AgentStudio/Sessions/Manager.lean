import AgentStudio.Chats.Session
import AgentStudio.Library.Machine
import AgentStudio.Library.Rows

/-!
# Background sessions

`SessionManager` of `agent_runtime/session_manager.py`. `fork` starts a session that runs in a task
of its own, with the messages of its parent as its context. The task executes the graph once for
each user turn: `execute_graph` is given the text of the turn and the context, and yields events.
Further turns come from `inject_input`, which appends to a list that the task takes over at the end
of a turn. `background_kill` cancels the task, waits for it and sets the status.

Everything runs in one event loop, so what stands between two places where a task waits is one step.
The steps of a session are its `Act`s: those of the task (`start` to `cancelled`), of `inject_input`
and of `background_kill`, which waits between `kill` and `killed` if the task has not ended. What
the graph does, the store reads and the messages of the context at the end of a turn are arguments.
-/

namespace AgentStudio.Sessions

open PyText PyJson Rows Machine AgentStudio.Chats

/-! ### Sessions -/

/-- `SessionStatus`. -/
inductive SessionStatus
  | running
  | completed
  | failed
  | killed
deriving DecidableEq

def SessionStatus.value : SessionStatus → Str
  | running => "running"
  | completed => "completed"
  | failed => "failed"
  | killed => "killed"

/-- The types of events that the manager tells apart. -/
inductive AgentEventType
  | think
  | error
  | other
deriving DecidableEq

/-- An event of `execute_graph`. -/
structure AgentEvent where
  type : AgentEventType
  content : Str

structure ContextMessage where
  role : Str
  content : Json

/-- A call of `execute_graph`: the text of the turn and the events so far, the latest first. -/
structure Turn where
  text : Str
  events : List AgentEvent

/-- The messages that a session starts with: those of a chat session, of a checkpoint, a summary of
either, or none. -/
inductive Seed
  | fresh
  | chat (messages : List ChatMessage)
  | checkpoint (messages : List Json)
  | summary (text : Str)

inductive Phase
  | created
  | executing
  | ended
deriving DecidableEq

/-- `BackgroundSession` with its task: the turns that wait, the turns so far, the latest first, and
the number of calls of `background_kill` that have cancelled the task and wait for it. -/
structure BackgroundSession where
  id : Str
  forkedFrom : Str
  inputText : Str
  seed : Seed
  status : SessionStatus
  injected : List Str
  output : Json
  error : Str
  phase : Phase
  pending : List Str
  turns : List Turn
  kills : ℕ

inductive Answer
  | forked (id : Str)
  | injected (id text : Str)
  | rejected (error : Str)
  | found (b : Bool)
  | silent

inductive Act
  | start
  | event (e : AgentEvent)
  | turnEnd (messages : List ContextMessage)
  | raised (error : Str)
  | cancelled
  | injectInput (text : Str)
  | kill
  | killed

namespace BackgroundSession

variable (s : BackgroundSession)

/-- The texts of the turns, in their order. -/
def executed : List Str := (s.turns.map Turn.text).reverse

/-- The beginning of `_run_background`. A task that is cancelled before it has run never gets
there. -/
def start (runtime : Bool) : BackgroundSession :=
  if s.phase = .created then
    if 0 < s.kills then { s with phase := .ended }
    else if runtime then { s with phase := .executing, turns := [⟨s.inputText, []⟩] }
    else { s with phase := .ended, status := .failed, error := "No runtime available" }
  else s

def event (e : AgentEvent) : BackgroundSession :=
  match s.phase, s.turns with
  | .executing, t :: ts => { s with turns := { t with events := e :: t.events } :: ts }
  | _, _ => s

def lastAssistant (messages : List ContextMessage) : Json :=
  match messages.reverse.find? (·.role = "assistant".toList) with
  | some m => m.content
  | none => .str []

/-- `output`: the last thought, or the last message of the assistant. -/
def outputOf (messages : List ContextMessage) : Json :=
  match (s.turns.flatMap Turn.events).find? fun e => e.type = .think ∧ e.content ≠ [] with
  | some e => .str e.content
  | none => lastAssistant messages

/-- The error that `len(output)` raises. -/
def lenError : Json → Option Str
  | .null => some "object of type 'NoneType' has no len()"
  | .bool _ => some "object of type 'bool' has no len()"
  | .num n =>
    some (if n.scale = 0 then "object of type 'int' has no len()"
      else "object of type 'float' has no len()")
  | .str _ | .arr _ | .obj _ => none

/-- The end of `_run_background`. The log entry after the assignment of the status takes the length
of the output; if that raises, the session has failed. -/
def complete (messages : List ContextMessage) : BackgroundSession :=
  let output := s.outputOf messages
  match lenError output with
  | some error => { s with phase := .ended, output, status := .failed, error }
  | none => { s with phase := .ended, output, status := .completed }

/-- The end of a turn: the task takes over what has been injected and goes on with the next turn, or
ends. -/
def turnEnd (messages : List ContextMessage) : BackgroundSession :=
  if s.phase = .executing then
    match s.pending ++ s.injected with
    | [] => { s with injected := [] }.complete messages
    | t :: pending => { s with injected := [], pending, turns := ⟨t, []⟩ :: s.turns }
  else s

def raised (error : Str) : BackgroundSession :=
  if s.phase = .executing then { s with phase := .ended, status := .failed, error } else s

def cancelled : BackgroundSession :=
  if s.phase = .executing then { s with phase := .ended, status := .killed } else s

/-- `inject_input` of a session that is there. -/
def injectInput (text : Str) : Answer × BackgroundSession :=
  if text = [] then (.rejected "text required", s)
  else if s.status = .running then
    (.injected s.id text, { s with injected := s.injected ++ [text] })
  else (.rejected ("Session " ++ s.id ++ " is " ++ s.status.value), s)

/-- `background_kill` of a session that is there, up to the end or to the wait for the task. -/
def kill : BackgroundSession :=
  if s.phase = .ended then { s with status := .killed } else { s with kills := s.kills + 1 }

/-- The end of a `background_kill` that has waited for the task. -/
def killed : BackgroundSession :=
  if s.phase = .ended ∧ 0 < s.kills then { s with kills := s.kills - 1, status := .killed } else s

def act (runtime : Bool) : Act → Answer × BackgroundSession
  | .start => (.silent, s.start runtime)
  | .event e => (.silent, s.event e)
  | .turnEnd messages => (.silent, s.turnEnd messages)
  | .raised error => (.silent, s.raised error)
  | .cancelled => (.silent, s.cancelled)
  | .injectInput text => s.injectInput text
  | .kill => (.found true, s.kill)
  | .killed => (.found true, s.killed)

end BackgroundSession

/-- What an operation answers for a session that is not there. -/
def Act.missing (id : Str) : Act → Answer
  | .injectInput _ => .rejected ("Session not found: " ++ id)
  | .kill => .found false
  | _ => .silent

/-! ### The manager -/

/-- What `fork` reads: the chat session, if it can be loaded, the messages of the latest checkpoint,
if there are any, and the summary, unless that raises. -/
structure ForkRead where
  chat : Option ChatSession
  checkpoint : List Json
  summary : Option Str

def ForkRead.parent (r : ForkRead) : Seed :=
  match r.chat.map ChatSession.messages with
  | some (m :: ms) => .chat (m :: ms)
  | _ => if r.checkpoint = [] then .fresh else .checkpoint r.checkpoint

/-- The context that `fork` makes. -/
def ForkRead.seed (r : ForkRead) (summarize : Bool) : Seed :=
  match r.parent with
  | .fresh => .fresh
  | seed => if summarize then (r.summary.map Seed.summary).getD seed else seed

/-- A session that `fork` makes, with a drawn id. -/
def newSession (id forkedFrom inputText : Str) (seed : Seed) : BackgroundSession where
  id := id
  forkedFrom := forkedFrom
  inputText := inputText
  seed := seed
  status := .running
  injected := []
  output := .str []
  error := []
  phase := .created
  pending := []
  turns := []
  kills := 0

/-- `SessionManager`: its sessions, and whether it has a runtime. -/
structure SessionManager where
  runtime : Bool
  sessions : Table BackgroundSession.id

inductive Op
  | fork (sessionId inputText : Str) (summarize : Bool) (read : ForkRead) (newId : Str)
  | act (id : Str) (a : Act)

def SessionManager.act (m : SessionManager) (id : Str) (a : Act) : Answer × SessionManager :=
  match m.sessions.find id with
  | none => (a.missing id, m)
  | some s =>
    ((s.act m.runtime a).1, { m with sessions := m.sessions.upsert (s.act m.runtime a).2 })

def step : Op → SessionManager → Answer × SessionManager
  | .fork sessionId inputText summarize read newId, m =>
    (.forked newId, { m with
      sessions := m.sessions.upsert (newSession newId sessionId inputText (read.seed summarize)) })
  | .act id a, m => m.act id a

def SessionManager.opened (runtime : Bool) : SessionManager := ⟨runtime, Table.empty⟩

/-- The ids that are drawn for new sessions are not in use. -/
def Op.Fresh : Op → SessionManager → Prop
  | .fork _ _ _ _ newId, m => newId ∉ m.sessions.rows.map BackgroundSession.id
  | _, _ => True

/-! ### What a step does -/

variable {s : BackgroundSession} {m : SessionManager}

theorem id_act (runtime : Bool) (a : Act) : (s.act runtime a).2.id = s.id := by
  cases a with
  | start =>
    change (s.start runtime).id = s.id
    unfold BackgroundSession.start
    split_ifs <;> rfl
  | event e =>
    change (s.event e).id = s.id
    unfold BackgroundSession.event
    split <;> rfl
  | turnEnd messages =>
    change (s.turnEnd messages).id = s.id
    unfold BackgroundSession.turnEnd BackgroundSession.complete
    split_ifs
    · split
      · dsimp only
        split <;> rfl
      · rfl
    · rfl
  | raised error =>
    change (s.raised error).id = s.id
    unfold BackgroundSession.raised
    split_ifs <;> rfl
  | cancelled =>
    change s.cancelled.id = s.id
    unfold BackgroundSession.cancelled
    split_ifs <;> rfl
  | injectInput text =>
    change (s.injectInput text).2.id = s.id
    unfold BackgroundSession.injectInput
    split_ifs <;> rfl
  | kill =>
    change s.kill.id = s.id
    unfold BackgroundSession.kill
    split_ifs <;> rfl
  | killed =>
    change s.killed.id = s.id
    unfold BackgroundSession.killed
    split_ifs <;> rfl

theorem act_cases (m : SessionManager) (id : Str) (a : Act) :
    id ∉ m.sessions.rows.map BackgroundSession.id ∧ m.act id a = (a.missing id, m) ∨
    ∃ s ∈ m.sessions.rows, s.id = id ∧ (m.act id a).1 = (s.act m.runtime a).1 ∧
      (m.act id a).2.runtime = m.runtime ∧ ∀ x, x ∈ (m.act id a).2.sessions.rows ↔
        x = (s.act m.runtime a).2 ∨ x ∈ m.sessions.rows ∧ x.id ≠ id := by
  unfold SessionManager.act
  rcases hfind : m.sessions.find id with _ | s
  · exact Or.inl ⟨Table.find_eq_none_iff.mp hfind, rfl⟩
  · obtain ⟨hs, rfl⟩ := Table.find_eq_some_iff.mp hfind
    refine Or.inr ⟨s, hs, rfl, rfl, rfl, fun x => ?_⟩
    rw [← id_act m.runtime a]
    exact Table.mem_upsert

theorem mem_fork {sessionId inputText newId : Str} {summarize : Bool} {read : ForkRead}
    (hnew : newId ∉ m.sessions.rows.map BackgroundSession.id) (x : BackgroundSession) :
    x ∈ (step (.fork sessionId inputText summarize read newId) m).2.sessions.rows ↔
      x = newSession newId sessionId inputText (read.seed summarize) ∨ x ∈ m.sessions.rows := by
  refine Table.mem_upsert.trans (or_congr_right ⟨And.left, fun hx => ⟨hx, fun h => ?_⟩⟩)
  exact hnew (List.mem_map.mpr ⟨x, hx, h⟩)

end AgentStudio.Sessions

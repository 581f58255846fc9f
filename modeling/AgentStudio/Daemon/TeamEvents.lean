import Mathlib.Logic.Function.Basic
import AgentStudio.Library.Json

/-!
# Events of teams

The channel of team events of `agent_runtime/daemon_server.py`. An event is numbered and kept in a
ring buffer (`appendEvent`), and `broadcastEvent` starts a task for each client that has subscribed
to the channel, which writes the event to its socket. A client subscribes with the number of the
last event it has seen: it is subscribed at once, and then the events of the ring buffer since that
one are written to it, one after the other.

The handler of a client waits after every frame until the socket has drained, and the tasks of a
broadcast take turns with it: `act` is one step of a handler, of a broadcast or of a task. `Session`
is what a client makes of the frames that it has got.
-/

namespace AgentStudio.TeamEvents

open PyText PyJson PyDict

/-! ### Events -/

/-- The data of an event; a `team` among them replaces that of the event. -/
structure EventData where
  team : Option Str := none
  fields : List (Str × Json) := []

structure Event where
  type : Str
  eventId : ℕ
  team : Str
  fields : List (Str × Json)

inductive Frame
  | subscribed (team : Str) (lastEventId : ℤ)
  | event (e : Event)

/-- Where the handler of a client is: it reads messages, or it waits for the socket to drain. -/
inductive Handler
  | reading
  | subscribing (team : Str) (lastEventId : ℤ)
  | replaying (missed : List Event)

/-! ### The server -/

/-- The part of the server that has to do with events. The handlers and the tasks of broadcasts that
have not written their frame yet are in `handlers` and `sends`; `written` are the frames of each
client and `broadcasts` the events that were broadcast. -/
structure DaemonServer where
  eventSeq : ℕ := 0
  eventLog : List Event := []
  wsClients : List ℕ := []
  wsSubscriptions : List (ℕ × Str) := []
  handlers : ℕ → Handler := fun _ => .reading
  sends : List (ℕ × Event) := []
  written : ℕ → List Frame := fun _ => []
  broadcasts : List Event := []

namespace DaemonServer

def maxlen : ℕ := 1000

/-- `deque.append` with a `maxlen`. -/
def append (maxlen : ℕ) (log : List Event) (e : Event) : List Event :=
  (log ++ [e]).drop (log.length + 1 - maxlen)

theorem append_sublist (maxlen : ℕ) (log : List Event) (e : Event) :
    (append maxlen log e).Sublist (log ++ [e]) := List.drop_sublist _ _

def nextEvent (s : DaemonServer) (type : Str) (data : EventData) (team : Str) : Event where
  type := type
  eventId := s.eventSeq + 1
  team := data.team.getD team
  fields := data.fields

/-- `_append_event`. -/
def appendEvent (s : DaemonServer) (type : Str) (data : EventData) (team : Str) : DaemonServer :=
  { s with
    eventSeq := s.eventSeq + 1
    eventLog := append maxlen s.eventLog (s.nextEvent type data team) }

theorem eventLog_appendEvent (s : DaemonServer) (type : Str) (data : EventData) (team : Str) :
    (s.appendEvent type data team).eventLog =
      append maxlen s.eventLog (s.nextEvent type data team) := by
  rw [appendEvent]

/-- `_events_since`. -/
def eventsSince (s : DaemonServer) (lastId : ℤ) (team : Str) : List Event :=
  if lastId ≤ 0 then s.eventLog.filter fun e => e.team = team
  else s.eventLog.filter fun e => lastId < e.eventId ∧ e.team = team

def write (s : DaemonServer) (c : ℕ) (f : Frame) : DaemonServer :=
  { s with written := Function.update s.written c (s.written c ++ [f]) }

def goTo (s : DaemonServer) (c : ℕ) (h : Handler) : DaemonServer :=
  { s with handlers := Function.update s.handlers c h }

/-- A client is connected; the identifier of a writer is not reused while a task holds it. -/
def connect (s : DaemonServer) (c : ℕ) : DaemonServer :=
  if c ∈ s.wsClients ∨ c ∈ s.sends.map Prod.fst then s
  else { s.goTo c .reading with
    wsClients := s.wsClients ++ [c], written := Function.update s.written c [] }

/-- The message `subscribe` of a client, up to the drain after the frame `subscribed`. -/
def subscribe (s : DaemonServer) (c : ℕ) (team : Str) (lastEventId : ℤ) : DaemonServer :=
  { (s.write c (.subscribed team lastEventId)).goTo c (.subscribing team lastEventId) with
    wsSubscriptions := setItem c team s.wsSubscriptions }

/-- The loop over the missed events, up to the next drain. -/
def replay (s : DaemonServer) (c : ℕ) : List Event → DaemonServer
  | [] => s.goTo c .reading
  | e :: missed => (s.write c (.event e)).goTo c (.replaying missed)

def resume (s : DaemonServer) (c : ℕ) : DaemonServer :=
  match s.handlers c with
  | .reading => s
  | .subscribing team lastEventId => s.replay c (s.eventsSince lastEventId team)
  | .replaying missed => s.replay c missed

def channel (data : EventData) (team : Option Str) : Str :=
  team.getD (data.team.getD "default")

/-- `_broadcast_event`, up to the start of its tasks. -/
def broadcastEvent (s : DaemonServer) (type : Str) (data : EventData) (team : Option Str) :
    DaemonServer :=
  let e := s.nextEvent type data (channel data team)
  let targets := s.wsClients.filter fun c =>
    s.wsSubscriptions.lookup c = some (channel data team)
  { s.appendEvent type data (channel data team) with
    sends := s.sends ++ targets.map fun c => (c, e)
    broadcasts := s.broadcasts ++ [e] }

theorem eventLog_broadcastEvent (s : DaemonServer) (type : Str) (data : EventData)
    (team : Option Str) : (s.broadcastEvent type data team).eventLog =
      (s.appendEvent type data (channel data team)).eventLog := by
  rw [broadcastEvent]

/-- The first task of a broadcast writes its frame. -/
def send (s : DaemonServer) : DaemonServer :=
  match s.sends with
  | [] => s
  | (c, e) :: sends =>
    if c ∈ s.wsClients then { s.write c (.event e) with sends }
    else { s with sends }

def disconnect (s : DaemonServer) (c : ℕ) : DaemonServer :=
  { s with wsClients := s.wsClients.filter (· ≠ c), wsSubscriptions := pop c s.wsSubscriptions }

end DaemonServer

/-! ### Steps -/

/-- A step: the feed of the sessions mirrors its events into the ring buffer without a broadcast. -/
inductive Act
  | connect (c : ℕ)
  | subscribe (c : ℕ) (team : Str) (lastEventId : ℤ)
  | resume (c : ℕ)
  | broadcast (type : Str) (data : EventData) (team : Option Str)
  | mirror (data : EventData) (team : Str)
  | send
  | disconnect (c : ℕ)

/-- A step of the server; a handler goes on while its client is connected. -/
def act : Act → DaemonServer → Unit × DaemonServer
  | .connect c, s => ((), s.connect c)
  | .subscribe c team lastEventId, s =>
    match s.handlers c with
    | .reading => ((), if c ∈ s.wsClients then s.subscribe c team lastEventId else s)
    | _ => ((), s)
  | .resume c, s => ((), if c ∈ s.wsClients then s.resume c else s)
  | .broadcast type data team, s => ((), s.broadcastEvent type data team)
  | .mirror data team, s => ((), s.appendEvent "lifecycle.event" data team)
  | .send, s => ((), s.send)
  | .disconnect c, s => ((), s.disconnect c)

/-! ### What a client gets -/

/-- A subscription of a client, with the events that it has got since. -/
structure Session where
  team : Str
  lastEventId : ℤ
  events : List Event := []

/-- An event that a client has not seen yet. -/
def Session.Wants (x : Session) (e : Event) : Prop := e.team = x.team ∧ x.lastEventId < e.eventId

instance (x : Session) : DecidablePred x.Wants := fun _ => inferInstanceAs (Decidable (_ ∧ _))

/-- A client gets a further event. -/
def Session.got (x : Session) (e : Event) : Session := { x with events := x.events ++ [e] }

def read : Option Session → Frame → Option Session
  | _, .subscribed team lastEventId => some ⟨team, lastEventId, []⟩
  | none, .event _ => none
  | some x, .event e => some (x.got e)

def DaemonServer.session (s : DaemonServer) (c : ℕ) : Option Session :=
  (s.written c).foldl read none

/-- The handler of a client has written all events, and no task has one for it. -/
def DaemonServer.Settled (s : DaemonServer) (c : ℕ) : Prop :=
  s.handlers c = .reading ∧ c ∉ s.sends.map Prod.fst

/-- The events that a client has not seen yet come in increasing order, so none comes twice, and
none is left out. -/
structure DaemonServer.Delivers (s : DaemonServer) (c : ℕ) (x : Session) : Prop where
  order : (x.events.filter x.Wants).Pairwise fun e e' => e.eventId < e'.eventId
  all : s.Settled c → ∀ e ∈ s.broadcasts, x.Wants e → e ∈ x.events

/-- Every client that has subscribed gets the events it wants. -/
def DaemonServer.Lawful (s : DaemonServer) : Prop :=
  ∀ c ∈ s.wsClients, ∀ x, s.session c = some x → s.Delivers c x

/-! ### Conditions on a step -/

/-- The ring buffer still has the events that a client needs when they are replayed. -/
def Act.Kept (a : Act) (s : DaemonServer) : Prop :=
  match a with
  | .resume c => ∀ team lastEventId, s.handlers c = .subscribing team lastEventId →
      ∀ e ∈ s.broadcasts, e.team = team → lastEventId < e.eventId → e ∈ s.eventLog
  | _ => True

/-- A step between the replay of a client and its live events. An event that the client wants is
broadcast to its channel exactly if the client is not about to replay the ring buffer, and none is
written before the events that are left to replay, or before those of a further subscription. -/
def Act.Apart (a : Act) (s : DaemonServer) : Prop :=
  match a with
  | .subscribe c team lastEventId =>
    ∀ e, (c, e) ∈ s.sends → e.team = team → ¬ lastEventId < e.eventId
  | .broadcast type data team =>
    ∀ c ∈ s.wsClients, ∀ x, s.session c = some x →
      x.Wants (s.nextEvent type data (DaemonServer.channel data team)) →
        (DaemonServer.channel data team = x.team ↔ ∀ t k, s.handlers c ≠ .subscribing t k)
  | .send =>
    ∀ c e, s.sends.head? = some (c, e) → ∀ x, s.session c = some x → x.Wants e →
      ∀ missed, s.handlers c = .replaying missed → missed = []
  | _ => True

end AgentStudio.TeamEvents

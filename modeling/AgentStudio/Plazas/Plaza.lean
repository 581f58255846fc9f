import AgentStudio.Library.Dict
import AgentStudio.Library.Machine
import AgentStudio.Library.Text
import Mathlib.Data.List.Sort

/-!
# The plaza

The broadcast log of `agent_runtime/plaza.py` over the tables `plaza_channels` and
`plaza_messages` of `agent_runtime/persistence.py`. A `Plaza` is the cache in memory, a `Store`
the tables. An operation changes the cache and then writes to the store; a message goes to the
cache always, but to the store only if no row has its id or its hash (`INSERT OR IGNORE`).
`load` builds a new plaza from a store.

`Outside` is what a plaza gets from outside: the readings of the clock, the ids of `uuid4`, the
hash function, the order of a Python `set`, and the characters that `\w` matches. Rows stand in
the order in which they were inserted, and `load` takes the order in which the database scans
them as an argument, since `ORDER BY ts` leaves it open between rows of the same time.
-/

namespace AgentStudio.Plazas

open PyText PyDict

/-! ### Messages and channels -/

inductive Metadata where
  | empty
  | designateSpeaker (designated : Str)
  | humanBreakIn (clearedPending : ℕ)
deriving DecidableEq

/-- `PlazaMessage`. -/
structure Message where
  id : Str
  channel : Str
  sender : Str
  content : Str
  mentions : List Str
  roundNumber : ℕ
  timestamp : ℤ
  metadata : Metadata
deriving DecidableEq

/-- `PlazaChannel`. -/
structure Channel where
  name : Str
  participants : List Str
  maxRounds : ℤ
  currentRound : ℕ
  pendingQueue : List Message
  isSuspended : Bool
deriving DecidableEq

structure Outside where
  clock : ℕ → ℤ
  draw : ℕ → Str
  sha256 : Str → Str
  listSet : List Str → List Str
  isWord : Char → Bool
  clock_pos : ∀ n, 0 < clock n
  draw_ne_nil : ∀ n, draw n ≠ []
  isWord_at : isWord '@' = false

/-! ### The store -/

/-- A row of `plaza_channels`. -/
structure ChannelRow where
  participants : List Str
  maxRounds : ℤ
  currentRound : ℕ
  suspended : Bool
deriving DecidableEq

structure Payload where
  content : Str
  mentions : List Str
  roundNumber : ℕ
  metadata : Metadata
deriving DecidableEq

/-- A row of `plaza_messages`. -/
structure MessageRow where
  messageId : Str
  channel : Str
  sender : Str
  ts : ℤ
  payload : Payload
  hash : Str
deriving DecidableEq

/-- The order of `ORDER BY ts ASC`. -/
def ByTs (a b : MessageRow) : Prop := a.ts ≤ b.ts

instance : DecidableRel ByTs := fun _ _ => inferInstanceAs (Decidable (_ ≤ _))

instance : Std.Total ByTs := ⟨fun a b => Int.le_total a.ts b.ts⟩

instance : IsTrans MessageRow ByTs := ⟨fun _ _ _ => Int.le_trans⟩

structure Store where
  channels : List (Str × ChannelRow)
  messages : List MessageRow

namespace Store

variable (st : Store)

/-- `save_plaza_channel`. -/
def savePlazaChannel (name : Str) (row : ChannelRow) : Store :=
  { st with channels := setItem name row st.channels }

/-- `delete_plaza_channel`. -/
def deletePlazaChannel (name : Str) : Store := { st with channels := pop name st.channels }

def Accepts (row : MessageRow) : Prop :=
  ∀ r ∈ st.messages, r.messageId ≠ row.messageId ∧ r.hash ≠ row.hash

instance (row : MessageRow) : Decidable (st.Accepts row) :=
  inferInstanceAs (Decidable (∀ _ ∈ _, _))

/-- `save_plaza_message`: `INSERT OR IGNORE`, with the id as primary key and a unique hash. -/
def savePlazaMessage (row : MessageRow) : Store :=
  if st.Accepts row then { st with messages := st.messages ++ [row] } else st

/-- `load_all_plaza_messages`, for the order in which the database scans rows. -/
def loadAllPlazaMessages (scan : List MessageRow → List MessageRow) : List MessageRow :=
  (scan st.messages).insertionSort ByTs

end Store

/-! ### The plaza -/

/-- `Plaza`: the cache. -/
structure Plaza where
  maxRounds : ℤ
  channels : List (Str × Channel)
  messages : List (Str × List Message)

/-- `get_messages`, without a limit. -/
def Plaza.getMessages (p : Plaza) (channel : Str) : List Message :=
  (p.messages.lookup channel).getD []

/-- `self._messages[channel].append(msg)`; a channel has an entry as long as it lives. -/
def Plaza.append (p : Plaza) (channel : Str) (m : Message) : Plaza :=
  { p with messages := setItem channel (p.getMessages channel ++ [m]) p.messages }

/-- `self._channels[channel.name] = channel`. -/
def Plaza.setChannel (p : Plaza) (ch : Channel) : Plaza :=
  { p with channels := setItem ch.name ch p.channels }

/-- A plaza with its store; `used` counts the readings of the clock and the ids that were
drawn. -/
structure State where
  plaza : Plaza
  store : Store
  used : ℕ

variable (o : Outside)

/-- `PlazaMessage.__post_init__`: an empty id is drawn, a time that is zero is read. -/
def Message.postInit (n : ℕ) (m : Message) : Message :=
  { m with
    id := if m.id = [] then o.draw n else m.id
    timestamp := if m.timestamp = 0 then o.clock n else m.timestamp }

/-- `MENTION_PATTERN.findall`: the nonempty words after an `@`. A word holds no `@`, so that the
search may go on right after it begins. -/
def parseMentions : Str → List Str
  | [] => []
  | c :: cs =>
    let word := cs.takeWhile o.isWord
    if c = '@' ∧ word ≠ [] then word :: parseMentions cs else parseMentions cs

/-- `_message_hash`. -/
def messageHash (channel sender content : Str) (roundNumber : ℕ) : Str :=
  o.sha256 (channel ++ '|' :: sender ++ '|' :: content ++ '|' :: Nat.toDigits 10 roundNumber)

def Message.row (m : Message) : MessageRow where
  messageId := m.id
  channel := m.channel
  sender := m.sender
  ts := m.timestamp
  payload := ⟨m.content, m.mentions, m.roundNumber, m.metadata⟩
  hash := messageHash o m.channel m.sender m.content m.roundNumber

def MessageRow.message (r : MessageRow) : Message where
  id := r.messageId
  channel := r.channel
  sender := r.sender
  content := r.payload.content
  mentions := r.payload.mentions
  roundNumber := r.payload.roundNumber
  timestamp := r.ts
  metadata := r.payload.metadata

def Channel.row (ch : Channel) : ChannelRow :=
  ⟨ch.participants, ch.maxRounds, ch.currentRound, ch.isSuspended⟩

def ChannelRow.channel (name : Str) (r : ChannelRow) : Channel where
  name := name
  participants := r.participants
  maxRounds := r.maxRounds
  currentRound := r.currentRound
  pendingQueue := []
  isSuspended := r.suspended

/-- `_load_from_store`: a new plaza over a store. -/
def load (scan : List MessageRow → List MessageRow) (maxRounds : ℤ) (n : ℕ) (st : Store) : Plaza :=
  let fresh : Plaza :=
    { maxRounds := maxRounds
      channels := st.channels.map fun r => (r.1, r.2.channel r.1)
      messages := st.channels.map fun r => (r.1, []) }
  (st.loadAllPlazaMessages scan).foldl
    (fun p r => p.append r.channel (r.message.postInit o n)) fresh

/-! ### The operations -/

inductive Op where
  | createChannel (name : Str) (participants : List Str)
  | deleteChannel (name : Str)
  | broadcast (channel sender content : Str) (mentions : List Str)
  | designateSpeaker (channel agentId : Str)
  | humanBreakIn (channel content : Str)

inductive Reply where
  | channel (ch : Channel)
  | deleted (found : Bool)
  | message (m : Message)
  | valueError (text : Str)

def channelNotFound (channel : Str) : Str := "Channel not found: " ++ channel

def channelIsSuspended (channel : Str) : Str := "Channel is suspended: " ++ channel

/-- `_persist_channel`. -/
def State.persistChannel (s : State) (ch : Channel) : State :=
  { s with store := s.store.savePlazaChannel ch.name ch.row }

/-- `_persist_message`. -/
def State.persistMessage (s : State) (m : Message) : State :=
  { s with store := s.store.savePlazaMessage (m.row o) }

/-- A message is appended to the log of its channel and stored, and the channel is stored. -/
def State.post (s : State) (ch : Channel) (m : Message) : State :=
  let s := { s with plaza := (s.plaza.setChannel ch).append ch.name m, used := s.used + 1 }
  (s.persistMessage o m).persistChannel ch

/-- The channel is suspended if the circuit breaker trips. -/
def State.checkBreaker (s : State) (ch : Channel) : State :=
  if ch.maxRounds ≤ ch.currentRound then
    let ch := { ch with isSuspended := true }
    { s with plaza := s.plaza.setChannel ch }.persistChannel ch
  else s

/-- `create_channel`. -/
def createChannel (name : Str) (participants : List Str) (s : State) : Reply × State :=
  match s.plaza.channels.lookup name with
  | some ch => (.channel ch, s)
  | none =>
    let ch : Channel := ⟨name, participants, s.plaza.maxRounds, 0, [], false⟩
    let plaza := s.plaza.setChannel ch
    let plaza := { plaza with messages := setItem name [] plaza.messages }
    (.channel ch, { s with plaza }.persistChannel ch)

/-- `delete_channel`. -/
def deleteChannel (name : Str) (s : State) : Reply × State :=
  match s.plaza.channels.lookup name with
  | none => (.deleted false, s)
  | some _ =>
    (.deleted true,
      { s with
        plaza := { s.plaza with
          channels := pop name s.plaza.channels
          messages := pop name s.plaza.messages }
        store := s.store.deletePlazaChannel name })

def effectiveMentions (ch : Channel) (content : Str) (mentions : List Str) : List Str :=
  (o.listSet (mentions ++ parseMentions o content)).filter fun m =>
    m ∈ ch.participants ∨ m = "human"

def broadcastMessage (ch : Channel) (sender content : Str) (mentions : List Str) (n : ℕ) :
    Message :=
  Message.postInit o n
    ⟨[], ch.name, sender, content, effectiveMentions o ch content mentions, ch.currentRound + 1, 0,
      .empty⟩

def designateMessage (ch : Channel) (agentId : Str) (n : ℕ) : Message :=
  Message.postInit o n
    ⟨[], ch.name, "supervisor", "Designated speaker: @" ++ agentId, [agentId],
      ch.currentRound + 1, 0, .designateSpeaker agentId⟩

def breakInMessage (ch : Channel) (content : Str) (n : ℕ) : Message :=
  Message.postInit o n
    ⟨[], ch.name, "human", content, [], 0, 0, .humanBreakIn ch.pendingQueue.length⟩

/-- The channel in its next round, with a message that waits in the queue. -/
def Channel.nextRound (ch : Channel) (m : Message) : Channel :=
  { ch with currentRound := ch.currentRound + 1, pendingQueue := ch.pendingQueue ++ [m] }

def Channel.reopened (ch : Channel) : Channel :=
  { ch with pendingQueue := [], currentRound := 0, isSuspended := false }

/-- A round of a channel: its message is posted, and the circuit breaker is checked. -/
def State.round (s : State) (ch : Channel) (m : Message) : State :=
  (s.post o (ch.nextRound m) m).checkBreaker (ch.nextRound m)

/-- `broadcast`. -/
def broadcast (channel sender content : Str) (mentions : List Str) (s : State) : Reply × State :=
  match s.plaza.channels.lookup channel with
  | none => (.valueError (channelNotFound channel), s)
  | some ch =>
    if ch.isSuspended then (.valueError (channelIsSuspended channel), s)
    else
      let m := broadcastMessage o ch sender content mentions s.used
      (.message m, s.round o ch m)

/-- `designate_speaker`. -/
def designateSpeaker (channel agentId : Str) (s : State) : Reply × State :=
  match s.plaza.channels.lookup channel with
  | none => (.valueError (channelNotFound channel), s)
  | some ch =>
    if ch.isSuspended then (.valueError (channelIsSuspended channel), s)
    else
      let m := designateMessage o ch agentId s.used
      (.message m, s.round o ch m)

/-- `human_break_in`: the rounds of the channel begin again. -/
def humanBreakIn (channel content : Str) (s : State) : Reply × State :=
  match s.plaza.channels.lookup channel with
  | none => (.valueError (channelNotFound channel), s)
  | some ch =>
    let m := breakInMessage o ch content s.used
    (.message m, s.post o ch.reopened m)

def step : Op → State → Reply × State
  | .createChannel name participants => createChannel name participants
  | .deleteChannel name => deleteChannel name
  | .broadcast channel sender content mentions => broadcast o channel sender content mentions
  | .designateSpeaker channel agentId => designateSpeaker o channel agentId
  | .humanBreakIn channel content => humanBreakIn o channel content

/-- A plaza over a new store. -/
def State.init (maxRounds : ℤ) : State := ⟨⟨maxRounds, [], []⟩, ⟨[], []⟩, 0⟩

/-- The state that some operations reach over a new store. -/
def reached (maxRounds : ℤ) (ops : List Op) : State :=
  (Machine.run (step o) ops (State.init maxRounds)).2

end AgentStudio.Plazas

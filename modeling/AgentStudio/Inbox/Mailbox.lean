import AgentStudio.Library.Json
import AgentStudio.Library.Rows
import Mathlib.Data.List.Sort

/-!
# Roster, mailbox and the bodies of messages

The tables `roster` and `mailbox` of `agent_runtime/durable_roster.py`. Of a roster row the columns
are kept that the inbox consumer reads. A message is identified by its id, the primary key; a
message that is not acked has `acked_at = 0`, which is `none` here.

`send` inserts a message under a new id and raises without a sender or a recipient, or if the id is
taken; `inbox` reads the oldest messages of a recipient, `ack` marks one.

`submit_run` reads the body of a message with `dict(json.loads(body or "{}"))`, and falls back to
the body as it is on a `ValueError` only. An object is copied, and any sequence of pairs with
hashable first items becomes a dictionary; a number, a truth value, `null`, or a list with such an
element is a `TypeError`, which leaves `submit_run` (`runVariables`).

`jsonLoads` is `json.loads`. What the interpreter refuses of its own (a text nested too deep, an
integer with too many digits) is a parameter, `limit`. Three kinds of values that Python reads have
no counterpart in `Json`: `NaN`, the infinities and halves of surrogate pairs. A number and a
character stand for them (`standIns`), so that the same bodies are refused.
-/

namespace AgentStudio.Inbox

open PyText PyDict PyJson

/-- A row of `roster`. -/
structure Agent where
  agentId : Str
  graphId : Str
  autonomousInbox : Bool
deriving DecidableEq

/-- The table `roster`, in the order in which `list` returns it. -/
abbrev Roster := Rows.Table Agent.agentId

/-- A row of `mailbox`. Times are in microseconds. -/
structure Message where
  messageId : Str
  sender : Str
  recipient : Str
  team : Str
  kind : Str
  body : Str
  createdAt : ℕ
  ackedAt : Option ℕ
deriving DecidableEq

/-- The table `mailbox`. -/
abbrev Mailbox := Rows.Table Message.messageId

/-- The messages that have the same columns but for the time of the ack. -/
def Message.SameMail (a b : Message) : Prop := { a with ackedAt := b.ackedAt } = b

namespace Mailbox

/-- `send`: `none` where it raises. -/
def send (mb : Mailbox) (sender recipient body kind team messageId : Str) (now : ℕ) :
    Option Mailbox :=
  if sender = [] ∨ recipient = [] then none
  else if messageId ∈ mb.rows.map Message.messageId then none
  else some (mb.put ⟨messageId, sender, recipient, team, kind, body.take 20000, now, none⟩)

/-- `inbox`. -/
def inbox (mb : Mailbox) (recipient : Str) (unreadOnly : Bool) (limit : ℕ) : List Message :=
  ((mb.rows.filter fun m => decide (m.recipient = recipient) &&
    (!unreadOnly || m.ackedAt.isNone)).insertionSort fun a b =>
        a.createdAt ≤ b.createdAt).take limit

/-- The row after the `UPDATE` of `ack`. -/
def ackRow (recipient messageId : Str) (now : ℕ) (m : Message) : Message :=
  if m.messageId = messageId ∧ m.recipient = recipient then { m with ackedAt := some now } else m

theorem messageId_ackRow (recipient messageId : Str) (now : ℕ) (m : Message) :
    (ackRow recipient messageId now m).messageId = m.messageId := by
  unfold ackRow
  split_ifs <;> rfl

/-- `ack`. -/
def ack (mb : Mailbox) (recipient messageId : Str) (now : ℕ) : Mailbox :=
  mb.update (ackRow recipient messageId now) (messageId_ackRow recipient messageId now)

variable {mb : Mailbox} {m : Message} {recipient : Str} {now : ℕ}

/-! ### Sending -/

/-- **What `send` does**: nothing, or the new message comes last. -/
theorem send_eq_some {sender body kind team messageId : Str} {mb' : Mailbox}
    (h : mb.send sender recipient body kind team messageId now = some mb') :
    sender ≠ [] ∧ recipient ≠ [] ∧ messageId ∉ mb.rows.map Message.messageId ∧ mb'.rows = mb.rows ++
      [⟨messageId, sender, recipient, team, kind, body.take 20000, now, none⟩] := by
  unfold send at h
  split_ifs at h with hempty htaken
  rw [not_or] at hempty
  refine ⟨hempty.1, hempty.2, htaken, ?_⟩
  rw [← Option.some.inj h]
  exact Rows.Table.rows_put htaken

/-! ### Reading -/

theorem mem_inbox {limit : ℕ} (h : m ∈ mb.inbox recipient true limit) :
    m ∈ mb.rows ∧ m.recipient = recipient ∧ m.ackedAt = none := by
  have hm := (List.mem_insertionSort _).mp (List.mem_of_mem_take h)
  rw [List.mem_filter, Bool.and_eq_true, decide_eq_true_eq, Bool.not_true, Bool.false_or,
    Option.isNone_iff_eq_none] at hm
  exact hm

theorem nodup_inbox (limit : ℕ) :
    ((mb.inbox recipient true limit).map Message.messageId).Nodup := by
  refine List.Nodup.sublist ((List.take_sublist _ _).map _) ?_
  refine ((List.perm_insertionSort _ _).map _).nodup_iff.mpr ?_
  exact mb.nodup.sublist (List.filter_sublist.map _)

/-! ### Acking -/

theorem ackRow_eq (messageId : Str) :
    ∃ ackedAt, ackRow recipient messageId now m = { m with ackedAt } := by
  unfold ackRow
  split_ifs
  · exact ⟨some now, rfl⟩
  · exact ⟨m.ackedAt, rfl⟩

theorem sameMail_ackRow (messageId : Str) : (ackRow recipient messageId now m).SameMail m := by
  obtain ⟨ackedAt, heq⟩ : ∃ ackedAt, ackRow recipient messageId now m = _ := ackRow_eq messageId
  rw [heq]
  rfl

end Mailbox

/-! ### Reading JSON -/

/-- The exceptions that matter to `submit_run`. -/
inductive BodyError where
  | value
  | type
  | recursion
deriving DecidableEq

/-- Where a reader stands: outside of string literals or inside, with characters to copy or to
skip. -/
inductive Place where
  | outside
  | inside
  | copying (n : ℕ)
  | skipping (n : ℕ) (inLiteral : Bool)

/-- The length of the constant that a text starts with. -/
def constant (s : Str) : Option ℕ :=
  (["NaN", "Infinity", "-Infinity"].map String.toList).find? (·.isPrefixOf s) |>.map List.length

/-- The number of the escape whose text after the backslash starts a text. -/
def escaped : Str → Option ℕ
  | 'u' :: a :: b :: c :: d :: _ => hex4 a b c d
  | _ => none

/-- The text starts with the first half of a surrogate pair, after the backslash. -/
def startsHigh (s : Str) : Bool := (escaped s).any fun n => 0xD800 ≤ n ∧ n < 0xDC00

/-- The text starts with the second half of a surrogate pair, after the backslash. -/
def startsLow (s : Str) : Bool := (escaped s).any fun n => 0xDC00 ≤ n ∧ n < 0xE000

/-- The text with a number for each constant, and the replacement character for each surrogate that
is not half of a pair. -/
def standIns : Place → Str → Str
  | _, [] => []
  | .outside, c :: r =>
    if c = '"' then c :: standIns .inside r
    else
      match constant (c :: r) with
      | some n => " 0 " ++ standIns (.skipping (n - 1) false) r
      | none => c :: standIns .outside r
  | .inside, c :: r =>
    if c = '"' then c :: standIns .outside r
    else if c = '\\' then
      if startsHigh r ∧ (r.drop 5).head? = some '\\' ∧ startsLow (r.drop 6) then
        c :: standIns (.copying 11) r
      else if startsHigh r ∨ startsLow r then "\\ufffd" ++ standIns (.skipping 5 true) r
      else c :: standIns (.copying 1) r
    else c :: standIns .inside r
  | .copying n, c :: r => c :: standIns (if n ≤ 1 then .inside else .copying (n - 1)) r
  | .skipping n inLiteral, _ :: r =>
    standIns (if n ≤ 1 then (if inLiteral then .inside else .outside)
      else .skipping (n - 1) inLiteral) r

/-- `json.loads`. -/
def jsonLoads (limit : Str → Option BodyError) (text : Str) : Except BodyError Json :=
  match limit text with
  | some e => .error e
  | none =>
    match loads (standIns .outside text) with
    | some v => .ok v
    | none => .error .value

/-! ### `dict(value)` -/

/-- A hashable JSON value, as far as keys are told apart: a truth value is a number. -/
inductive Key where
  | null
  | num (n : Number)
  | str (s : Str)
deriving DecidableEq

abbrev Variables := List (Key × Json)

/-- A value as a key; an unhashable value is a `TypeError`. -/
def toKey : Json → Except BodyError Key
  | .null => .ok .null
  | .bool b => .ok (.num (if b then 1 else 0))
  | .num n => .ok (.num n)
  | .str s => .ok (.str s)
  | .arr _ => .error .type
  | .obj _ => .error .type

/-- An element of the sequence that `dict` takes: a sequence of two. -/
def toPair : Json → Except BodyError (Key × Json)
  | .str [a, b] => .ok (.str [a], .str [b])
  | .str _ => .error .value
  | .arr [k, v] => (toKey k).map fun k => (k, v)
  | .arr _ => .error .value
  | .obj [(k, _), (l, _)] => .ok (.str k, .str l)
  | .obj _ => .error .value
  | _ => .error .type

/-- `dict(value)`. -/
def toDict : Json → Except BodyError Variables
  | .obj members => .ok (members.map fun m => (.str m.1, m.2))
  | .arr items => (items.mapM toPair).map ofPairs
  | .str s => (s.mapM fun c => toPair (.str [c])).map ofPairs
  | _ => .error .type

/-! ### The variables -/

/-- `d.setdefault(key, value)`. -/
def setDefault (key : Key) (value : Json) (d : Variables) : Variables :=
  if (d.lookup key).isSome then d else setItem key value d

/-- The variables of the run for a message, in `submit_run`. -/
def runVariables (limit : Str → Option BodyError) (m : Message) : Except BodyError Variables :=
  let body : Json := .str m.body
  let complete (d : Variables) : Variables :=
    setItem (.str "team") (.str m.team)
      (setItem (.str "sender") (.str m.sender) (setDefault (.str "input") body d))
  match (jsonLoads limit (if m.body = [] then "{}" else m.body)).bind toDict with
  | .ok d => .ok (complete d)
  | .error .value => .ok (complete [(.str "input", body)])
  | .error e => .error e

/-- The bodies that `submit_run` turns into variables. -/
def dispatchable (limit : Str → Option BodyError) (body : Str) : Bool :=
  match (jsonLoads limit (if body = [] then "{}" else body)).bind toDict with
  | .ok _ => true
  | .error e => e = .value

theorem exists_runVariables_iff {limit : Str → Option BodyError} {m : Message} :
    (∃ d, runVariables limit m = .ok d) ↔ dispatchable limit m.body = true := by
  unfold runVariables dispatchable
  simp only
  rcases (jsonLoads limit (if m.body = [] then "{}" else m.body)).bind toDict with e | d
  · cases e <;> simp
  · simp

end AgentStudio.Inbox

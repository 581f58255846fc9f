import Mathlib.Logic.Function.Basic
import AgentStudio.Library.Json
import AgentStudio.Library.Machine

/-!
# Managed runs

A run of a graph that outlives the connections that read it (`agent_runtime/run_registry.py`, and
`v1_execute_graph_stream` with `_execute_managed_run` of `agent_runtime/api_server.py`). The task of
the run publishes frames: a frame gets the next number and goes into a buffer, whose head is dropped
when it grows too long, and into a queue (`ManagedRun.publish`).

The readers of a run are the generators of its responses. A reader goes through the buffer by
position; at its end it waits for the queue, which all readers share. `Act` is one step of the task,
of a reader up to its next frame, or a request; `published` are all frames so far.
-/

namespace AgentStudio.ManagedRuns

open PyText PyJson

/-! ### Frames -/

/-- What a frame is; the events of a graph have types of their own. -/
inductive FrameType
  | event (type : Str)
  | cancelled
  | error
  | done
deriving DecidableEq

structure Frame where
  type : FrameType
  fields : List (Str × Json) := []
  seq : ℕ

structure Event where
  type : Str
  nodeId : Str := []
  fields : List (Str × Json) := []

/-! ### The run -/

/-- The task of a run: it has not started, it has, or it is done. -/
inductive TaskState
  | pending
  | running
  | over
deriving DecidableEq

/-- `ManagedRun`, with the frames that were published. -/
structure ManagedRun where
  stopAfter : Str := []
  buffer : List Frame := []
  nextSeq : ℕ := 0
  queue : List Frame := []
  task : TaskState := .pending
  cancelRequested : Bool := false
  cancelled : Bool := false
  done : Bool := false
  published : List Frame := []

/-- `MAX_BUFFER`. -/
def maxBuffer : ℕ := 5000

namespace ManagedRun

/-- `publish`. -/
def publish (run : ManagedRun) (type : FrameType) (fields : List (Str × Json)) : ManagedRun :=
  let frame : Frame := ⟨type, fields, run.nextSeq⟩
  let buffer := run.buffer ++ [frame]
  { run with
    nextSeq := run.nextSeq + 1
    buffer := if maxBuffer < buffer.length then buffer.tail else buffer
    queue := run.queue ++ [frame]
    published := run.published ++ [frame] }

/-- The `finally` of `_execute_managed_run`. -/
def finish (run : ManagedRun) : ManagedRun :=
  let run := { run with done := true, task := .over }
  if run.buffer.getLast?.map Frame.type = some .done then run else run.publish .done []

/-- `stop_types`. -/
def stopTypes : List Str :=
  ["result", "tool_result", "end", "error", "verify"]

def stopsAt (run : ManagedRun) (e : Event) : Prop :=
  run.stopAfter ≠ [] ∧ e.nodeId = run.stopAfter ∧ e.type ∈ stopTypes

instance (run : ManagedRun) (e : Event) : Decidable (run.stopsAt e) :=
  inferInstanceAs (Decidable (_ ∧ _))

/-- `RunRegistry.cancel`. -/
def cancel (run : ManagedRun) : ManagedRun :=
  { run with cancelled := true, cancelRequested := run.cancelRequested || run.task ≠ .over }

end ManagedRun

/-- How the task of a run goes on: the stream has an event, it ends, it fails, or it is cancelled.
-/
inductive Turn
  | event (e : Event)
  | ended
  | failed (message : Str)
  | interrupted

/-- `_execute_managed_run` up to its next `await`. A task that is cancelled before its first step
does nothing of its body. -/
def ManagedRun.turn (run : ManagedRun) (t : Turn) : ManagedRun :=
  match run.task with
  | .pending => { run with task := if run.cancelRequested then .over else .running }
  | .over => run
  | .running =>
    match t with
    | .event e =>
      if run.cancelled then run.finish
      else
        let run := run.publish (.event e.type) e.fields
        if run.stopsAt e then run.finish else run
    | .ended => run.finish
    | .failed message => (run.publish .error [("message", .str message)]).finish
    | .interrupted =>
      (ManagedRun.publish { run with cancelled := true } .cancelled
        [("message", .str "run canceled")]).finish

/-! ### The readers -/

/-- Where a reader is: it looks at the buffer, it waits for the queue, its stream has ended, or it
has failed. -/
inductive Phase
  | reading
  | waiting
  | ended
  | failed
deriving DecidableEq

inductive Out
  | runStarted
  | frame (f : Frame) (replay : Bool)
  | keepalive

/-- A reader: `resume` is the `last_seq` of a reader that resumes the run. -/
structure Reader where
  resume : Option ℤ := none
  nextSeq : ℤ
  phase : Phase := .reading
  sent : List Out

/-- The start of `event_generator`. -/
def Reader.start (resume : Option ℤ) : Reader where
  resume := resume
  nextSeq := resume.elim 0 (· + 1)
  sent := if resume.isSome then [] else [.runStarted]

/-- `skip_below`. -/
def Reader.skipBelow (x : Reader) : ℤ := x.resume.getD (-1)

/-- `buffer[i]`: a negative index counts from the end. -/
def frameAt (buffer : List Frame) (i : ℤ) : Option Frame :=
  let i := if i < 0 then i + buffer.length else i
  if i < 0 then none else buffer[i.toNat]?

/-- A frame is sent unless it is to be skipped; the stream ends with `done`. -/
def Reader.get (x : Reader) (f : Frame) : Reader :=
  if f.seq ≤ x.skipBelow then { x with phase := .reading }
  else { x with
    sent := x.sent ++ [.frame f x.resume.isSome]
    phase := if f.type = .done then .ended else .reading }

/-- The run is done, and the reader is at the end of the buffer. -/
def ManagedRun.exhausted (run : ManagedRun) (x : Reader) : Prop :=
  run.done = true ∧ run.buffer.length ≤ x.nextSeq

instance (run : ManagedRun) (x : Reader) : Decidable (run.exhausted x) :=
  inferInstanceAs (Decidable (_ ∧ _))

def ManagedRun.read (run : ManagedRun) (x : Reader) : Reader :=
  if x.nextSeq < run.buffer.length then
    match frameAt run.buffer x.nextSeq with
    | none => { x with phase := .failed }
    | some f => { x with nextSeq := x.nextSeq + 1 }.get f
  else if run.exhausted x then { x with phase := .ended }
  else { x with phase := .waiting }

/-- A reader has waited for fifteen seconds. -/
def ManagedRun.timeout (run : ManagedRun) (x : Reader) : Reader :=
  if run.exhausted x then { x with phase := .ended }
  else { x with phase := .reading, sent := x.sent ++ [.keepalive] }

/-! ### Steps -/

structure State where
  run : ManagedRun := {}
  readers : ℕ → Option Reader := fun _ => none

/-- A step: a reader opens or resumes the run, goes on, has waited too long or closes; the task goes
on; the run is cancelled. -/
inductive Act
  | connect (r : ℕ) (resume : Option ℤ)
  | turn (r : ℕ)
  | timeout (r : ℕ)
  | disconnect (r : ℕ)
  | task (t : Turn)
  | cancel

namespace State

def set (s : State) (r : ℕ) (x : Option Reader) : State :=
  { s with readers := Function.update s.readers r x }

/-- A reader goes on, up to its next frame. -/
def go (s : State) (r : ℕ) (x : Reader) : State :=
  match x.phase with
  | .reading => s.set r (some (s.run.read x))
  | .waiting =>
    match s.run.queue with
    | [] => s.set r (some (s.run.timeout x))
    | f :: queue => State.set { s with run := { s.run with queue } } r (some (x.get f))
  | _ => s

end State

def act : Act → State → Unit × State
  | .connect r resume, s => ((), if (s.readers r).isSome then s else s.set r (some (.start resume)))
  | .turn r, s => ((), (s.readers r).elim s (s.go r))
  | .timeout r, s => ((), (s.readers r).elim s fun x =>
      if x.phase = .waiting then s.set r (some (s.run.timeout x)) else s)
  | .disconnect r, s => ((), s.set r none)
  | .task t, s => ((), { s with run := s.run.turn t })
  | .cancel, s => ((), { s with run := s.run.cancel })

/-! ### What a reader gets -/

def Reader.frames (x : Reader) : List Frame :=
  x.sent.filterMap fun
    | .frame f _ => some f
    | _ => none

def ManagedRun.wanted (run : ManagedRun) (x : Reader) : List Frame :=
  run.published.filter fun f => x.skipBelow < f.seq

def Act.isTurn (r : ℕ) : Act → Bool
  | .turn r' => r' = r
  | _ => false

def Act.Stays (r : ℕ) (a : Act) (_ : State) : Prop := a ≠ .disconnect r

/-- A reader sends the wanted frames in order, each of them once; its stream ends when it has sent
all frames of a run that is done; and once the task is over it ends after some turns of the reader.
-/
structure State.Delivers (s : State) (r : ℕ) (x : Reader) : Prop where
  order : x.frames <+: s.run.wanted x
  complete : x.phase = .ended → s.run.done = true ∧ x.frames = s.run.wanted x
  alive : x.phase ≠ .failed
  ends : s.run.task = .over → ∃ n, ∀ acts : List Act, Machine.Along act (Act.Stays r) acts s →
    n ≤ acts.countP (Act.isTurn r) → ∃ y, (Machine.run act acts s).2.readers r = some y ∧
      y.phase = .ended

/-- Every reader gets the frames that it is to get. -/
def State.Lawful (s : State) : Prop := ∀ r x, s.readers r = some x → s.Delivers r x

/-! ### The condition -/

def Reader.next (x : Reader) : ℤ := x.skipBelow + 1 + x.frames.length

/-- Nothing is left for a reader, or the buffer still has every frame. -/
def ManagedRun.Whole (run : ManagedRun) (x : Reader) : Prop :=
  x.next < run.nextSeq → run.buffer.length = run.nextSeq

/-- A step of a run whose readers get what they should. No reader resumes at a negative position. A
reader that has frames left reads the buffer, or ends with it, as long as nothing has been dropped
from it. From the queue a reader takes frames that it skips, or its next frame if this ends the run
or if the position of the reader is beyond every buffer. The run is not cancelled before it starts.
-/
def Act.Regular (a : Act) (s : State) : Prop :=
  match a with
  | .connect _ resume => ∀ lastSeq, resume = some lastSeq → -1 ≤ lastSeq
  | .turn r => ∀ x, s.readers r = some x →
    (x.phase = .reading → x.nextSeq < s.run.buffer.length ∨ s.run.done = true → s.run.Whole x) ∧
    (x.phase = .waiting → s.run.queue = [] → s.run.done = true → s.run.Whole x) ∧
    (x.phase = .waiting → ∀ f, s.run.queue.head? = some f → x.skipBelow < f.seq →
      f.seq = x.next ∧ (f.type = .done ∨ (maxBuffer : ℤ) ≤ x.nextSeq))
  | .timeout r => ∀ x, s.readers r = some x → s.run.done = true → s.run.Whole x
  | .cancel => s.run.task ≠ .pending
  | _ => True

end AgentStudio.ManagedRuns

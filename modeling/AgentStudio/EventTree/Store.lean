import AgentStudio.Library.Ancestry
import AgentStudio.Library.Machine
import AgentStudio.Library.Rows
import AgentStudio.Library.Text
import Mathlib.Data.List.MinMax
import Mathlib.Data.List.Sort

/-!
# The event tree store

`EventTreeStore` of `agent_runtime/event_tree.py`: the event log of the runs, the registered runs
and the branches, each a table with its primary key. An event is its type, its id, the id of its
parent and the data that the store carries along (`δ`); with each event the log keeps the messages
of the conversation at that time (`μ`). Event and messages are stored as JSON texts and read back
as they were written.

`appendEvent` skips the frames of single tokens and numbers the others run by run. `pathToRoot`
walks from an event up along the parent ids, as far as they are events of the same run.
`registerRun` gives a run the root of its parent, `forkRun` copies a path into a new run and
enters a branch, and `activateBranch` moves the mark of the active branch within the family of a
root. `resolveRun` finds a run by its id or by the task that it was started for.

The ids that the code draws (`uuid4().hex`) and the readings of the clock are arguments. The
column `created_at` of the event log is not read by anything and left out.
-/

namespace AgentStudio.EventTree

open PyText Ancestry

/-! ### The tables -/

/-- An event as the runtime reports it; an id of `[]` is none. -/
structure Event (δ : Type) where
  type : Str
  eventId : Str
  parentId : Str
  data : δ
deriving DecidableEq

/-- A row of `run_event_log`. -/
structure EventRow (δ μ : Type) where
  runId : Str
  eventId : Str
  parentId : Str
  seq : ℕ
  event : Event δ
  messages : List μ
deriving DecidableEq

/-- The primary key of `run_event_log`. -/
def EventRow.key {δ μ : Type} (r : EventRow δ μ) : Str × Str := (r.runId, r.eventId)

/-- A row of `run_meta`. -/
structure RunMeta where
  runId : Str
  graphId : Str
  sessionId : Str
  taskId : Str
  team : Str
  rootRunId : Str
  parentRunId : Str
  forkEventId : Str
  createdAt : ℕ
deriving DecidableEq

/-- A row of `run_branches`. -/
structure Branch where
  branchId : Str
  runId : Str
  rootRunId : Str
  parentRunId : Str
  forkEventId : Str
  title : Str
  active : Bool
  createdAt : ℕ
deriving DecidableEq

structure EventTreeStore (δ μ : Type) where
  runEventLog : Rows.Table (EventRow.key (δ := δ) (μ := μ))
  runMeta : Rows.Table RunMeta.runId
  runBranches : Rows.Table Branch.branchId

/-- `_SKIPPED_EVENT_TYPES`. -/
def skippedEventTypes : List Str := ["token", "thinking_token"]

/-- `s or default` for strings. -/
def orElse (s default : Str) : Str := if s = [] then default else s

def link (s : Str) : Option Str := if s = [] then none else some s

/-- The id that an event without one is given: `f"evt-{hex}"`. -/
def evtId (hex : Str) : Str := "evt-" ++ hex

/-- The id of a forked run: `f"exec_{hex}"`. -/
def execId (hex : Str) : Str := "exec_" ++ hex

namespace EventTreeStore

variable {δ μ : Type} (s : EventTreeStore δ μ)

/-- The tables after `_ensure_tables` on a new database. -/
def empty : EventTreeStore δ μ := ⟨.empty, .empty, .empty⟩

/-! ### Runs -/

/-- `get_run_meta`. -/
def getRunMeta (runId : Str) : Option RunMeta := s.runMeta.find runId

/-- The root that `register_run` stores. -/
def rootFor (m : RunMeta) : Str :=
  if m.rootRunId ≠ [] then m.rootRunId
  else if m.parentRunId ≠ [] then
    orElse (((s.getRunMeta m.parentRunId).map RunMeta.rootRunId).getD []) m.parentRunId
  else m.runId

/-- `register_run`; the arguments are given as the row that they ask for, `createdAt` is the
clock. -/
def registerRun (m : RunMeta) : EventTreeStore δ μ :=
  { s with runMeta := s.runMeta.put { m with rootRunId := s.rootFor m } }

/-- `resolve_run`: the run with this id, or else the latest one of the task with this id. -/
def resolveRun (runId : Str) : Option RunMeta :=
  match s.getRunMeta runId with
  | some m => some m
  | none => (s.runMeta.rows.filter (·.taskId = runId)).argmax RunMeta.createdAt

/-! ### Events -/

def rowsOf (runId : Str) : List (EventRow δ μ) := s.runEventLog.rows.filter (·.runId = runId)

/-- `SELECT COALESCE(MAX(seq), -1) + 1`. -/
def nextSeq (runId : Str) : ℕ := (((s.rowsOf runId).map EventRow.seq).max?.map (· + 1)).getD 0

/-- The row that `append_event` writes. -/
def eventRow (runId : Str) (event : Event δ) (messages : List μ) (hex : Str) : EventRow δ μ where
  runId := runId
  eventId := orElse event.eventId (evtId hex)
  parentId := event.parentId
  seq := s.nextSeq runId
  event := { event with eventId := orElse event.eventId (evtId hex) }
  messages := messages

/-- `append_event`. -/
def appendEvent (runId : Str) (event : Event δ) (messages : List μ) (hex : Str) :
    EventTreeStore δ μ :=
  if event.type ∈ skippedEventTypes then s
  else { s with runEventLog := s.runEventLog.put (s.eventRow runId event messages hex) }

/-- `list_events`: `ORDER BY seq`. -/
def listEvents (runId : Str) : List (Event δ) :=
  ((s.rowsOf runId).insertionSort (·.seq ≤ ·.seq)).map EventRow.event

/-- The dictionary `by_id` of a list of events: a later event takes the place of an earlier one
with its id. -/
def byId (events : List (Event δ)) (eventId : Str) : Option (Event δ) :=
  events.reverse.find? (·.eventId = eventId)

/-- `path_to_root`. -/
def pathToRoot (runId eventId : Str) : Option (List (Event δ)) :=
  let events := s.listEvents runId
  if byId events eventId = none then none
  else some (climb (byId events) (link ·.parentId) events.length [] (link eventId)).reverse

/-- `messages_at`. -/
def messagesAt (runId eventId : Str) : Option (List μ) :=
  if eventId ≠ [] then (s.runEventLog.find (runId, eventId)).map EventRow.messages
  else ((s.rowsOf runId).argmax EventRow.seq).map EventRow.messages

/-- `_messages_json_for`. -/
def messagesJsonFor (runId eventId : Str) : List μ :=
  ((s.runEventLog.find (runId, eventId)).map EventRow.messages).getD []

/-! ### Forks and branches -/

/-- The row that `fork_run` writes for an event of the path. -/
def copyRow (source new : Str) (hex : ℕ → Str) (ev : Event δ) (seq : ℕ) : EventRow δ μ where
  runId := new
  eventId := orElse ev.eventId (evtId (hex seq))
  parentId := ev.parentId
  seq := seq
  event := ev
  messages := s.messagesJsonFor source (orElse ev.eventId (evtId (hex seq)))

/-- The body of the loop of `fork_run` over the path. -/
def copyEvent (source new : Str) (hex : ℕ → Str) (s : EventTreeStore δ μ) (e : Event δ × ℕ) :
    EventTreeStore δ μ :=
  { s with runEventLog := s.runEventLog.put (s.copyRow source new hex e.1 e.2) }

/-- The loop of `fork_run` over the path. -/
def copyPath (source new : Str) (hex : ℕ → Str) (path : List (Event δ)) : EventTreeStore δ μ :=
  path.zipIdx.foldl (copyEvent source new hex) s

/-- The events that `fork_run` copies and the id of the last of them: the path to the given event,
or all events if none is given. -/
def forkPath (source atEventId : Str) : Option (List (Event δ) × Str) :=
  let events := s.listEvents source
  match events.getLast? with
  | none => none
  | some last =>
    if atEventId ≠ [] then (s.pathToRoot source atEventId).map (·, atEventId)
    else some (events, last.eventId)

/-- What the caller chooses of a fork, and what is drawn and read while it runs. -/
structure ForkCall where
  runId : Str
  atEventId : Str
  title : Str
  hex : Str
  eventHex : ℕ → Str
  now : ℕ
  registeredAt : ℕ

def ForkCall.newRun (c : ForkCall) : Str := execId c.hex

/-- What `fork_run` returns. -/
structure Fork (μ : Type) where
  runId : Str
  branchId : Str
  parentRunId : Str
  rootRunId : Str
  forkEventId : Str
  title : Str
  eventsCopied : ℕ
  messages : List μ
  graphId : Str
deriving DecidableEq

/-- The row of `run_meta` that `fork_run` asks for. -/
def ForkCall.metaRow (c : ForkCall) (m : RunMeta) (at' : Str) : RunMeta where
  runId := c.newRun
  graphId := m.graphId
  sessionId := m.sessionId
  taskId := []
  team := m.team
  rootRunId := orElse m.rootRunId m.runId
  parentRunId := m.runId
  forkEventId := at'
  createdAt := c.registeredAt

/-- `title or f"fork of {source_run} at {at_event_id[:12]}"`. -/
def ForkCall.branchTitle (c : ForkCall) (m : RunMeta) (at' : Str) : Str :=
  orElse c.title ("fork of " ++ m.runId ++ " at " ++ at'.take 12)

/-- The row of `run_branches` that `fork_run` writes. -/
def ForkCall.branchRow (c : ForkCall) (m : RunMeta) (at' : Str) : Branch where
  branchId := c.newRun
  runId := c.newRun
  rootRunId := orElse m.rootRunId m.runId
  parentRunId := m.runId
  forkEventId := at'
  title := c.branchTitle m at'
  active := false
  createdAt := c.now

/-- The tables after the transactions of `fork_run`. -/
def forkTables (c : ForkCall) (m : RunMeta) (path : List (Event δ)) (at' : Str) :
    EventTreeStore δ μ :=
  let s := (s.copyPath m.runId c.newRun c.eventHex path).registerRun (c.metaRow m at')
  { s with runBranches := s.runBranches.put (c.branchRow m at') }

/-- What `fork_run` returns of a fork. -/
def forkResult (c : ForkCall) (m : RunMeta) (path : List (Event δ)) (at' : Str) : Fork μ where
  runId := c.newRun
  branchId := c.newRun
  parentRunId := m.runId
  rootRunId := orElse m.rootRunId m.runId
  forkEventId := at'
  title := c.branchTitle m at'
  eventsCopied := path.length
  messages := (s.messagesAt m.runId at').getD []
  graphId := m.graphId

/-- `fork_run`. -/
def forkRun (c : ForkCall) : Option (Fork μ) × EventTreeStore δ μ :=
  match s.resolveRun c.runId with
  | none => (none, s)
  | some m =>
    match s.forkPath m.runId c.atEventId with
    | none => (none, s)
    | some (path, at') =>
      let t := s.forkTables c m path at'
      (some (t.forkResult c m path at'), t)

/-- What `list_branches` returns. -/
structure Listing where
  rootRunId : Str
  branches : List Branch
  activeBranchId : Str
deriving DecidableEq

/-- The branches of a family, `ORDER BY created_at`. -/
def family (root : Str) : List Branch :=
  (s.runBranches.rows.filter (·.rootRunId = root)).insertionSort (·.createdAt ≤ ·.createdAt)

/-- `list_branches`. -/
def listBranches (runId : Str) : Option Listing :=
  (s.resolveRun runId).map fun m =>
    let root := orElse m.rootRunId m.runId
    { rootRunId := root
      branches := s.family root
      activeBranchId := (((s.family root).find? Branch.active).map Branch.branchId).getD [] }

/-- `UPDATE run_branches SET active = a WHERE p`, on one row. -/
def setActive (p : Branch → Bool) (a : Bool) (b : Branch) : Branch :=
  if p b then { b with active := a } else b

theorem branchId_setActive (p : Branch → Bool) (a : Bool) (b : Branch) :
    (setActive p a b).branchId = b.branchId := by
  unfold setActive
  split_ifs <;> rfl

/-- `activate_branch`. -/
def activateBranch (runId branchId : Str) : Option (Str × Str) × EventTreeStore δ μ :=
  match s.listBranches runId with
  | none => (none, s)
  | some l =>
    if l.branches.any (·.branchId = branchId) then
      (some (l.rootRunId, branchId),
        { s with
          runBranches :=
            (s.runBranches.update (setActive (·.rootRunId = l.rootRunId) false)
              (branchId_setActive _ _)).update (setActive (·.branchId = branchId) true)
              (branchId_setActive _ _) })
    else (none, s)

end EventTreeStore

/-! ### The operations -/

inductive Operation (δ μ : Type) where
  | registerRun (m : RunMeta)
  | appendEvent (runId : Str) (event : Event δ) (messages : List μ) (hex : Str)
  | forkRun (c : EventTreeStore.ForkCall)
  | activateBranch (runId branchId : Str)

inductive Reply (μ : Type) where
  | done
  | forked (f : Option (EventTreeStore.Fork μ))
  | activated (r : Option (Str × Str))
deriving DecidableEq

def step {δ μ : Type} :
    Operation δ μ → EventTreeStore δ μ → Reply μ × EventTreeStore δ μ
  | .registerRun m, s => (.done, s.registerRun m)
  | .appendEvent runId event messages hex, s => (.done, s.appendEvent runId event messages hex)
  | .forkRun c, s => ((.forked (s.forkRun c).1), (s.forkRun c).2)
  | .activateBranch runId branchId, s =>
    ((.activated (s.activateBranch runId branchId).1), (s.activateBranch runId branchId).2)

/-- The ids that a call gives to a run are new, and not empty. -/
def Fresh {δ μ : Type} : Operation δ μ → EventTreeStore δ μ → Prop
  | .registerRun m, s => m.runId ≠ [] ∧ s.getRunMeta m.runId = none
  | .forkRun c, s => s.getRunMeta c.newRun = none ∧ s.rowsOf c.newRun = []
  | _, _ => True

end AgentStudio.EventTree

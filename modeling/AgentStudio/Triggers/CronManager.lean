import AgentStudio.Library.Dict
import AgentStudio.Library.Walks
import AgentStudio.Triggers.CronSchedule
import Mathlib.Logic.Function.Basic

/-!
# The cron manager

The `CronManager` of `agent_runtime/triggers.py`: the registered jobs, the rows of the table
`cron_jobs`, and the executions of `_run_single_job`. A job is an object that the registry and
the executions share, so the state has a heap (`Ref` is the identity of an object) and the
registry `jobs` maps an id to an object.

The methods run on one event loop. Between two `await`s a method is one `Event`: an execution
is gathered by a `tick` of `_run_loop` and goes through its `Phase`s with `started`, `handled`,
`recorded` and `written`, and the writes that run on a worker thread (`saved`, `deleted` and
`written`) are events of their own. The next tick waits until every execution that the last one
gathered has finished. `step` is `none` where the event cannot happen.

`zone` turns a reading of the clock into an aware datetime, the argument of `computeNextRun`.
Times are in microseconds.
-/

namespace AgentStudio.Triggers

open PyText PyDict

/-! ### Jobs -/

/-- `LOOP_MODES`. -/
inductive LoopMode where
  | cron
  | continuous
  | interval
  | eventDriven
deriving DecidableEq, Inhabited

/-- `_normalize_loop_mode`. -/
def normalizeLoopMode (raw : Str) : LoopMode :=
  let mode := ((strip raw).map Char.toLower).map fun c => if c = '-' then '_' else c
  if mode = "continuous" then .continuous
  else if mode = "interval" then .interval
  else if mode = "event_driven" then .eventDriven
  else .cron

/-- What a job is asked to do: the fields of `CronJob` that no execution changes. -/
structure Definition where
  name : Str
  expression : Str
  graphId : Str
  createdAt : ℤ
  inputData : Str
  maxRetries : ℤ
  oneShot : Bool
  loopMode : LoopMode
  intervalSeconds : ℤ
  maxIterations : ℤ
  tokenBudget : ℤ
  permissionMode : Str
deriving DecidableEq, Inhabited

/-- `CronJob`, without its id. -/
structure CronJob extends Definition where
  enabled : Bool
  lastRun : ℤ
  nextRun : ℤ
  retryCount : ℤ
  iterationCount : ℤ
  tokensUsed : ℤ
  loopStopReason : Str
deriving DecidableEq, Inhabited

/-- The identity of a job object; its id never changes. -/
structure Ref where
  id : Str
  object : ℕ
deriving DecidableEq

/-- The interval of a job that is run at intervals: at least a second, else a minute. -/
def CronJob.interval (j : CronJob) : ℤ := if j.intervalSeconds < 1 then 60 else j.intervalSeconds

variable (zone : ℤ → LocalTime)

/-- `_next_run_for`, at a reading of the clock. -/
def nextRunFor (j : CronJob) (now : ℤ) : ℤ :=
  if j.oneShot ∨ j.loopMode = .cron then computeNextRun j.expression (zone now) now
  else match j.loopMode with
    | .interval => now + j.interval * 1000000
    | .continuous => now
    | _ => 0

/-- What is registered: a job with the text of its loop mode, or the arguments of
`register_once`. -/
inductive Request where
  | job (j : CronJob) (loopMode : Str)
  | once (runAt : ℤ) (graphId inputData name : Str)

/-- The job object that a registration leaves: `register` sets up the job that it gets,
`_build_once_job` makes a new one. -/
def Request.build (jobId : Str) (now : ℤ) : Request → CronJob
  | .job j loopMode =>
    let j := { j with loopMode := normalizeLoopMode loopMode, loopStopReason := [] }
    { j with
      nextRun := nextRunFor zone j now
      createdAt := if j.createdAt = 0 then now else j.createdAt }
  | .once runAt graphId inputData name =>
    { name := if name = [] then jobId else name
      expression := "@once"
      graphId := graphId
      createdAt := now
      inputData := inputData
      maxRetries := 0
      oneShot := true
      loopMode := .cron
      intervalSeconds := 60
      maxIterations := 0
      tokenBudget := 0
      permissionMode := []
      enabled := true
      lastRun := 0
      nextRun := if 0 < runAt then runAt else now
      retryCount := 0
      iterationCount := 0
      tokensUsed := 0
      loopStopReason := [] }

/-! ### The state -/

inductive Phase where
  /-- gathered by a tick, not begun -/
  | due
  /-- in the handler -/
  | running (startedAt : ℤ)
  /-- the record of the execution is being written; `tokens` is what the result says -/
  | recording (startedAt tokens : ℤ)
  /-- the job is being saved -/
  | saving
  /-- the row of the job is being deleted -/
  | deleting
deriving DecidableEq

/-- The manager: job objects, registry, rows of `cron_jobs`, executions, and the writes of
`aregister` and `aunregister` that wait for their threads. -/
structure State where
  heap : Ref → CronJob
  jobs : List (Str × Ref)
  table : List (Str × CronJob)
  runs : List (Ref × Phase)
  saves : List Ref
  deletes : List Str

/-- `_load_jobs`: the manager after a restart. -/
def State.load (table : List (Str × CronJob)) : State where
  heap r := (table.lookup r.id).getD default
  jobs := table.map fun row => (row.1, ⟨row.1, 0⟩)
  table := table
  runs := []
  saves := []
  deletes := []

namespace State

variable (s : State)

def modify (r : Ref) (f : CronJob → CronJob) : State :=
  { s with heap := Function.update s.heap r (f (s.heap r)) }

/-- `_save_job`: `INSERT OR REPLACE`. -/
def saveJob (r : Ref) : State := { s with table := setItem r.id (s.heap r) s.table }

/-- `_delete_job`. -/
def deleteJob (jobId : Str) : State := { s with table := pop jobId s.table }

def goOn (r : Ref) (p : Phase) : State := { s with runs := setItem r p s.runs }

def enter (r : Ref) (j : CronJob) : State :=
  { s with heap := Function.update s.heap r j, jobs := setItem r.id r s.jobs }

/-- The id is taken out of the registry. -/
def leave (jobId : Str) : State := { s with jobs := pop jobId s.jobs }

@[simp] theorem heap_modify (r : Ref) (f : CronJob → CronJob) :
    (s.modify r f).heap = Function.update s.heap r (f (s.heap r)) :=
  rfl

@[simp] theorem heap_saveJob (r : Ref) : (s.saveJob r).heap = s.heap := rfl

@[simp] theorem heap_goOn (r : Ref) (p : Phase) : (s.goOn r p).heap = s.heap := rfl

@[simp] theorem heap_leave (jobId : Str) : (s.leave jobId).heap = s.heap := rfl

/-- The jobs that a tick at `now` gathers. -/
def dueJobs (now : ℤ) : List Ref :=
  (s.jobs.map Prod.snd).filter fun r =>
    (s.heap r).enabled ∧ 0 < (s.heap r).nextRun ∧ (s.heap r).nextRun ≤ now

/-- The job that `trigger_event` arms. -/
def armable (jobId : Str) : Option Ref :=
  (s.jobs.lookup jobId).filter fun r =>
    (s.heap r).enabled ∧ (s.heap r).loopMode = .eventDriven

end State

/-! ### Executions -/

/-- What the handler comes to: `tokens` is what `_extract_loop_tokens` reads off its result. -/
inductive Outcome where
  | success (tokens : ℤ)
  | failed
  | noHandler

def Outcome.tokens : Outcome → ℤ
  | .success tokens => tokens
  | _ => 0

def CronJob.armed (j : CronJob) (now : ℤ) : CronJob := { j with nextRun := now }

def CronJob.ranAt (j : CronJob) (startedAt : ℤ) : CronJob := { j with lastRun := startedAt }

/-- The stale marker of a supervisor that stopped is cleared. -/
def CronJob.begun (j : CronJob) : CronJob :=
  if j.loopStopReason = "cancelled" then { j with loopStopReason := [] } else j

/-- `_handle_retry`. -/
def CronJob.handleRetry (j : CronJob) : CronJob :=
  if j.retryCount < j.maxRetries then { j with retryCount := j.retryCount + 1 }
  else { j with enabled := false }

def CronJob.handled (j : CronJob) : Outcome → CronJob
  | .success _ => { j with retryCount := 0 }
  | .failed => j.handleRetry
  | .noHandler => j

/-- The reason to stop that `_post_iteration_accounting` gives, if there is one. -/
def CronJob.stopReason (j : CronJob) : Option Str :=
  if 0 < j.tokenBudget ∧ j.tokenBudget ≤ j.tokensUsed then some "budget_exceeded"
  else if 0 < j.maxIterations ∧ j.maxIterations ≤ j.iterationCount then
    some "max_iterations"
  else none

/-- The counters of `_post_iteration_accounting`. -/
def CronJob.counted (j : CronJob) (tokens : ℤ) : CronJob :=
  { j with iterationCount := j.iterationCount + 1, tokensUsed := j.tokensUsed + tokens }

/-- The end of an execution of a recurring job: it stops, goes dormant until the next event, or
is scheduled again. -/
def CronJob.rescheduled (j : CronJob) (tokens now : ℤ) : CronJob :=
  let j := j.counted tokens
  match j.stopReason with
  | some reason => { j with enabled := false, loopStopReason := reason }
  | none =>
    if j.loopMode = .eventDriven then { j with nextRun := 0 }
    else { j with nextRun := nextRunFor zone j now }

/-! ### Events -/

/-- What happens on the event loop or on a worker thread. -/
inductive Event where
  | register (r : Ref) (q : Request) (now : ℤ)
  | aregister (r : Ref) (q : Request) (now : ℤ)
  /-- the thread of `aregister` saves the job -/
  | saved (r : Ref)
  | unregister (jobId : Str)
  | aunregister (jobId : Str)
  /-- the thread of `aunregister` deletes the row -/
  | deleted (jobId : Str)
  | triggerEvent (jobId : Str) (now : ℤ)
  /-- a round of `_run_loop` -/
  | tick (now : ℤ)
  /-- `_run_single_job` begins -/
  | started (r : Ref) (now : ℤ)
  /-- the handler is done -/
  | handled (r : Ref) (outcome : Outcome)
  /-- the record of the execution is written, and the execution goes on -/
  | recorded (r : Ref) (now : ℤ)
  /-- the last write of the execution, after which it has finished -/
  | written (r : Ref)

/-- The execution goes on after its record is written: a one-shot job is taken out of the
registry, a recurring one is scheduled again. -/
def afterRecord (r : Ref) (startedAt tokens now : ℤ) (s : State) : State :=
  let s := s.modify r (·.ranAt startedAt)
  if (s.heap r).oneShot then (s.leave r.id).goOn r .deleting
  else (s.modify r (·.rescheduled zone tokens now)).goOn r .saving

def step (s : State) : Event → Option State
  | .register r q now => some ((s.enter r (q.build zone r.id now)).saveJob r)
  | .aregister r q now =>
    let s := s.enter r (q.build zone r.id now)
    some { s with saves := r :: s.saves }
  | .saved r => if r ∈ s.saves then some { s.saveJob r with saves := s.saves.erase r } else none
  | .unregister jobId => some ((s.leave jobId).deleteJob jobId)
  | .aunregister jobId => some { s.leave jobId with deletes := jobId :: s.deletes }
  | .deleted jobId =>
    if jobId ∈ s.deletes then
      some { s.deleteJob jobId with deletes := s.deletes.erase jobId }
    else none
  | .triggerEvent jobId now =>
    match s.armable jobId with
    | none => some s
    | some r => some ((s.modify r (·.armed now)).saveJob r)
  | .tick now =>
    if s.runs = [] then some { s with runs := (s.dueJobs now).map fun r => (r, .due) } else none
  | .started r now =>
    if s.runs.lookup r = some .due then
      some ((s.modify r CronJob.begun).goOn r (.running now))
    else none
  | .handled r outcome =>
    match s.runs.lookup r with
    | some (.running startedAt) =>
      some ((s.modify r (·.handled outcome)).goOn r (.recording startedAt outcome.tokens))
    | _ => none
  | .recorded r now =>
    match s.runs.lookup r with
    | some (.recording startedAt tokens) => some (afterRecord zone r startedAt tokens now s)
    | _ => none
  | .written r =>
    match s.runs.lookup r with
    | some .saving => some { s.saveJob r with runs := pop r s.runs }
    | some .deleting => some { s.deleteJob r.id with runs := pop r s.runs }
    | _ => none

/-- The state after some events, if they can happen. -/
def runs (es : List Event) (s : State) : Option State := Walks.after (step zone) es s

/-! ### What an event does -/

section Inversion

variable {zone} {s t : State} {r : Ref} {jobId : Str}

theorem step_saved :
    step zone s (.saved r) = some t ↔
      r ∈ s.saves ∧ { s.saveJob r with saves := s.saves.erase r } = t := by
  simp [step]

theorem step_deleted :
    step zone s (.deleted jobId) = some t ↔
      jobId ∈ s.deletes ∧ { s.deleteJob jobId with deletes := s.deletes.erase jobId } = t := by
  simp [step]

theorem armable_eq_some :
    s.armable jobId = some r ↔
      s.jobs.lookup jobId = some r ∧ (s.heap r).enabled = true ∧
        (s.heap r).loopMode = .eventDriven := by
  simp [State.armable, Option.filter_eq_some_iff]

theorem step_triggerEvent {now : ℤ} (h : step zone s (.triggerEvent jobId now) = some t) :
    (s.armable jobId = none ∧ t = s) ∨ ∃ r, s.armable jobId = some r ∧
      t = (s.modify r (·.armed now)).saveJob r := by
  cases ha : s.armable jobId with
  | none => exact .inl ⟨rfl, by simpa [step, ha] using h.symm⟩
  | some r => exact .inr ⟨r, rfl, by simpa [step, ha] using h.symm⟩

theorem step_tick {now : ℤ} :
    step zone s (.tick now) = some t ↔
      s.runs = [] ∧ { s with runs := (s.dueJobs now).map fun r => (r, .due) } = t := by
  simp [step]

theorem step_started {now : ℤ} :
    step zone s (.started r now) = some t ↔
      s.runs.lookup r = some .due ∧ (s.modify r CronJob.begun).goOn r (.running now) = t := by
  simp [step]

theorem step_handled {outcome : Outcome} (h : step zone s (.handled r outcome) = some t) :
    ∃ startedAt, s.runs.lookup r = some (.running startedAt) ∧
      t = (s.modify r (·.handled outcome)).goOn r (.recording startedAt outcome.tokens) := by
  simp only [step] at h
  split at h
  · exact ⟨_, ‹_›, (Option.some.inj h).symm⟩
  · cases h

theorem step_recorded {now : ℤ} (h : step zone s (.recorded r now) = some t) :
    ∃ startedAt tokens, s.runs.lookup r = some (.recording startedAt tokens) ∧
      t = afterRecord zone r startedAt tokens now s := by
  simp only [step] at h
  split at h
  · exact ⟨_, _, ‹_›, (Option.some.inj h).symm⟩
  · cases h

theorem step_written (h : step zone s (.written r) = some t) :
    (s.runs.lookup r = some .saving ∧ t = { s.saveJob r with runs := pop r s.runs }) ∨
      (s.runs.lookup r = some .deleting ∧
        t = { s.deleteJob r.id with runs := pop r s.runs }) := by
  simp only [step] at h
  split at h
  · exact .inl ⟨‹_›, (Option.some.inj h).symm⟩
  · exact .inr ⟨‹_›, (Option.some.inj h).symm⟩
  · cases h

theorem afterRecord_of_oneShot {startedAt tokens now : ℤ} (h : (s.heap r).oneShot = true) :
    afterRecord zone r startedAt tokens now s =
      ((s.modify r (·.ranAt startedAt)).leave r.id).goOn r .deleting := by
  rw [afterRecord, if_pos]
  simpa [State.modify, CronJob.ranAt] using h

theorem afterRecord_of_not_oneShot {startedAt tokens now : ℤ} (h : ¬ (s.heap r).oneShot = true) :
    afterRecord zone r startedAt tokens now s =
      ((s.modify r (·.ranAt startedAt)).modify r (·.rescheduled zone tokens now)).goOn r
        .saving := by
  rw [afterRecord, if_neg]
  simpa [State.modify, CronJob.ranAt] using h

end Inversion

end AgentStudio.Triggers

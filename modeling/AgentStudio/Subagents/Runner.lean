import AgentStudio.Library.Coroutines
import AgentStudio.Library.Rows
import AgentStudio.Library.Text

/-!
# The subagent runner

`SubAgentRunner` of `agent_runtime/subagent.py` runs subagents and keeps their transcripts
(`SubAgentTranscriptStore`). One runner may run many subagents at once; they share its fields
`last_ctx` and `last_seeded_count`.

`run` enters a transcript unless it continues one, and then waits three times: for the hook that
announces its start (`starting`), for the events of the execution (`streaming`), and for the hook
that announces its end (`stopping`). Between the first two, `_run_inner` checks the tools and the
depth, builds the context and notes in `last_seeded_count` how many messages it starts with. When
the execution has ended, the context goes into `last_ctx`; then, whether `_run_inner` has returned
or raised, the messages of `last_ctx` past `last_seeded_count` are appended to the transcript.

A context is the list of its messages. What a subagent reads of its surroundings (the tools and
the depth of the parent, its scoped memory) and what the execution does come as answers.
-/

namespace AgentStudio.Subagents

open PyText Rows Coroutines

/-! ### Transcripts -/

structure Message where
  role : Str
  content : Str
deriving DecidableEq

inductive TranscriptStatus
  | running
  | completed
  | failed
  | partialRun
deriving DecidableEq

/-- A row of the table `subagent_transcripts`, with the columns that a run reads or writes. -/
structure Transcript where
  agentId : Str
  status : TranscriptStatus
  turns : ℕ
  tokensUsed : ℕ
  report : Str
  error : Str
  messages : List Message
deriving DecidableEq

abbrev Transcripts := Table Transcript.agentId

/-- The row that `create` inserts. -/
def newTranscript (agentId : Str) : Transcript where
  agentId := agentId
  status := .running
  turns := 0
  tokensUsed := 0
  report := []
  error := []
  messages := []

/-- `SubAgentReport`. -/
structure Report where
  ok : Bool
  report : Str
  turns : ℕ
  tokensUsed : ℕ
  error : Str
  isPartial : Bool
deriving DecidableEq

/-- An `UPDATE` of the columns of a transcript. -/
def updateTranscript (t : Transcripts) (agentId : Str) (f : Transcript → Transcript)
    (hf : ∀ r, (f r).agentId = r.agentId) : Transcripts :=
  t.update (Rows.update Transcript.agentId agentId f) (key_update agentId hf)

theorem appended_agentId (messages : List Message) (r : Transcript) :
    { r with messages := r.messages ++ messages }.agentId = r.agentId := rfl

/-- `append`. -/
def appendMessages (t : Transcripts) (agentId : Str) (messages : List Message) : Transcripts :=
  if messages = [] then t
  else updateTranscript t agentId (fun r => { r with messages := r.messages ++ messages })
    (appended_agentId messages)

/-- The columns that `finish` writes. -/
def Report.finished (report : Report) (r : Transcript) : Transcript :=
  { r with
    status := if report.isPartial then .partialRun else if report.ok then .completed else .failed
    turns := report.turns
    tokensUsed := report.tokensUsed
    report := report.report.take 20000
    error := report.error.take 4000 }

theorem Report.finished_agentId (report : Report) (r : Transcript) :
    (report.finished r).agentId = r.agentId := rfl

/-- `finish`. -/
def finishTranscript (t : Transcripts) (agentId : Str) (report : Report) : Transcripts :=
  updateTranscript t agentId report.finished report.finished_agentId

/-! ### Runs -/

/-- The parts of a `SubAgentSpec` that a run reads. -/
structure SubAgentSpec where
  name : Str
  tools : List Str
  maxTurns : ℕ
  fork : Bool

/-- The arguments of `run`: no agent id is `[]`, and only `resume` gives messages to start with. -/
structure RunCall where
  spec : SubAgentSpec
  parentCtx : Option (List Message)
  agentId : Str
  seedMessages : List Message

/-- What a run finds when it builds its registry and its context: the tools and the depth of the
parent, the message from the scoped memory, and the exception that one of the steps raises. -/
structure Surroundings where
  tools : List Str
  depth : ℕ
  memory : Option Message
  exception : Option Str

/-- How `execute_graph` has ended: the messages of the context, its error and its tokens, whether
it hit `max_iterations`, and whether it exceeded a token budget. -/
structure Outcome where
  messages : List Message
  error : Str
  tokens : ℕ
  maxIterations : Bool
  budgetExceeded : Bool

inductive Answer
  | started (env : Surroundings)
  | event
  | finished (outcome : Outcome)
  | raised (messages : List Message) (error : Str)
  | stopped

inductive Phase
  | starting
  | streaming (seededCount : ℕ)
  | stopping
  | done
deriving DecidableEq

structure SubRun where
  call : RunCall
  phase : Phase

structure Runner where
  lastCtx : Option (List Message)
  lastSeededCount : ℕ
  transcripts : Transcripts

/-- `_CONTROL_FLOW_TOOL_NAMES`. -/
def controlFlowToolNames : List Str := ["register_tool", "unregister_tool"]

/-- The tools that `_build_registry` misses. -/
def RunCall.missing (call : RunCall) (env : Surroundings) : List Str :=
  call.spec.tools.filter fun name => decide (name ∉ controlFlowToolNames ∧ name ∉ env.tools)

/-- `_build_sub_context`: the last 20 messages of the parent for a fork. -/
def RunCall.forked (call : RunCall) : List Message :=
  if call.spec.fork then
    match call.parentCtx with
    | some messages => messages.drop (messages.length - 20)
    | none => []
  else []

def RunCall.seeded (call : RunCall) (env : Surroundings) : List Message :=
  let messages :=
    if call.seedMessages ≠ [] then
      call.seedMessages ++ call.forked.drop call.forked.length
    else call.forked
  env.memory.toList ++ messages

def failedReport (error : Str) : Report where
  ok := false
  report := []
  turns := 0
  tokensUsed := 0
  error := error
  isPartial := false

/-- The report with which `_run_inner` ends before it builds a context, or an exception that `run`
turns into one. -/
def RunCall.rejection (call : RunCall) (env : Surroundings) : Option Report :=
  if call.missing env ≠ [] then
    some (failedReport ("missing tools not in parent registry: " ++
      ", ".toList.intercalate (call.missing env)))
  else if 1 ≤ env.depth then
    some (failedReport ("subagent nesting depth " ++ (toString env.depth).toList ++
      " >= MAX_SUBAGENT_DEPTH=1"))
  else env.exception.map failedReport

/-- `_extract_report_text`. -/
def reportText (messages : List Message) : Str :=
  match messages.reverse.find? (·.role = "assistant".toList) with
  | some m => m.content
  | none => []

/-- The error of a run that hit `max_iterations`. -/
def exhausted (spec : SubAgentSpec) (turns tokens reportLen : ℕ) : Str :=
  "Max iterations exceeded after " ++ (toString turns).toList ++ '/' ::
    (toString spec.maxTurns).toList ++ " turns (" ++ (toString tokens).toList ++
    " tokens, report_len=" ++ (toString reportLen).toList ++
    (") — budget exhausted mid-work, not a content failure; " ++
      "raise the agent's max_iterations or fix a turn-burning loop").toList

/-- The report of an execution that started with `seededCount` messages. -/
def RunCall.reportOf (call : RunCall) (seededCount : ℕ) (o : Outcome) : Report :=
  let own := o.messages.drop seededCount
  let turns := own.countP (·.role = "assistant".toList)
  let text := reportText own
  { ok := o.error = [] ∨ o.budgetExceeded
    report := text
    turns := turns
    tokensUsed := o.tokens
    error :=
      if o.maxIterations ∧ o.error = "Max iterations exceeded".toList then
        exhausted call.spec turns o.tokens text.length
      else o.error
    isPartial := o.maxIterations }

namespace Runner

variable (w : Runner)

/-- What `run` appends to the transcript after `_run_inner`. -/
def appended : List Message := ((w.lastCtx.map fun ms => ms.drop w.lastSeededCount)).getD []

/-- `run` after `_run_inner`, up to the hook. -/
def finishRun (agentId : Str) (report : Report) : Runner :=
  { w with
    transcripts :=
      finishTranscript (appendMessages w.transcripts agentId w.appended) agentId report }

end Runner

namespace SubRun

variable (p : SubRun)

def turn (a : Answer) (w : Runner) : Turn Runner SubRun :=
  match p.phase, a with
  | .starting, .started env =>
    match p.call.rejection env with
    | some report => ⟨w.finishRun p.call.agentId report, { p with phase := .stopping }, []⟩
    | none =>
      let seededCount := (p.call.seeded env).length
      ⟨{ w with lastSeededCount := seededCount }, { p with phase := .streaming seededCount }, []⟩
  | .streaming seededCount, .finished o =>
    ⟨{ w with lastCtx := some o.messages }.finishRun p.call.agentId
      (p.call.reportOf seededCount o), { p with phase := .stopping }, []⟩
  | .streaming _, .raised _ error =>
    ⟨w.finishRun p.call.agentId (failedReport error), { p with phase := .stopping }, []⟩
  | .stopping, .stopped => ⟨w, { p with phase := .done }, []⟩
  | _, _ => ⟨w, p, []⟩

/-- The messages that a run has produced, when it ends: those of its context past the ones that it
started with, and none if it has not come to execute. -/
def produced (a : Answer) : Option (List Message) :=
  match p.phase, a with
  | .starting, .started env => (p.call.rejection env).map fun _ => []
  | .streaming seededCount, .finished o => some (o.messages.drop seededCount)
  | .streaming seededCount, .raised messages _ => some (messages.drop seededCount)
  | _, _ => none

end SubRun

/-! ### The runner with its runs -/

/-- The runner and its runs, with a record of the messages that the ended runs have produced: each
with the agent, as far as it has a transcript. -/
structure RunnerState where
  pool : Pool Runner SubRun
  ended : List (Str × List Message)

/-- What happens to a runner: a run is called, or one that waits goes on. -/
inductive RunnerEvent
  | run (call : RunCall) (hex : Str)
  | resume (n : ℕ) (a : Answer)

/-- The id that `create` draws. -/
def drawnId (name hex : Str) : Str :=
  (if name = [] then "sub".toList else name) ++ '-' :: hex

namespace RunnerState

variable (s : RunnerState)

def rows : List Transcript := s.pool.world.transcripts.rows

def HasTranscript (agentId : Str) : Prop := agentId ∈ s.rows.map Transcript.agentId

instance (agentId : Str) : Decidable (s.HasTranscript agentId) :=
  inferInstanceAs (Decidable (_ ∈ _))

/-- The start of `run`, up to the hook. An id that is drawn twice is refused by the table. -/
def call (c : RunCall) (hex : Str) : RunnerState :=
  if c.agentId ≠ [] then { s with pool := s.pool.spawn ⟨c, .starting⟩ }
  else
    let agentId := drawnId c.spec.name hex
    if s.HasTranscript agentId then s
    else
      let w := { s.pool.world with
        transcripts := s.pool.world.transcripts.put (newTranscript agentId) }
      { s with
        pool := Pool.spawn { s.pool with world := w } ⟨{ c with agentId }, .starting⟩ }

/-- The record of the run at a place that an answer ends. -/
def endedBy (n : ℕ) (a : Answer) : List (Str × List Message) :=
  match s.pool.members[n]? with
  | none => []
  | some p =>
    match p.produced a with
    | some messages =>
      if s.HasTranscript p.call.agentId then [(p.call.agentId, messages)] else []
    | none => []

end RunnerState

def runnerStep : RunnerEvent → RunnerState → Unit × RunnerState
  | .run c hex, s => ((), s.call c hex)
  | .resume n a, s =>
    ((), ⟨s.pool.resume (fun a p w => p.turn a w) n a, s.ended ++ s.endedBy n a⟩)

/-- A runner as it is made, over the transcripts that there are. -/
def RunnerState.start (init : Transcripts) : RunnerState := ⟨⟨⟨none, 0, init⟩, []⟩, []⟩

end AgentStudio.Subagents

import AgentStudio.Subagents.Attribution

/-!
# Resumed subagents

`SubAgentRunner.resume` of `agent_runtime/subagent.py` runs a subagent again, from the messages of
its transcript. The task of the run is added twice: `resume` appends it to the messages that the
run is given, and `execute_graph` appends the initial input, which is the task again. The
transcript gets what comes after the messages that the run was given, so it has the task once.

`Faithful` is what a resumed run should do: it starts from the conversation on record and one
message with the task, and the record becomes this list and what the run has produced. Among the
runs that come to their end with their messages as they were added (`Undisturbed`), those are the
ones without a task, to which the scoped memory adds nothing, and which have a conversation to go
on with, or nothing of a parent to start from instead (`Plain`).
-/

namespace AgentStudio.Subagents

open PyText Rows Machine

/-! ### `resume` -/

/-- The columns of a transcript that `create` writes and that no run changes. -/
structure Agent where
  agentId : Str
  task : Str
  spec : SubAgentSpec

/-- What an execution does to the messages of its context after the initial input: one is added,
or a compaction or the cap on messages replaces them. -/
inductive Effect
  | added (m : Message)
  | replaced (messages : List Message)

inductive Ending
  | finished (error : Str) (tokens : ℕ) (maxIterations budgetExceeded : Bool)
  | raised (error : Str)

/-- A call of `resume`, with what its run meets: the surroundings, what the variables make of a
text, and what the execution does. -/
structure ResumeCall where
  task : Str
  parentCtx : Option (List Message)
  maxTurns : ℕ
  env : Surroundings
  interpolate : Str → Str
  effects : List Effect
  ending : Ending

def userTurn (text : Str) : Message := ⟨"user", text⟩

def Effect.apply (messages : List Message) : Effect → List Message
  | .added m => messages ++ [m]
  | .replaced messages => messages

def Effect.message : Effect → Option Message
  | .added m => some m
  | .replaced _ => none

namespace ResumeCall

variable (c : ResumeCall) (a : Agent) (messages : List Message)

def text : Str := if c.task ≠ [] then c.task else a.task

/-- The messages that `resume` gives to the run of an agent with a conversation. -/
def history : List Message :=
  if c.text a ≠ [] then messages ++ [userTurn (c.text a)] else messages

/-- The arguments of `run`. -/
def runCall : RunCall where
  spec := if 0 < c.maxTurns then { a.spec with maxTurns := c.maxTurns } else a.spec
  parentCtx := c.parentCtx
  agentId := a.agentId
  seedMessages := c.history a messages

/-- The messages that the run starts from: `execute_graph` adds the initial input. -/
def starts : List Message :=
  (c.runCall a messages).seeded c.env ++ [userTurn (c.interpolate (c.text a))]

/-- The messages of the context at the end of the execution. -/
def executed : List Message := c.effects.foldl Effect.apply (c.starts a messages)

def produced : List Message := c.effects.filterMap Effect.message

def answer : Answer :=
  match c.ending with
  | .finished error tokens maxIterations budgetExceeded =>
    .finished ⟨c.executed a messages, error, tokens, maxIterations, budgetExceeded⟩
  | .raised error => .raised (c.executed a messages) error

end ResumeCall

def Runner.conversation (w : Runner) (agentId : Str) : Option (List Message) :=
  (w.transcripts.find agentId).map Transcript.messages

/-- `resume`: a run with its three turns. -/
def Runner.resume (a : Agent) (c : ResumeCall) (w : Runner) : Unit × Runner :=
  match w.conversation a.agentId with
  | none => ((), w)
  | some messages =>
    let began := SubRun.turn ⟨c.runCall a messages, .starting⟩ (.started c.env) w
    let ended := began.self.turn (c.answer a messages) began.world
    ((), (ended.self.turn .stopped ended.world).world)

/-! ### What a resumed run should do -/

/-- The run starts from the conversation and one message with the task, and the record becomes this
list and what the run has produced. -/
def Faithful (a : Agent) (c : ResumeCall) (w : Runner) : Prop :=
  ∀ messages, w.conversation a.agentId = some messages →
    c.starts a messages = messages ++ [userTurn (c.text a)] ∧
      (w.resume a c).2.conversation a.agentId =
        some (messages ++ userTurn (c.text a) :: c.produced)

/-- The run is not refused and comes to its end, and its messages stay as they are added. -/
structure Undisturbed (a : Agent) (c : ResumeCall) (w : Runner) : Prop where
  accepted : ∀ messages, w.conversation a.agentId = some messages →
    (c.runCall a messages).rejection c.env = none
  finished : ∃ error tokens maxIterations budgetExceeded,
    c.ending = .finished error tokens maxIterations budgetExceeded
  kept : ∀ e ∈ c.effects, e.message ≠ none
  empty : c.interpolate [] = []

/-- The run has no task, and starts from the conversation alone. -/
def Plain (a : Agent) (c : ResumeCall) (w : Runner) : Prop :=
  ∀ messages, w.conversation a.agentId = some messages →
    c.text a = [] ∧ c.env.memory = none ∧
      (messages ≠ [] ∨ (c.runCall a messages).forked = [])

variable {a : Agent} {c : ResumeCall} {w : Runner} {messages : List Message}

/-! ### Proof -/

theorem conversation_finishRun {agentId : Str} (h : w.conversation agentId = some messages)
    (report : Report) :
    (w.finishRun agentId report).conversation agentId = some (messages ++ w.appended) := by
  obtain ⟨r, hr, rfl⟩ := Option.map_eq_some_iff.mp h
  obtain ⟨hmem, rfl⟩ := Table.find_eq_some_iff.mp hr
  refine Option.map_eq_some_iff.mpr ⟨SubRun.finishedRow w report r, ?_, rfl⟩
  rw [Table.find_eq_some_iff, rows_finishRun]
  exact ⟨List.mem_map.mpr ⟨r, hmem, Rows.update_self _ r _⟩, rfl⟩

theorem conversation_resume (h : w.conversation a.agentId = some messages)
    (hu : Undisturbed a c w) : (w.resume a c).2.conversation a.agentId =
      some (messages ++
        (c.executed a messages).drop ((c.runCall a messages).seeded c.env).length) := by
  obtain ⟨error, tokens, maxIterations, budgetExceeded, hending⟩ := hu.finished
  unfold Runner.resume SubRun.turn ResumeCall.answer
  rw [h, hending]
  dsimp only
  rw [hu.accepted messages h]
  let w' : Runner := { w with
    lastCtx := some (c.executed a messages)
    lastSeededCount := ((c.runCall a messages).seeded c.env).length }
  have h' : w'.conversation a.agentId = some messages := h
  exact conversation_finishRun h' _

theorem executed_eq (h : ∀ e ∈ c.effects, e.message ≠ none) :
    c.executed a messages = c.starts a messages ++ c.produced := by
  unfold ResumeCall.executed ResumeCall.produced
  generalize c.starts a messages = start
  generalize c.effects = effects at h ⊢
  induction effects generalizing start with
  | nil => exact (List.append_nil start).symm
  | cons e effects ih =>
    have hrest := fun start => ih start fun x hx => h x (List.mem_cons_of_mem e hx)
    cases e with
    | added m =>
      rw [List.foldl_cons, hrest]
      exact List.append_assoc start [m] _
    | replaced messages => exact absurd rfl (h _ List.mem_cons_self)

/-- A run starts from the conversation and one message with the task exactly if the task is empty
and nothing else is added. -/
theorem starts_eq_iff (hempty : c.interpolate [] = []) :
    c.starts a messages = messages ++ [userTurn (c.text a)] ↔
      c.text a = [] ∧ c.env.memory = none ∧
        (messages ≠ [] ∨ (c.runCall a messages).forked = []) := by
  have hseeded : (c.runCall a messages).seeded c.env = c.env.memory.toList ++
      if c.history a messages ≠ [] then c.history a messages
      else (c.runCall a messages).forked := by
    rw [RunCall.seeded, List.drop_length, List.append_nil]
    rfl
  rw [ResumeCall.starts, hseeded]
  by_cases htext : c.text a = []
  · rw [htext, hempty, List.append_left_inj, ResumeCall.history, if_neg (not_not.mpr htext)]
    by_cases hmessages : messages = []
    · simp [hmessages]
    · simp [hmessages]
  · refine iff_of_false (fun heq => ?_) fun h => htext h.1
    -- the task is among the messages that the run is given already
    have hlength := congrArg List.length heq
    rw [ResumeCall.history, if_pos htext] at hlength
    simp only [List.length_append, List.length_singleton] at hlength
    rw [if_pos (by simp)] at hlength
    simp only [List.length_append, List.length_singleton] at hlength
    omega

theorem faithful_iff (hu : Undisturbed a c w) : Faithful a c w ↔ Plain a c w := by
  refine forall_congr' fun messages => forall_congr' fun h => ?_
  rw [starts_eq_iff hu.empty, conversation_resume h hu, executed_eq hu.kept]
  refine ⟨And.left, fun hplain => ⟨hplain, ?_⟩⟩
  rw [ResumeCall.starts, List.append_assoc, List.drop_left, hplain.1, hu.empty,
    List.singleton_append]

/-- **A sequence of resumptions.** Where no run is disturbed, every run does what it should exactly
if every run is plain. -/
theorem resumes_faithful_iff (a : Agent) (cs : List ResumeCall) (w : Runner)
    (hu : Along (fun c w => w.resume a c) (Undisturbed a) cs w) :
    Along (fun c w => w.resume a c) (Faithful a) cs w ↔
      Along (fun c w => w.resume a c) (Plain a) cs w := by
  induction cs generalizing w with
  | nil => exact Iff.rfl
  | cons c cs ih => exact and_congr (faithful_iff hu.1) (ih _ hu.2)

/-! ### A task that is sent twice -/

def answered : Runner where
  lastCtx := none
  lastSeededCount := 0
  transcripts := Table.empty.put { newTranscript "a-1" with
    messages := [userTurn "look", ⟨"assistant", "seen"⟩] }

def resumption (task : String) : ResumeCall where
  task := task.toList
  parentCtx := none
  maxTurns := 0
  env := noTools
  interpolate := id
  effects := [.added ⟨"assistant", "done"⟩]
  ending := .finished [] 0 false false

/-- `resumes_faithful_iff` on an agent without a task that is resumed twice without one. -/
theorem resumes_faithful_iff_answered :
    let a : Agent := ⟨"a-1", [], ⟨"a", [], 8, false⟩⟩
    let cs := [resumption "", resumption ""]
    Along (fun c w => w.resume a c) (Faithful a) cs answered ↔
      Along (fun c w => w.resume a c) (Plain a) cs answered :=
  resumes_faithful_iff _ _ _ ⟨⟨fun _ _ => rfl, ⟨_, _, _, _, rfl⟩, by decide, rfl⟩,
    ⟨fun _ _ => rfl, ⟨_, _, _, _, rfl⟩, by decide, rfl⟩, trivial⟩

/-- The request of a resumed run has its task twice. -/
theorem not_resumes_faithful : ¬∀ (a : Agent) (cs : List ResumeCall) (w : Runner),
    Along (fun c w => w.resume a c) (Undisturbed a) cs w →
      Along (fun c w => w.resume a c) (Faithful a) cs w := by
  intro h
  have hfaithful := h ⟨"a-1", "look", ⟨"a", [], 8, false⟩⟩
    [resumption "more"] answered
    ⟨⟨fun _ _ => rfl, ⟨_, _, _, _, rfl⟩, by decide, rfl⟩, trivial⟩
  exact absurd (hfaithful.1 _ rfl).1 (by decide)

end AgentStudio.Subagents

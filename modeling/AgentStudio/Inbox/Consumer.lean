import AgentStudio.Daemon.World
import AgentStudio.Inbox.Mailbox
import AgentStudio.Tasks.Holding

/-!
# The inbox consumer

`InboxConsumer` of `agent_runtime/inbox_consumer.py`, with the `submit_run` and `get_run` that
`agent_runtime/daemon_server.py` gives it. A tick goes through the roster, turns each unread message
of an agent that is autonomous and bound to a graph into a run and acks it, and then posts a reply
for every run that has ended.

A tick is a sequence of actions on the mailbox, the task store and the pending replies, and the
daemon may be stopped between any two of them: `Phase` is where a tick stands, `Event.work` is its
next action, and `Event.restart` loses the pending replies and the rest of the tick. The calls of
the task store that others make are made between two ticks (a tick does not wait for anything),
messages from outside the consumer may arrive at any time.

`Log` is kept beside the state: the messages sent from outside, those for which a task was created
and a run started, those acked since the daemon was started, those that were answered, and the
number of times that the consumer went through the whole roster. Metrics are left out.
-/

namespace AgentStudio.Inbox

open PyText PyDict PyJson Tasks

/-- `TERMINAL_STATUSES`. -/
def terminal : Status → Bool
  | .completed | .failed | .canceled => true
  | _ => false

def statusName : Status → Str
  | .pending => "pending"
  | .running => "running"
  | .completed => "completed"
  | .failed => "failed"
  | .canceled => "canceled"
  | .other name _ => name

/-! ### The state -/

/-- An entry of `_pending_replies`. -/
structure PendingReply where
  agentId : Str
  sender : Str
  messageId : Str
  team : Str

/-- Where `_dispatch_one` stands with a message. -/
inductive Point where
  | submit
  | execute (taskId : Str) (vars : Variables)
  | ack (runId : Str)
  | await (runId : Str)

inductive Phase where
  | idle
  | polling (agents : List Agent)
  | dispatching (agent : Agent) (message : Message) (point : Point) (messages : List Message)
      (agents : List Agent)
  | replying (entries : List (Str × PendingReply))
  | forgetting (runId : Str) (entries : List (Str × PendingReply))

structure Started where
  messageId : Str
  taskId : Str
  graphId : Str
  vars : Variables

structure Log where
  sent : List Message
  created : List Str
  started : List Started
  ackedNow : List Str
  replied : List Str
  passes : ℕ

/-- The mailbox, the task store, the consumer and the clock. -/
structure State where
  mailbox : Mailbox
  store : Store
  pendingReplies : List (Str × PendingReply)
  phase : Phase
  now : ℕ
  log : Log

/-- What the consumer finds: the roster, the graphs that can be loaded, what the interpreter refuses
to read, and the text of a value that is not a string. -/
structure Site where
  roster : Roster
  graphs : Str → Bool
  limit : Str → Option BodyError
  repr : Json → Str

/-- What an action draws: an id for a message and one for an execution, and the readings of the
clock of the task store. -/
structure Reading where
  messageId : Str
  executionId : Str
  clock : ℕ → ℤ

/-! ### Dispatching -/

/-- The idempotency key of the task for a message. -/
def inboxKey (messageId : Str) : Str := "inbox:" ++ messageId

/-- The trigger `inbox`. -/
def inboxTrigger : Trigger := .other "inbox" (by decide)

def inboxTask (agent : Agent) (m : Message) : Task :=
  { Task.default with
    title := "inbox:" ++ agent.agentId
    graphId := agent.graphId
    trigger := inboxTrigger
    idempotencyKey := inboxKey m.messageId
    team := m.team }

/-- The loop over the messages of an agent goes on. -/
def nextMessage (agent : Agent) (messages : List Message) (agents : List Agent) : Phase :=
  match messages with
  | [] => .polling agents
  | m :: messages => .dispatching agent m .submit messages agents

namespace State

variable (site : Site) (r : Reading) (s : State)

/-- The loop over the roster: an agent that is not autonomous or not bound to a graph is skipped. -/
def poll (agents : List Agent) : State :=
  match agents with
  | [] => { s with
      phase := .replying s.pendingReplies, log := { s.log with passes := s.log.passes + 1 } }
  | agent :: agents =>
    if agent.autonomousInbox = false ∨ agent.graphId = [] then { s with phase := .polling agents }
    else { s with phase := nextMessage agent (s.mailbox.inbox agent.agentId true 100) agents }

/-- `submit_run` until the task is there: a body that raises leaves the message unread. -/
def submitRun (agent : Agent) (m : Message) (messages : List Message) (agents : List Agent) :
    State :=
  match runVariables site.limit m with
  | .error _ => { s with phase := nextMessage agent messages agents }
  | .ok vars =>
    match s.store.findByIdempotency (inboxKey m.messageId) with
    | (some t, store) =>
      { s with store, phase := .dispatching agent m (.ack t.taskId) messages agents }
    | (none, store) =>
      let submitted := store.submit (inboxTask agent m) r.clock
      { s with
        store := submitted.2
        phase := .dispatching agent m (.execute submitted.1.taskId vars) messages agents
        log := { s.log with
          created := if submitted.2.db.lastSubmitDeduped then s.log.created
            else s.log.created ++ [m.messageId] } }

/-- `_handle_graph_execute_async`: without the graph it raises. -/
def executeGraph (agent : Agent) (m : Message) (taskId : Str) (vars : Variables)
    (messages : List Message) (agents : List Agent) : State :=
  if site.graphs agent.graphId then
    { s with
      store := if taskId = [] then s.store
        else ((s.store.updateStatus taskId .running none [] none r.clock).2.setEvidence taskId
          (Daemon.evidencePath r.executionId m.team) fun i => r.clock (i + 1)).2
      phase := .dispatching agent m (.ack taskId) messages agents
      log := { s.log with
        started := s.log.started ++ [⟨m.messageId, taskId, agent.graphId, vars⟩] } }
  else { s with phase := nextMessage agent messages agents }

def ackMessage (agent : Agent) (m : Message) (runId : Str) (messages : List Message)
    (agents : List Agent) : State :=
  { s with
    mailbox := s.mailbox.ack agent.agentId m.messageId s.now
    phase := .dispatching agent m (.await runId) messages agents
    log := { s.log with ackedNow := s.log.ackedNow ++ [m.messageId] } }

/-- The reply to a message with a sender is pending. -/
def awaitReply (agent : Agent) (m : Message) (runId : Str) (messages : List Message)
    (agents : List Agent) : State :=
  { s with
    pendingReplies := if m.sender = [] then s.pendingReplies
      else setItem runId ⟨agent.agentId, m.sender, m.messageId, m.team⟩ s.pendingReplies
    phase := nextMessage agent messages agents }

/-! ### Replying -/

/-- `str` of the output, the result or the summary of a run. -/
def resultText (last : Dict) : Str :=
  match (["output", "result", "summary"].map String.toList).findSome?
      fun key => (last.members.lookup key).filter Json.truthy with
  | some (.str text) => text
  | some value => site.repr value
  | none => []

/-- `_reply_body`. -/
def replyBody (run : Task) (info : PendingReply) : Str :=
  if run.status = .completed then
    if strip (resultText site run.lastResult) ≠ [] then (resultText site run.lastResult).take 20000
    else "[autonomous run completed — no textual output] run_id=" ++ info.messageId
  else
    (strip ("[autonomous run " ++ statusName run.status ++ "] " ++
      run.lastError)).take 20000

/-- `_post_completed_replies` for one entry: a reply is sent once the run has ended. Where `send`
raises, the tick ends. -/
def postReply (runId : Str) (info : PendingReply) (entries : List (Str × PendingReply)) : State :=
  match s.store.getTask runId with
  | (none, store) => { s with store, phase := .replying entries }
  | (some run, store) =>
    if terminal run.status then
      match s.mailbox.send info.agentId info.sender (replyBody site run info) "reply"
          info.team r.messageId s.now with
      | none => { s with store, phase := .idle }
      | some mailbox => { s with
          mailbox := mailbox
          store := store
          phase := .forgetting runId entries
          log := { s.log with replied := s.log.replied ++ [info.messageId] } }
    else { s with store, phase := .replying entries }

def work : State :=
  match s.phase with
  | .idle => s
  | .polling agents => s.poll agents
  | .dispatching agent m .submit messages agents => s.submitRun site r agent m messages agents
  | .dispatching agent m (.execute taskId vars) messages agents =>
    s.executeGraph site r agent m taskId vars messages agents
  | .dispatching agent m (.ack runId) messages agents => s.ackMessage agent m runId messages agents
  | .dispatching agent m (.await runId) messages agents =>
    s.awaitReply agent m runId messages agents
  | .replying [] => { s with phase := .idle }
  | .replying ((runId, info) :: entries) => s.postReply site r runId info entries
  | .forgetting runId entries =>
    { s with pendingReplies := pop runId s.pendingReplies, phase := .replying entries }

end State

/-! ### Steps -/

inductive Event where
  | send (sender recipient body kind team messageId : Str)
  | elapse (d : ℕ)
  | call (c : Call)
  | tick
  | work (r : Reading)
  | restart

def step (site : Site) (e : Event) (s : State) : Unit × State :=
  match e with
  | .send sender recipient body kind team messageId =>
    match s.mailbox.send sender recipient body kind team messageId s.now with
    | none => ((), s)
    | some mailbox =>
      ((), { s with
        mailbox := mailbox
        log := { s.log with sent := s.log.sent ++
          [⟨messageId, sender, recipient, team, kind, body.take 20000, s.now, none⟩] } })
  | .elapse d => ((), { s with now := s.now + d })
  | .call c =>
    match s.phase with
    | .idle => ((), { s with store := (s.store.step c).2 })
    | _ => ((), s)
  | .tick =>
    match s.phase with
    | .idle => ((), { s with phase := .polling site.roster.rows })
    | _ => ((), s)
  | .work r => ((), s.work site r)
  | .restart =>
    ((), { s with
      store := .open s.store.lazyLoad s.store.db.tasks s.store.db.history s.store.db.index
        s.store.db.ttl
      pendingReplies := []
      phase := .idle
      log := { s.log with ackedNow := [] } })

/-- A daemon that is started with an empty mailbox on a database of tasks. -/
def start (lazyLoad : Bool) (T : Table) (history : List HistoryRow) (index : List IndexRow)
    (ttl : ℤ) : State where
  mailbox := Rows.Table.empty
  store := .open lazyLoad T history index ttl
  pendingReplies := []
  phase := .idle
  now := 0
  log := ⟨[], [], [], [], [], 0⟩

/-! ### What a step does -/

/-- The state after an event, action by action. -/
inductive Does (site : Site) (s : State) : Event → State → Prop
  | nothing (e : Event) : Does site s e s
  | received {sender recipient body kind team messageId : Str} {mailbox : Mailbox}
      (hsend : s.mailbox.send sender recipient body kind team messageId s.now = some mailbox) :
      Does site s (.send sender recipient body kind team messageId) { s with
        mailbox := mailbox
        log := { s.log with sent := s.log.sent ++
          [⟨messageId, sender, recipient, team, kind, body.take 20000, s.now, none⟩] } }
  | elapsed (d : ℕ) : Does site s (.elapse d) { s with now := s.now + d }
  | called (c : Call) (hphase : s.phase = .idle) :
      Does site s (.call c) { s with store := (s.store.step c).2 }
  | ticked (hphase : s.phase = .idle) :
      Does site s .tick { s with phase := .polling site.roster.rows }
  | passed {r : Reading} (hphase : s.phase = .polling []) :
      Does site s (.work r) { s with
        phase := .replying s.pendingReplies, log := { s.log with passes := s.log.passes + 1 } }
  | skipped {r : Reading} {agent : Agent} {agents : List Agent}
      (hphase : s.phase = .polling (agent :: agents))
      (hskip : agent.autonomousInbox = false ∨ agent.graphId = []) :
      Does site s (.work r) { s with phase := .polling agents }
  | polled {r : Reading} {agent : Agent} {agents : List Agent}
      (hphase : s.phase = .polling (agent :: agents))
      (hauto : agent.autonomousInbox = true) (hbound : agent.graphId ≠ []) :
      Does site s (.work r) { s with
        phase := nextMessage agent (s.mailbox.inbox agent.agentId true 100) agents }
  | refused {r : Reading} {agent : Agent} {m : Message} {messages : List Message}
      {agents : List Agent} (hphase : s.phase = .dispatching agent m .submit messages agents)
      (hbody : dispatchable site.limit m.body = false) :
      Does site s (.work r) { s with phase := nextMessage agent messages agents }
  | found {r : Reading} {agent : Agent} {m : Message} {messages : List Message}
      {agents : List Agent} {t : Task}
      (hphase : s.phase = .dispatching agent m .submit messages agents)
      (hbody : dispatchable site.limit m.body = true)
      (hfound : (s.store.findByIdempotency (inboxKey m.messageId)).1 = some t) :
      Does site s (.work r) { s with
        store := (s.store.findByIdempotency (inboxKey m.messageId)).2
        phase := .dispatching agent m (.ack t.taskId) messages agents }
  | submitted {r : Reading} {agent : Agent} {m : Message} {messages : List Message}
      {agents : List Agent} {store : Store} {vars : Variables}
      (hphase : s.phase = .dispatching agent m .submit messages agents)
      (hbody : dispatchable site.limit m.body = true)
      (hnone : s.store.findByIdempotency (inboxKey m.messageId) = (none, store)) :
      Does site s (.work r) { s with
        store := (store.submit (inboxTask agent m) r.clock).2
        phase := .dispatching agent m
          (.execute (store.submit (inboxTask agent m) r.clock).1.taskId vars) messages agents
        log := { s.log with
          created := if (store.submit (inboxTask agent m) r.clock).2.db.lastSubmitDeduped
            then s.log.created else s.log.created ++ [m.messageId] } }
  | started {r : Reading} {agent : Agent} {m : Message} {taskId : Str} {vars : Variables}
      {messages : List Message} {agents : List Agent} {store : Store}
      (hphase : s.phase = .dispatching agent m (.execute taskId vars) messages agents)
      (hgraph : site.graphs agent.graphId = true)
      (hstore : s.store.Cached → Store.Changed taskId s.store store) :
      Does site s (.work r) { s with
        store := store
        phase := .dispatching agent m (.ack taskId) messages agents
        log := { s.log with
          started := s.log.started ++ [⟨m.messageId, taskId, agent.graphId, vars⟩] } }
  | unloaded {r : Reading} {agent : Agent} {m : Message} {taskId : Str} {vars : Variables}
      {messages : List Message} {agents : List Agent}
      (hphase : s.phase = .dispatching agent m (.execute taskId vars) messages agents)
      (hgraph : site.graphs agent.graphId = false) :
      Does site s (.work r) { s with phase := nextMessage agent messages agents }
  | acked {r : Reading} {agent : Agent} {m : Message} {runId : Str} {messages : List Message}
      {agents : List Agent}
      (hphase : s.phase = .dispatching agent m (.ack runId) messages agents) :
      Does site s (.work r) (s.ackMessage agent m runId messages agents)
  | awaited {r : Reading} {agent : Agent} {m : Message} {runId : Str} {messages : List Message}
      {agents : List Agent}
      (hphase : s.phase = .dispatching agent m (.await runId) messages agents) :
      Does site s (.work r) (s.awaitReply agent m runId messages agents)
  | finished {r : Reading} (hphase : s.phase = .replying []) :
      Does site s (.work r) { s with phase := .idle }
  | waited {r : Reading} {runId : Str} {info : PendingReply} {entries : List (Str × PendingReply)}
      (hphase : s.phase = .replying ((runId, info) :: entries))
      (hwait : ∀ t, (s.store.getTask runId).1 = some t → terminal t.status = false) :
      Does site s (.work r) { s with
        store := (s.store.getTask runId).2, phase := .replying entries }
  | unsent {r : Reading} {runId : Str} {info : PendingReply} {entries : List (Str × PendingReply)}
      {t : Task} (hphase : s.phase = .replying ((runId, info) :: entries))
      (hsend : s.mailbox.send info.agentId info.sender (State.replyBody site t info)
        "reply" info.team r.messageId s.now = none) :
      Does site s (.work r) { s with store := (s.store.getTask runId).2, phase := .idle }
  | replied {r : Reading} {runId : Str} {info : PendingReply} {entries : List (Str × PendingReply)}
      {t : Task} {mailbox : Mailbox} (hphase : s.phase = .replying ((runId, info) :: entries))
      (hsend : s.mailbox.send info.agentId info.sender (State.replyBody site t info)
        "reply" info.team r.messageId s.now = some mailbox) :
      Does site s (.work r) { s with
        mailbox := mailbox
        store := (s.store.getTask runId).2
        phase := .forgetting runId entries
        log := { s.log with replied := s.log.replied ++ [info.messageId] } }
  | forgot {r : Reading} {runId : Str} {entries : List (Str × PendingReply)}
      (hphase : s.phase = .forgetting runId entries) :
      Does site s (.work r) { s with
        pendingReplies := pop runId s.pendingReplies, phase := .replying entries }
  | restarted : Does site s .restart { s with
      store := .open s.store.lazyLoad s.store.db.tasks s.store.db.history s.store.db.index
        s.store.db.ttl
      pendingReplies := []
      phase := .idle
      log := { s.log with ackedNow := [] } }

private theorem changed_execute {store : Store} (h : store.Cached) (taskId evidenceRef : Str)
    (clock clock' : ℕ → ℤ) :
    Store.Changed taskId store (if taskId = [] then store
      else ((store.updateStatus taskId .running none [] none clock).2.setEvidence taskId
        evidenceRef clock').2) := by
  split_ifs
  · exact (Store.Alike.refl h).changed
  · have hrunning : Store.Changed taskId store
        (store.updateStatus taskId .running none [] none clock).2 :=
      h.changed_updateStatus taskId .running none [] none clock
    exact hrunning.trans
      (hrunning.cached.changed (c := ⟨.setEvidence taskId evidenceRef, clock'⟩) rfl)

/-- **The actions.** -/
theorem does_step (site : Site) (e : Event) (s : State) : Does site s e (step site e s).2 := by
  cases e with
  | send sender recipient body kind team messageId =>
    rw [step]
    rcases hsend : s.mailbox.send sender recipient body kind team messageId s.now with _ | mailbox
    · exact .nothing _
    · exact .received hsend
  | elapse d => exact .elapsed d
  | call c =>
    rw [step]
    split
    · next hphase => exact .called c hphase
    · exact .nothing _
  | tick =>
    rw [step]
    split
    · next hphase => exact .ticked hphase
    · exact .nothing _
  | restart => exact .restarted
  | work r =>
    rw [step, State.work]
    rcases hphase : s.phase with _ | agents | ⟨agent, m, point, messages, agents⟩ | entries |
      ⟨runId, entries⟩
    · exact .nothing _
    · rcases agents with _ | ⟨agent, agents⟩
      · exact .passed hphase
      · simp only [State.poll]
        split_ifs with hskip
        · exact .skipped hphase hskip
        · rw [not_or, Bool.not_eq_false] at hskip
          exact .polled hphase hskip.1 hskip.2
    · rcases point with _ | ⟨taskId, vars⟩ | runId | runId
      · simp only [State.submitRun]
        rcases hvars : runVariables site.limit m with _ | vars
        · refine .refused hphase ((Bool.not_eq_true _).mp fun hbody => ?_)
          obtain ⟨d, hd⟩ := exists_runVariables_iff.mpr hbody
          rw [hvars] at hd
          cases hd
        · have hbody := exists_runVariables_iff.mp ⟨vars, hvars⟩
          simp only
          rcases hfind : s.store.findByIdempotency (inboxKey m.messageId) with ⟨_ | t, store⟩
          · exact .submitted hphase hbody hfind
          · have hdoes : Does site s (.work r) _ := .found hphase hbody (congrArg Prod.fst hfind)
            rwa [hfind] at hdoes
      · simp only [State.executeGraph]
        rcases hgraph : site.graphs agent.graphId with _ | _
        · exact .unloaded hphase hgraph
        · exact .started hphase hgraph fun h => changed_execute h _ _ _ _
      · exact .acked hphase
      · exact .awaited hphase
    · rcases entries with _ | ⟨⟨runId, info⟩, entries⟩
      · exact .finished hphase
      · simp only [State.postReply]
        rcases hget : s.store.getTask runId with ⟨_ | t, store⟩
        · have hdoes : Does site s (.work r) _ := .waited hphase fun t ht => by
            rw [hget] at ht
            exact absurd ht.symm (Option.some_ne_none t)
          rwa [hget] at hdoes
        · simp only
          split_ifs with hterminal
          · rcases hsend : s.mailbox.send info.agentId info.sender (State.replyBody site t info)
              "reply" info.team r.messageId s.now with _ | mailbox
            · have hdoes : Does site s (.work r) _ := .unsent hphase hsend
              rwa [hget] at hdoes
            · have hdoes : Does site s (.work r) _ := .replied hphase hsend
              rwa [hget] at hdoes
          · have hdoes : Does site s (.work r) _ := .waited hphase fun u hu => by
              rw [hget] at hu
              rw [← Option.some.inj hu]
              exact (Bool.not_eq_true _).mp hterminal
            rwa [hget] at hdoes
    · exact .forgot hphase

end AgentStudio.Inbox

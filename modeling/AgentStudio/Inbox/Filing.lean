import AgentStudio.Inbox.Consumer

/-!
# One task for each message

What holds of the inbox consumer over every run, with the daemon stopped and started anywhere.
`Genuine` is about the tick: the messages in its hands stand in the mailbox, and belong to the agent
in whose turn they are dispatched. `Filed` is about the tasks: a message gets at most one task and
at most one run, an acked message has a task, and the task of a message that is not acked is found
by its key.

The second needs that others leave the consumer's tasks alone (`Event.Spares`): no other task has a
key that the consumer gives, and no call deletes the task of a message that is not acked yet, which
can only be there if the daemon was stopped between the two, or the graph could not be loaded.
-/

namespace AgentStudio.Inbox

open PyText PyDict PyJson Tasks Machine

variable {site : Site} {s : State}

/-! ### Messages and agents -/

/-- The agents whose turn comes in a tick, from the present one on. -/
def Phase.agents : Phase → List Agent
  | .polling agents => agents
  | .dispatching agent _ _ _ agents => agent :: agents
  | _ => []

def Phase.unread : Phase → List Message
  | .dispatching _ _ (.await _) messages _ => messages
  | .dispatching _ m _ messages _ => m :: messages
  | _ => []

@[simp] theorem unread_nextMessage (agent : Agent) (messages : List Message)
    (agents : List Agent) : (nextMessage agent messages agents).unread = messages := by
  cases messages <;> rfl

theorem Message.SameMail.trans {a b c : Message} (h : a.SameMail b) (h' : b.SameMail c) :
    a.SameMail c := by
  rw [SameMail, ← show { b with ackedAt := c.ackedAt } = c from h',
    ← show { a with ackedAt := b.ackedAt } = b from h]

/-- A message of the mailbox, acked meanwhile or not. -/
def State.HasMail (s : State) (m : Message) : Prop := ∃ row ∈ s.mailbox.rows, row.SameMail m

/-- A tick that goes through the roster, with unread mail of the agent whose turn it is. -/
structure Genuine (site : Site) (s : State) : Prop where
  agents : s.phase.agents <:+ site.roster.rows
  turn : ∀ {a m point messages agents}, s.phase = .dispatching a m point messages agents →
    (a.autonomousInbox = true ∧ a.graphId ≠ []) ∧ s.HasMail m ∧
      ∀ x ∈ m :: messages, x.recipient = a.agentId
  unread : ∀ x ∈ s.phase.unread, x ∈ s.mailbox.rows ∧ x.ackedAt = none
  nodup : (s.phase.unread.map Message.messageId).Nodup

namespace Genuine

variable {s' : State} {messages : List Message} {agents : List Agent}

theorem of_agents (hagents : s'.phase.agents <:+ site.roster.rows)
    (hphase : ∀ a m point messages agents, s'.phase ≠ .dispatching a m point messages agents) :
    Genuine site s' := by
  have hunread : s'.phase.unread = [] := by
    rcases hp : s'.phase with _ | _ | ⟨a, m, point, messages, agents⟩ | _ | _
    case dispatching => exact absurd hp (hphase a m point messages agents)
    all_goals rfl
  refine ⟨hagents, fun h => absurd h (hphase _ _ _ _ _), fun x hx => ?_, ?_⟩
  · rw [hunread] at hx
    exact absurd hx List.not_mem_nil
  · rw [hunread]
    exact List.nodup_nil

theorem of_rows (h : Genuine site s) (hphase : s'.phase = s.phase)
    (hrows : ∀ x ∈ s.mailbox.rows, x ∈ s'.mailbox.rows) : Genuine site s' := by
  refine ⟨hphase ▸ h.agents, fun hp => ?_, fun x hx => ?_, hphase ▸ h.nodup⟩
  · obtain ⟨hlive, ⟨row, hrow, hsame⟩, hrecipient⟩ := h.turn (hphase ▸ hp)
    exact ⟨hlive, ⟨row, hrows row hrow, hsame⟩, hrecipient⟩
  · obtain ⟨hmem, hnone⟩ := h.unread x (hphase ▸ hx)
    exact ⟨hrows x hmem, hnone⟩

theorem next {a : Agent} (hphase : s'.phase = nextMessage a messages agents)
    (hagents : a :: agents <:+ site.roster.rows) (hlive : a.autonomousInbox = true ∧ a.graphId ≠ [])
    (hmail : ∀ x ∈ messages, x ∈ s'.mailbox.rows ∧ x.ackedAt = none ∧ x.recipient = a.agentId)
    (hnodup : (messages.map Message.messageId).Nodup) : Genuine site s' := by
  cases messages with
  | nil =>
    refine of_agents ?_ fun _ _ _ _ _ hp => ?_
    · rw [hphase]
      exact (List.suffix_cons a agents).trans hagents
    · rw [hphase] at hp
      cases hp
  | cons m messages =>
    refine ⟨?_, fun hp => ?_, fun x hx => ?_, ?_⟩
    · rw [hphase]
      exact hagents
    · rw [hphase] at hp
      cases hp
      exact ⟨hlive, ⟨m, (hmail m List.mem_cons_self).1, rfl⟩, fun x hx => (hmail x hx).2.2⟩
    · rw [hphase] at hx
      exact ⟨(hmail x hx).1, (hmail x hx).2.1⟩
    · rw [hphase]
      exact hnodup

theorem rest (h : Genuine site s) {a : Agent} {m : Message} {point : Point}
    (hphase : s.phase = .dispatching a m point messages agents)
    (hphase' : s'.phase = nextMessage a messages agents)
    (hrows : s'.mailbox.rows = s.mailbox.rows) :
    Genuine site s' := by
  have hagents := h.agents
  have hunread := h.unread
  have hnodup := h.nodup
  obtain ⟨hlive, -, hrecipient⟩ := h.turn hphase
  rw [hphase] at hagents hunread hnodup
  refine next hphase' hagents hlive (fun x hx => ?_) ?_
  · rw [hrows]
    have hx' : x ∈ Phase.unread (.dispatching a m point messages agents) := by
      cases point <;> first | exact hx | exact List.mem_cons_of_mem m hx
    exact ⟨(hunread x hx').1, (hunread x hx').2, hrecipient x (List.mem_cons_of_mem m hx)⟩
  · cases point <;> first | exact hnodup | exact (List.nodup_cons.mp hnodup).2

theorem stay (h : Genuine site s) {a : Agent} {m : Message} {point point' : Point}
    (hphase : s.phase = .dispatching a m point messages agents)
    (hphase' : s'.phase = .dispatching a m point' messages agents)
    (hunread : s'.phase.unread = s.phase.unread) (hrows : s'.mailbox.rows = s.mailbox.rows) :
    Genuine site s' := by
  have hagents := h.agents
  rw [hphase] at hagents
  refine ⟨hphase' ▸ hagents, fun hp => ?_, fun x hx => ?_, hunread ▸ h.nodup⟩
  · rw [hphase'] at hp
    cases hp
    obtain ⟨hlive, hmail, hrecipient⟩ := h.turn hphase
    refine ⟨hlive, ?_, hrecipient⟩
    rwa [State.HasMail, hrows]
  · rw [hrows]
    exact h.unread x (hunread ▸ hx)

theorem ack (h : Genuine site s) {a : Agent} {m : Message} {runId : Str}
    (hphase : s.phase = .dispatching a m (.ack runId) messages agents) :
    Genuine site (s.ackMessage a m runId messages agents) := by
  have hagents := h.agents
  have hunread := h.unread
  have hnodup := h.nodup
  obtain ⟨hlive, ⟨row, hrow, hsame⟩, hrecipient⟩ := h.turn hphase
  rw [hphase] at hagents hunread hnodup
  obtain ⟨hm, hnodup⟩ := List.nodup_cons.mp hnodup
  refine ⟨hagents, fun hp => ?_, fun x hx => ?_, hnodup⟩
  · cases hp
    exact ⟨hlive, ⟨_, List.mem_map_of_mem hrow, (Mailbox.sameMail_ackRow _).trans hsame⟩,
      hrecipient⟩
  · obtain ⟨hmem, hnone⟩ := hunread x (List.mem_cons_of_mem m hx)
    refine ⟨List.mem_map.mpr ⟨x, hmem, if_neg fun heq => hm ?_⟩, hnone⟩
    exact heq.1 ▸ List.mem_map_of_mem hx

/-- **One step.** -/
theorem does {e : Event} (h : Genuine site s) (hdoes : Does site s e s') : Genuine site s' := by
  have hsend : ∀ {sender recipient body kind team messageId : Str} {mailbox : Mailbox},
      s.mailbox.send sender recipient body kind team messageId s.now = some mailbox →
      ∀ x ∈ s.mailbox.rows, x ∈ mailbox.rows := by
    intro sender recipient body kind team messageId mailbox hsend x hx
    rw [(Mailbox.send_eq_some hsend).2.2.2]
    exact List.mem_append_left _ hx
  cases hdoes with
  | nothing => exact h
  | received hnew => exact h.of_rows rfl (hsend hnew)
  | elapsed | called => exact h.of_rows rfl fun x hx => hx
  | ticked hphase => exact of_agents List.suffix_rfl fun _ _ _ _ _ => Phase.noConfusion
  | passed | finished | waited | unsent | replied | forgot | restarted =>
    exact of_agents List.nil_suffix fun _ _ _ _ _ => Phase.noConfusion
  | skipped hphase hskip =>
    have hagents := h.agents
    rw [hphase] at hagents
    exact of_agents ((List.suffix_cons _ _).trans hagents) fun _ _ _ _ _ => Phase.noConfusion
  | polled hphase hauto hbound =>
    have hagents := h.agents
    rw [hphase] at hagents
    refine next rfl hagents ⟨hauto, hbound⟩ (fun x hx => ?_) (Mailbox.nodup_inbox 100)
    obtain ⟨hrow, hrecipient, hnone⟩ := Mailbox.mem_inbox hx
    exact ⟨hrow, hnone, hrecipient⟩
  | refused hphase | unloaded hphase | awaited hphase => exact h.rest hphase rfl rfl
  | found hphase | submitted hphase | started hphase =>
    exact h.stay hphase rfl (by rw [hphase]; rfl) rfl
  | acked hphase => exact h.ack hphase

end Genuine

/-! ### Tasks -/

def Log.runs (log : Log) : List Str := log.started.map Started.messageId

/-- The task for a message is found by its key. -/
def State.Held (s : State) (messageId : Str) : Prop :=
  ∃ id, s.store.db.indexed (inboxKey messageId) = some id ∧ s.store.sees id = true

def State.TaskOfUnread (s : State) (id : Str) : Prop :=
  ∃ m ∈ s.mailbox.rows, m.ackedAt = none ∧ s.store.db.indexed (inboxKey m.messageId) = some id

/-- A message is dispatched that has a task, and no run before the graph is executed. -/
def Log.Ready (log : Log) : Phase → Prop
  | .dispatching _ m (.execute _ _) _ _ => m.messageId ∈ log.created ∧ m.messageId ∉ log.runs
  | .dispatching _ m (.ack _) _ _ => m.messageId ∈ log.created
  | _ => True

theorem Log.ready_nextMessage (log : Log) (a : Agent) (messages : List Message)
    (agents : List Agent) : log.Ready (nextMessage a messages agents) := by
  cases messages <;> trivial

/-- The tasks in `held` are left alone: no call of the task store, and no submission of the
consumer, takes them from view, and no other task gets a key that the consumer gives. -/
def Event.Spares (held : State → Str → Prop) (e : Event) (s : State) : Prop :=
  match e with
  | .call c =>
    (∀ id, held s id → Tasks.Spares c s.store id) ∧ ∀ messageId, ¬Submits c (inboxKey messageId)
  | .work r => ∀ a m messages agents, s.phase = .dispatching a m .submit messages agents →
    ∀ id, held s id → id ∉ s.store.db.expiredIds (r.clock 2)
  | _ => True

/-- A message has at most one task and at most one run, an acked one has a task, and the task of
one that is not acked is found by its key. -/
structure Filed (s : State) : Prop where
  cached : s.store.Cached
  created_nodup : s.log.created.Nodup
  runs_nodup : s.log.runs.Nodup
  runs_created : ∀ id ∈ s.log.runs, id ∈ s.log.created
  known : ∀ id ∈ s.log.created, id ∈ s.mailbox.rows.map Message.messageId
  acked : ∀ m ∈ s.mailbox.rows, m.ackedAt ≠ none → m.messageId ∈ s.log.created
  held : ∀ m ∈ s.mailbox.rows, m.ackedAt = none → m.messageId ∈ s.log.created →
    s.Held m.messageId
  indexed : ∀ id, s.store.db.indexed (inboxKey id) ≠ none → id ∈ s.log.created
  keyed : ∀ id taskId, s.store.db.Keyed (inboxKey id) taskId → id ∈ s.log.created
  ready : s.log.Ready s.phase

theorem inboxKey_ne_nil (id : Str) : inboxKey id ≠ [] := List.cons_ne_nil _ _

theorem inboxKey_injective : Function.Injective inboxKey := fun _ _ h =>
  List.append_cancel_left h

namespace Filed

variable {s' : State} {m : Message}

theorem of_same (h : Filed s) (hstore : Store.Alike s.store s'.store)
    (hrows : s'.mailbox.rows = s.mailbox.rows) (hcreated : s'.log.created = s.log.created)
    (hstarted : s'.log.started = s.log.started) (hready : s'.log.Ready s'.phase) : Filed s' := by
  have hruns : s'.log.runs = s.log.runs := congrArg (List.map _) hstarted
  refine ⟨hstore.cached, hcreated ▸ h.created_nodup, hruns ▸ h.runs_nodup, ?_, ?_, ?_, ?_, ?_, ?_,
    hready⟩
  · rw [hruns, hcreated]
    exact h.runs_created
  · rw [hrows, hcreated]
    exact h.known
  · rw [hrows, hcreated]
    exact h.acked
  · rw [hrows, hcreated]
    intro m hm hnone hmem
    obtain ⟨id, hindexed, hsees⟩ := h.held m hm hnone hmem
    exact ⟨id, by rw [hstore.db]; exact hindexed, (hstore.sees id).trans hsees⟩
  · rw [hstore.db, hcreated]
    exact h.indexed
  · rw [hstore.db, hcreated]
    exact h.keyed

theorem receive (h : Filed s) (hstore : Store.Alike s.store s'.store)
    (hrows : s'.mailbox.rows = s.mailbox.rows ++ [m])
    (hnew : m.messageId ∉ s.mailbox.rows.map Message.messageId) (hnone : m.ackedAt = none)
    (hcreated : s'.log.created = s.log.created) (hstarted : s'.log.started = s.log.started)
    (hready : s'.log.Ready s'.phase) : Filed s' := by
  have hsame : Filed { s' with mailbox := s.mailbox } :=
    h.of_same hstore rfl hcreated hstarted hready
  refine ⟨hsame.cached, hsame.created_nodup, hsame.runs_nodup, hsame.runs_created,
    fun id hid => ?_, fun x hx hxa => ?_, fun x hx hxa hmem => ?_, hsame.indexed,
      hsame.keyed, hready⟩
  · rw [hrows, List.map_append]
    exact List.mem_append_left _ (hsame.known id hid)
  all_goals rw [hrows] at hx; rcases List.mem_append.mp hx with hx | hx
  · exact hsame.acked x hx hxa
  · rw [List.mem_singleton.mp hx] at hxa
    exact absurd hnone hxa
  · exact hsame.held x hx hxa hmem
  · rw [List.mem_singleton.mp hx] at hmem
    exact absurd (hsame.known _ hmem) hnew

theorem called {c : Call} (h : Filed s)
    (hspares : ∀ id, s.TaskOfUnread id → Tasks.Spares c s.store id)
    (hkeys : ∀ messageId, ¬Submits c (inboxKey messageId))
    (hs' : s' = { s with store := (s.store.step c).2 }) : Filed s' := by
  subst hs'
  have hsubmits := fun id => h.cached.step_of_not_submits (hkeys id)
  refine ⟨h.cached.step c, h.created_nodup, h.runs_nodup, h.runs_created, h.known, h.acked,
    fun m hm hnone hmem => ?_, fun id hid => ?_, fun id taskId hid => ?_, h.ready⟩
  · obtain ⟨id, hindexed, hsees⟩ := h.held m hm hnone hmem
    exact ⟨id, h.cached.indexed_step hindexed,
      h.cached.sees_step (hspares id ⟨m, hm, hnone, hindexed⟩) hsees⟩
  · exact h.indexed id ((hsubmits id).1 ▸ hid)
  · exact h.keyed id taskId ((hsubmits id).2 taskId hid)

theorem notMem_created (h : Filed s) {store : Store} (hm : m ∈ s.mailbox.rows)
    (hnone : m.ackedAt = none)
    (hfind : s.store.findByIdempotency (inboxKey m.messageId) = (none, store)) :
    m.messageId ∉ s.log.created := fun hmem => by
  have hsome := (findByIdempotency_isSome_iff h.cached (inboxKey_ne_nil _)).mpr
    (h.held m hm hnone hmem)
  rw [hfind] at hsome
  exact Bool.false_ne_true hsome

theorem submitted {store : Store} {a : Agent} {clock : ℕ → ℤ} {point : Phase} (h : Filed s)
    (hm : m ∈ s.mailbox.rows) (hnone : m.ackedAt = none)
    (hfind : s.store.findByIdempotency (inboxKey m.messageId) = (none, store))
    (hspares : ∀ id, s.TaskOfUnread id → id ∉ s.store.db.expiredIds (clock 2))
    (hpoint : ∀ log : Log, log.Ready point ↔
      m.messageId ∈ log.created ∧ m.messageId ∉ log.runs) :
    Filed { s with
      store := (store.submit (inboxTask a m) clock).2
      phase := point
      log := { s.log with
        created := if (store.submit (inboxTask a m) clock).2.db.lastSubmitDeduped
          then s.log.created else s.log.created ++ [m.messageId] } } := by
  have hnew := h.notMem_created hm hnone hfind
  have halike : Store.Alike s.store store := by
    have := h.cached.alike_findByIdempotency (inboxKey m.messageId)
    rwa [hfind] at this
  have hnotKeyed : ∀ id, ¬store.db.Keyed (inboxKey m.messageId) id := fun id hid =>
    hnew (h.keyed _ id (halike.db ▸ hid))
  have hnotIndexed : store.db.indexed (inboxKey m.messageId) = none := by
    by_contra hindexed
    exact hnew (h.indexed _ (halike.db ▸ hindexed))
  obtain ⟨hdeduped, hindexed, hsees⟩ :
      (store.submit (inboxTask a m) clock).2.db.lastSubmitDeduped = false ∧
        (store.submit (inboxTask a m) clock).2.db.indexed (inboxKey m.messageId) = some _ ∧
        (store.submit (inboxTask a m) clock).2.sees _ = true :=
    halike.cached.submit_new (inboxKey_ne_nil _) hnotKeyed hnotIndexed
  have hother : ∀ {id}, id ≠ m.messageId → (inboxTask a m).idempotencyKey ≠ inboxKey id :=
    fun hne heq => hne (inboxKey_injective heq).symm
  rw [if_neg (by rw [hdeduped]; exact Bool.false_ne_true)]
  have hmem : ∀ {id}, id ∈ s.log.created → id ∈ s.log.created ++ [m.messageId] := fun hid =>
    List.mem_append_left _ hid
  have hself : m.messageId ∈ s.log.created ++ [m.messageId] :=
    List.mem_append_right _ (List.mem_singleton.mpr rfl)
  refine ⟨halike.cached.submit _ _, ?_, h.runs_nodup, fun id hid => hmem (h.runs_created id hid),
    fun id hid => ?_, fun x hx hxa => hmem (h.acked x hx hxa), fun x hx hxa hxm => ?_,
    fun id hid => ?_, fun id taskId hid => ?_,
    (hpoint _).mpr ⟨hself, fun hrun => hnew (h.runs_created _ hrun)⟩⟩
  · refine List.nodup_append.mpr ⟨h.created_nodup, List.nodup_singleton _, fun x hx y hy heq => ?_⟩
    rw [List.mem_singleton.mp hy] at heq
    exact hnew (heq ▸ hx)
  · rcases mem_snoc.mp hid with hid | rfl
    · exact h.known id hid
    · exact List.mem_map_of_mem hm
  · by_cases heq : x.messageId = m.messageId
    · exact ⟨_, heq ▸ hindexed, hsees⟩
    · have hold : x.messageId ∈ s.log.created :=
        (List.mem_append.mp hxm).resolve_right fun hx' => heq (List.mem_singleton.mp hx')
      obtain ⟨id, hid, hids⟩ := h.held x hx hxa hold
      have hspared := hspares id ⟨x, hx, hxa, hid⟩
      rw [← halike.db] at hid hspared
      exact ⟨id, Store.indexed_submit hid,
        halike.cached.sees_submit hspared ((halike.sees id).trans hids)⟩
  · by_cases heq : id = m.messageId
    · exact heq ▸ hself
    · refine hmem (h.indexed id fun hno => hid ?_)
      exact (Store.indexed_submit_of_ne (hother heq)).trans (halike.db ▸ hno)
  · by_cases heq : id = m.messageId
    · exact heq ▸ hself
    · have hkeyed := halike.cached.keyed_submit_of_ne (hother heq) hid
      exact hmem (h.keyed id taskId (halike.db ▸ hkeyed))

theorem started {store : Store} {taskId graphId : Str} {vars : Variables} {point : Phase}
    (h : Filed s) (hstore : Store.Changed taskId s.store store)
    (hcreated : m.messageId ∈ s.log.created) (hruns : m.messageId ∉ s.log.runs)
    (hs' : s' = { s with
      store := store
      phase := point
      log := { s.log with started := s.log.started ++ [⟨m.messageId, taskId, graphId, vars⟩] } })
    (hpoint : s'.log.Ready point) : Filed s' := by
  have happend : s'.log.runs = s.log.runs ++ [m.messageId] := by
    rw [hs']
    exact List.map_append
  subst hs'
  refine ⟨hstore.cached, h.created_nodup, ?_, fun id hid => ?_, h.known, h.acked,
    fun x hx hxa hxm => ?_, fun id hid => ?_, fun id tid hid => ?_, hpoint⟩
  · rw [happend]
    refine List.nodup_append.mpr ⟨h.runs_nodup, List.nodup_singleton _, fun x hx y hy heq => ?_⟩
    rw [List.mem_singleton.mp hy] at heq
    exact hruns (heq ▸ hx)
  · rw [happend] at hid
    rcases mem_snoc.mp hid with hid | rfl
    · exact h.runs_created id hid
    · exact hcreated
  · obtain ⟨id, hid, hids⟩ := h.held x hx hxa hxm
    exact ⟨id, (hstore.indexed _).trans hid, (hstore.sees id).trans hids⟩
  · exact h.indexed id fun hno => hid ((hstore.indexed _).trans hno)
  · exact h.keyed id tid (hstore.keyed.mp hid)

theorem ackMessage {a : Agent} {runId : Str} {messages : List Message} {agents : List Agent}
    (h : Filed s) (hcreated : m.messageId ∈ s.log.created) :
    Filed (s.ackMessage a m runId messages agents) := by
  refine ⟨h.cached, h.created_nodup, h.runs_nodup, h.runs_created, fun id hid => ?_,
    fun x hx hxa => ?_, fun x hx hxa hxm => ?_, h.indexed, h.keyed, trivial⟩
  · obtain ⟨y, hy, rfl⟩ := List.mem_map.mp (h.known id hid)
    refine List.mem_map.mpr ⟨_, List.mem_map_of_mem hy, ?_⟩
    exact Mailbox.messageId_ackRow _ _ _ y
  all_goals obtain ⟨y, hy, rfl⟩ := List.mem_map.mp hx; unfold Mailbox.ackRow at hxa
  · rw [Mailbox.messageId_ackRow]
    split_ifs at hxa with hself
    · exact hself.1 ▸ hcreated
    · exact h.acked y hy hxa
  · rw [Mailbox.messageId_ackRow] at hxm ⊢
    split_ifs at hxa with hself
    exact h.held y hy hxa hxm

theorem restarted (h : Filed s) (hrows : s'.mailbox.rows = s.mailbox.rows)
    (hstore : s'.store = .open s.store.lazyLoad s.store.db.tasks s.store.db.history
      s.store.db.index s.store.db.ttl) (hcreated : s'.log.created = s.log.created)
    (hstarted : s'.log.started = s.log.started) (hready : s'.log.Ready s'.phase) : Filed s' := by
  have hruns : s'.log.runs = s.log.runs := congrArg (List.map _) hstarted
  refine ⟨?_, hcreated ▸ h.created_nodup, hruns ▸ h.runs_nodup, ?_, ?_, ?_, ?_, ?_, ?_, hready⟩
  · rw [hstore]
    exact Store.cached_open _ _ _ _ _
  · rw [hruns, hcreated]
    exact h.runs_created
  · rw [hrows, hcreated]
    exact h.known
  · rw [hrows, hcreated]
    exact h.acked
  · rw [hrows, hcreated]
    intro m hm hnone hmem
    obtain ⟨id, hindexed, hsees⟩ := h.held m hm hnone hmem
    obtain ⟨r, hr⟩ := Store.row_of_sees hsees
    rw [State.Held, hstore]
    exact ⟨id, hindexed, Store.sees_open _ _ _ _ _ hr⟩
  · rw [hstore, hcreated]
    exact h.indexed
  · rw [hstore, hcreated]
    exact h.keyed

/-- **One step.** -/
theorem does {e : Event} (h : Filed s) (hgenuine : Genuine site s)
    (hspares : e.Spares State.TaskOfUnread s) (hdoes : Does site s e s') : Filed s' := by
  have hready := h.ready
  cases hdoes with
  | nothing => exact h
  | received hnew =>
    obtain ⟨-, -, hid, hrows⟩ := Mailbox.send_eq_some hnew
    exact h.receive (.refl h.cached) hrows hid rfl rfl rfl hready
  | elapsed d => exact h.of_same (.refl h.cached) rfl rfl rfl hready
  | called c hphase => exact h.called hspares.1 hspares.2 rfl
  | ticked | passed | skipped | finished | forgot =>
    exact h.of_same (.refl h.cached) rfl rfl rfl trivial
  | polled | refused | unloaded | awaited =>
    exact h.of_same (.refl h.cached) rfl rfl rfl (Log.ready_nextMessage _ _ _ _)
  | found hphase hbody hfound =>
    refine h.of_same (h.cached.alike_findByIdempotency _) rfl rfl rfl (h.indexed _ ?_)
    rw [(taskId_of_findByIdempotency h.cached hfound).1]
    exact Option.some_ne_none _
  | submitted hphase hbody hnone =>
    obtain ⟨hm, hunread⟩ := hgenuine.unread _ (by rw [hphase]; exact List.mem_cons_self)
    exact h.submitted hm hunread hnone (hspares _ _ _ _ hphase) fun log => Iff.rfl
  | started hphase hgraph hstore =>
    rw [hphase] at hready
    exact h.started (hstore h.cached) hready.1 hready.2 rfl hready.1
  | acked hphase =>
    rw [hphase] at hready
    exact h.ackMessage hready
  | waited | unsent =>
    exact h.of_same (h.cached.alike_getTask _) rfl rfl rfl trivial
  | replied hphase hnew =>
    obtain ⟨-, -, hid, hrows⟩ := Mailbox.send_eq_some hnew
    exact h.receive (h.cached.alike_getTask _) hrows hid rfl rfl rfl trivial
  | restarted => exact h.restarted rfl rfl rfl rfl trivial

end Filed

/-! ### Every run -/

/-- No task has a key that the consumer gives. -/
structure Unused (T : Table) (index : List IndexRow) : Prop where
  rows : ∀ r ∈ T.rows, ∀ id, r.idempotencyKey ≠ inboxKey id
  index : ∀ r ∈ index, ∀ id, r.idempotencyKey ≠ inboxKey id

theorem genuine_start (site : Site) (lazyLoad : Bool) (T : Table) (history : List HistoryRow)
    (index : List IndexRow) (ttl : ℤ) : Genuine site (start lazyLoad T history index ttl) :=
  .of_agents List.nil_suffix fun _ _ _ _ _ => Phase.noConfusion

theorem filed_start {T : Table} {index : List IndexRow} (h : Unused T index) (lazyLoad : Bool)
    (history : List HistoryRow) (ttl : ℤ) : Filed (start lazyLoad T history index ttl) := by
  refine ⟨Store.cached_open _ _ _ _ _, List.nodup_nil, List.nodup_nil, fun _ hid => hid,
    List.forall_mem_nil _, List.forall_mem_nil _,
    List.forall_mem_nil _, fun id hid => absurd ?_ hid, fun id taskId hid => ?_,
    trivial⟩
  · refine Option.map_eq_none_iff.mpr (List.find?_eq_none.mpr fun r hr => ?_)
    rw [decide_eq_true_eq]
    exact h.index r hr id
  · obtain ⟨r, hr, hkey⟩ := hid
    exact absurd hkey (h.rows r (Table.mem_of_find hr).1 id)

end AgentStudio.Inbox

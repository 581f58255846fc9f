import AgentStudio.Inbox.Filing

/-!
# Runs and messages

How many runs does the inbox consumer start? A reply is a message in the mailbox of the sender, and
if the sender is an agent that the consumer serves as well (`Site.Live`), it is dispatched like any
other: its run is answered again, and two such agents answer each other without end. One message is
enough (`not_runs_le_messages`).

`runs_le_messages` is the bound for runs in which no message from outside goes from one served agent
to another (`Event.Outward`): every run is started for a message from outside, at most one for each,
and once these are acked nothing is started any more. The invariant is `Quiet`: mail for served
agents comes from outside, and replies are owed to others only. After the daemon was stopped between
a run and the ack of its message, it rests on the task being found again (`Event.Spares`).
-/

namespace AgentStudio.Inbox

open PyText PyDict PyJson Tasks Machine

variable {site : Site} {s : State}

/-- The consumer serves the agent: it is autonomous and bound to a graph. -/
def Site.Live (site : Site) (id : Str) : Prop :=
  ∃ a ∈ site.roster.rows, a.agentId = id ∧ a.autonomousInbox = true ∧ a.graphId ≠ []

instance (site : Site) (id : Str) : Decidable (site.Live id) :=
  inferInstanceAs (Decidable (∃ a ∈ site.roster.rows, _))

/-- A message from outside does not go from one served agent to another. -/
def Event.Outward (site : Site) : Event → Prop
  | .send sender recipient _ _ _ _ => ¬(site.Live sender ∧ site.Live recipient)
  | _ => True

def Log.sentIds (log : Log) : List Str := log.sent.map Message.messageId

def Phase.entries : Phase → List (Str × PendingReply)
  | .replying entries => entries
  | .forgetting _ entries => entries
  | _ => []

@[simp] theorem entries_nextMessage (agent : Agent) (messages : List Message)
    (agents : List Agent) : (nextMessage agent messages agents).entries = [] := by
  cases messages <;> rfl

/-- Mail for served agents comes from outside, from senders that are not served themselves, and
replies are owed to such senders only. -/
structure Quiet (site : Site) (s : State) : Prop where
  mail : ∀ m ∈ s.mailbox.rows, site.Live m.recipient →
    ¬site.Live m.sender ∧ m.messageId ∈ s.log.sentIds
  pending : ∀ e ∈ s.pendingReplies, ¬site.Live e.2.sender
  entries : ∀ e ∈ s.phase.entries, ¬site.Live e.2.sender
  created : ∀ id ∈ s.log.created, id ∈ s.log.sentIds

namespace Quiet

variable {messages : List Message}

theorem dispatched (h : Quiet site s) (hgenuine : Genuine site s) {a : Agent} {m : Message}
    {point : Point} {agents : List Agent}
    (hphase : s.phase = .dispatching a m point messages agents) :
    ¬site.Live m.sender ∧ m.messageId ∈ s.log.sentIds := by
  obtain ⟨⟨hauto, hbound⟩, ⟨row, hrow, hsame⟩, hrecipient⟩ := hgenuine.turn hphase
  have hagents := hgenuine.agents
  rw [hphase] at hagents
  have hlive : site.Live m.recipient :=
    ⟨a, hagents.subset List.mem_cons_self, (hrecipient m List.mem_cons_self).symm, hauto, hbound⟩
  rw [← show { row with ackedAt := m.ackedAt } = m from hsame] at hlive ⊢
  exact h.mail row hrow hlive

theorem of_same {s' : State} (h : Quiet site s) (hrows : s'.mailbox.rows = s.mailbox.rows)
    (hpending : ∀ e ∈ s'.pendingReplies, e ∈ s.pendingReplies)
    (hentries : ∀ e ∈ s'.phase.entries, e ∈ s.phase.entries ∨ e ∈ s.pendingReplies)
    (hsent : s'.log.sent = s.log.sent) (hcreated : s'.log.created = s.log.created) :
    Quiet site s' := by
  have hids : s'.log.sentIds = s.log.sentIds := congrArg (List.map _) hsent
  refine ⟨?_, fun e he => h.pending e (hpending e he), fun e he => ?_, ?_⟩
  · rw [hrows, hids]
    exact h.mail
  · exact (hentries e he).elim (h.entries e) (h.pending e)
  · rw [hcreated, hids]
    exact h.created

theorem receive {s' : State} (h : Quiet site s) {m : Message}
    (hrows : s'.mailbox.rows = s.mailbox.rows ++ [m])
    (hm : site.Live m.recipient → ¬site.Live m.sender ∧ m.messageId ∈ s'.log.sentIds)
    (hpending : s'.pendingReplies = s.pendingReplies)
    (hentries : ∀ e ∈ s'.phase.entries, e ∈ s.phase.entries)
    (hsent : ∀ id ∈ s.log.sentIds, id ∈ s'.log.sentIds)
    (hcreated : s'.log.created = s.log.created) : Quiet site s' := by
  refine ⟨fun x hx hlive => ?_, hpending ▸ h.pending, fun e he => h.entries e (hentries e he),
    fun id hid => hsent id (h.created id (hcreated ▸ hid))⟩
  rw [hrows] at hx
  rcases mem_snoc.mp hx with hx | rfl
  · exact ⟨(h.mail x hx hlive).1, hsent _ (h.mail x hx hlive).2⟩
  · exact hm hlive

theorem ackMessage {a : Agent} {m : Message} {runId : Str} {agents : List Agent}
    (h : Quiet site s) :
    Quiet site (s.ackMessage a m runId messages agents) := by
  refine ⟨fun x hx hlive => ?_, h.pending, List.forall_mem_nil _, h.created⟩
  obtain ⟨row, hrow, rfl⟩ := List.mem_map.mp hx
  obtain ⟨ackedAt, heq⟩ : ∃ ackedAt, Mailbox.ackRow a.agentId m.messageId s.now row = _ :=
    Mailbox.ackRow_eq m.messageId
  rw [heq] at hlive ⊢
  exact h.mail row hrow hlive

theorem awaitReply {a : Agent} {m : Message} {runId : Str} {agents : List Agent} (h : Quiet site s)
    (hm : ¬site.Live m.sender) : Quiet site (s.awaitReply a m runId messages agents) := by
  refine ⟨h.mail, fun e he => ?_, fun e he => ?_, h.created⟩
  · simp only [State.awaitReply] at he
    split_ifs at he
    · exact h.pending e he
    · rcases mem_setItem he with rfl | he
      · exact hm
      · exact h.pending e he
  · rw [State.awaitReply, entries_nextMessage] at he
    exact absurd he List.not_mem_nil

/-- **One step.** -/
theorem does {e : Event} {s' : State} (h : Quiet site s) (hgenuine : Genuine site s)
    (houtward : e.Outward site) (hdoes : Does site s e s') : Quiet site s' := by
  have hnil : ∀ {P : Str × PendingReply → Prop}, ∀ e ∈ ([] : List (Str × PendingReply)), P e :=
    List.forall_mem_nil _
  have hself : ∀ e ∈ s.pendingReplies, e ∈ s.pendingReplies := fun _ he => he
  have hnext : ∀ {a messages agents}, ∀ e ∈ (nextMessage a messages agents).entries,
      e ∈ s.phase.entries ∨ e ∈ s.pendingReplies := fun e he => by
    rw [entries_nextMessage] at he
    exact absurd he List.not_mem_nil
  cases hdoes with
  | nothing => exact h
  | received hnew =>
    obtain ⟨-, -, -, hrows⟩ := Mailbox.send_eq_some hnew
    refine h.receive hrows (fun hlive => ⟨fun hsender => houtward ⟨hsender, hlive⟩, ?_⟩) rfl
      (fun _ he => he) (fun id hid => ?_) rfl
    · exact List.mem_map.mpr ⟨_, List.mem_append_right _ (List.mem_singleton.mpr rfl), rfl⟩
    · rw [Log.sentIds, List.map_append]
      exact List.mem_append_left _ hid
  | elapsed | called => exact h.of_same rfl hself (fun _ he => Or.inl he) rfl rfl
  | ticked | skipped | found | started | finished | unsent => exact h.of_same rfl hself hnil rfl rfl
  | passed hphase => exact h.of_same rfl hself (fun _ he => Or.inr he) rfl rfl
  | polled | refused | unloaded => exact h.of_same rfl hself hnext rfl rfl
  | submitted hphase hbody hnone =>
    refine ⟨h.mail, h.pending, hnil, fun id hid => ?_⟩
    dsimp only at hid
    split_ifs at hid
    · exact h.created id hid
    · rcases mem_snoc.mp hid with hid | rfl
      · exact h.created id hid
      · exact (h.dispatched hgenuine hphase).2
  | acked hphase => exact h.ackMessage
  | awaited hphase => exact h.awaitReply (h.dispatched hgenuine hphase).1
  | waited hphase hwait =>
    refine h.of_same rfl hself (fun e he => Or.inl ?_) rfl rfl
    rw [hphase]
    exact List.mem_cons_of_mem _ he
  | @replied r runId info entries t mailbox hphase hnew =>
    obtain ⟨-, -, -, hrows⟩ := Mailbox.send_eq_some hnew
    have hentries := h.entries
    rw [hphase] at hentries
    refine h.receive hrows (fun hlive => ?_) rfl (fun e he => ?_) (fun _ hid => hid) rfl
    · exact absurd hlive (hentries (runId, info) List.mem_cons_self)
    · rw [hphase]
      exact List.mem_cons_of_mem _ he
  | forgot hphase =>
    refine h.of_same rfl (fun e he => (List.mem_filter.mp he).1) (fun e he => Or.inl ?_) rfl rfl
    rw [hphase]
    exact he
  | restarted => exact h.of_same rfl hnil hnil rfl rfl

theorem started_le_sent (h : Quiet site s) (hfiled : Filed s) :
    s.log.started.length ≤ s.log.sent.length := by
  have hsub : s.log.runs ⊆ s.log.sentIds := fun id hid => h.created id (hfiled.runs_created id hid)
  have hle := (List.subperm_of_subset hfiled.runs_nodup hsub).length_le
  rwa [Log.runs, Log.sentIds, List.length_map, List.length_map] at hle

end Quiet

/-! ### Coming to rest -/

/-- The mail for served agents is acked, and the tick has no unread message in its hands. -/
structure AtRest (site : Site) (s : State) : Prop where
  read : ∀ m ∈ s.mailbox.rows, site.Live m.recipient → m.ackedAt ≠ none
  unread : s.phase.unread = []

def Event.isSend : Event → Bool
  | .send .. => true
  | _ => false

/-- **One step.** The consumer stays at rest and starts nothing. -/
theorem AtRest.does {e : Event} {s' : State} (h : AtRest site s) (hgenuine : Genuine site s)
    (hquiet : Quiet site s) (hsend : e.isSend = false) (hdoes : Does site s e s') :
    AtRest site s' ∧ s'.log.started = s.log.started := by
  have hbusy : ∀ {a m point messages agents}, s.phase = .dispatching a m point messages agents →
      Phase.unread (.dispatching a m point messages agents) = m :: messages → False := by
    intro a m point messages agents hphase hunread
    exact List.cons_ne_nil _ _ (hunread.symm.trans (hphase ▸ h.unread))
  cases hdoes with
  | nothing => exact ⟨h, rfl⟩
  | received hnew => exact absurd hsend Bool.noConfusion
  | elapsed | called => exact ⟨⟨h.read, h.unread⟩, rfl⟩
  | ticked | passed | skipped | finished | waited | unsent | forgot | restarted =>
    exact ⟨⟨h.read, rfl⟩, rfl⟩
  | polled hphase hauto hbound =>
    refine ⟨⟨h.read, ?_⟩, rfl⟩
    rw [unread_nextMessage]
    refine List.eq_nil_iff_forall_not_mem.mpr fun m hm => ?_
    obtain ⟨hrow, hrecipient, hnone⟩ := Mailbox.mem_inbox hm
    have hagents := hgenuine.agents
    rw [hphase] at hagents
    exact h.read m hrow ⟨_, hagents.subset List.mem_cons_self, hrecipient.symm, hauto, hbound⟩ hnone
  | refused hphase | found hphase | submitted hphase | started hphase | unloaded hphase
  | acked hphase => exact (hbusy hphase rfl).elim
  | awaited hphase =>
    refine ⟨⟨h.read, ?_⟩, rfl⟩
    have hunread := h.unread
    rw [hphase] at hunread
    rw [State.awaitReply, unread_nextMessage]
    exact hunread
  | @replied r runId info entries t mailbox hphase hnew =>
    obtain ⟨-, -, -, hrows⟩ := Mailbox.send_eq_some hnew
    have hentries := hquiet.entries
    rw [hphase] at hentries
    refine ⟨⟨fun m hm hlive => ?_, rfl⟩, rfl⟩
    dsimp only at hm
    rw [hrows] at hm
    rcases mem_snoc.mp hm with hm | rfl
    · exact h.read m hm hlive
    · exact absurd hlive (hentries (runId, info) List.mem_cons_self)

/-- The consumer has started at most one run for each message from outside, and comes to rest with
the mail of the agents that it serves. -/
def Settles (site : Site) (s : State) : Prop :=
  s.log.started.length ≤ s.log.sent.length ∧
    (AtRest site s → ∀ events, (∀ e ∈ events, e.isSend = false) →
      (run (step site) events s).2.log.started = s.log.started)

theorem Quiet.settles (h : Quiet site s) (hgenuine : Genuine site s) (hfiled : Filed s) :
    Settles site s := by
  refine ⟨h.started_le_sent hfiled, fun hrest events hsend => ?_⟩
  let I (s' : State) : Prop := Genuine site s' ∧ Quiet site s' ∧ AtRest site s' ∧
    s'.log.started = s.log.started
  refine (run_invariant (I := I) (fun e s' hs hsend => ?_) events
    ⟨hgenuine, h, hrest, rfl⟩ (along_of_forall hsend)).2.2.2
  obtain ⟨hgenuine, hquiet, hrest, hstarted⟩ := hs
  have hdoes := does_step site e s'
  have houtward : e.Outward site := by cases e <;> trivial
  obtain ⟨hrest', hstarted'⟩ := hrest.does hgenuine hquiet hsend hdoes
  exact ⟨hgenuine.does hdoes, hquiet.does hgenuine houtward hdoes, hrest',
    hstarted'.trans hstarted⟩

/-! ### Every run -/

/-- **Runs and messages.** If no message from outside goes from one served agent to another, and
the tasks of unread messages are left alone, the consumer never starts more runs than there are
messages from outside, and it starts nothing any more once the mail of the agents that it serves is
acked. -/
theorem runs_le_messages (site : Site) {T : Table} {index : List IndexRow}
    (hunused : Unused T index)
    (lazyLoad : Bool) (history : List HistoryRow) (ttl : ℤ) (events : List Event)
    (h : Along (step site) (fun e s => e.Outward site ∧ e.Spares State.TaskOfUnread s) events
      (start lazyLoad T history index ttl)) (n : ℕ) :
    Settles site (run (step site) (events.take n) (start lazyLoad T history index ttl)).2 := by
  let I (s : State) : Prop := Genuine site s ∧ Filed s ∧ Quiet site s
  have hstart : I (start lazyLoad T history index ttl) :=
    ⟨genuine_start .., filed_start hunused .., List.forall_mem_nil _,
      List.forall_mem_nil _, List.forall_mem_nil _,
      List.forall_mem_nil _⟩
  have htake : Along (step site) _ (events.take n) (start lazyLoad T history index ttl) :=
    (along_append.mp ((List.take_append_drop n events).symm ▸ h)).1
  obtain ⟨hgenuine, hfiled, hquiet⟩ := run_invariant (I := I)
    (fun e s hs hok => ⟨hs.1.does (does_step site e s),
      hs.2.1.does hs.1 hok.2 (does_step site e s), hs.2.2.does hs.1 hok.1 (does_step site e s)⟩)
    (events.take n) hstart htake
  exact hquiet.settles hgenuine hfiled

private def twoAgents : Site where
  roster := ⟨[⟨"a", "g", true⟩, ⟨"b", "g", true⟩], by decide⟩
  graphs := fun _ => true
  limit := fun _ => none
  repr := fun _ => []

private def reading : Reading := ⟨"r", "e", fun _ => 1⟩

/-- A message from somebody else to an agent is dispatched and its run started. -/
theorem runs_le_messages_twoAgents :
    Settles twoAgents (run (step twoAgents)
      [.send "user".toList "a".toList "hi".toList [] [] "m".toList, .tick, .work reading,
        .work reading, .work reading] (start true Table.empty [] [] 0)).2 := by
  refine runs_le_messages twoAgents ⟨List.forall_mem_nil _, fun r hr =>
    absurd hr List.not_mem_nil⟩ true [] 0
    [.send "user" "a" "hi" [] [] "m", .tick, .work reading,
      .work reading, .work reading] ?_ 5
  have hnil : ∀ {P : Prop} (id : Str), P → id ∉ ([] : List Str) := fun _ _ => List.not_mem_nil
  have houtward : ¬(twoAgents.Live "user" ∧ twoAgents.Live "a") := by decide
  refine ⟨⟨houtward, trivial⟩, ⟨trivial, trivial⟩, ⟨trivial, ?_⟩, ⟨trivial, ?_⟩, ⟨trivial, ?_⟩,
    trivial⟩
  all_goals exact fun _ _ _ _ _ id => hnil id

/-- Two agents answer each other: one message starts a run that is answered by a run. -/
theorem not_runs_le_messages :
    ¬∀ (site : Site) (events : List Event),
      Settles site (run (step site) events (start true Table.empty [] [] 0)).2 := by
  intro h
  let works (n : ℕ) : List Event := List.replicate n (.work reading)
  let failed : Call := ⟨.updateStatus (Store.newId 1 1) .failed none [] none, fun _ => 1⟩
  have hle := (h twoAgents ([.send "a" "b" "hi" [] [] "m", .tick] ++
    works 9 ++ [.call failed, .tick] ++ works 6 ++ .tick :: works 3)).1
  exact absurd hle (by decide)

end AgentStudio.Inbox

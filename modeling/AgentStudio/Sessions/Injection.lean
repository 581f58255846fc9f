import AgentStudio.Sessions.Manager

/-!
# Injected turns

What `inject_input` of `agent_runtime/session_manager.py` promises: an input that it has accepted is
executed as one user turn, in the order of the calls, before the session is completed, unless the
session is killed or fails before that; a completed session accepts no input.

`accepted` reads off the answers what has been accepted. `Served` is the invariant of a session:
while its task runs, the turns so far, the turns that wait and the inputs that the task has not
taken over yet are the input of the session with the accepted ones behind it. When the task finds
neither kind left, it completes the session before it waits again, so nothing can come in between.
-/

namespace AgentStudio.Sessions

open PyText Rows Machine

/-! ### Accepted inputs -/

def Answer.accepts (id : Str) : Answer → Option Str
  | .injected id' text => if id' = id then some text else none
  | _ => none

/-- The inputs that have been accepted for a session, in the order of the calls. -/
def accepted (id : Str) (answers : List Answer) : List Str := answers.filterMap (Answer.accepts id)

/-- The turns of a session are its input and the accepted ones, in order; all of them have been
executed when it is completed, and then it accepts no more. -/
structure Orderly (answers : List Answer) (m : SessionManager) (s : BackgroundSession) : Prop where
  order : s.executed <+: s.inputText :: accepted s.id answers
  complete : s.status = .completed → s.executed = s.inputText :: accepted s.id answers ∧
    s.phase = .ended
  closed : s.status = .completed → ∀ text, ∃ error,
    (step (.act s.id (.injectInput text)) m).1 = .rejected error

theorem accepted_append (id : Str) (answers : List Answer) (a : Answer) :
    accepted id (answers ++ [a]) = accepted id answers ++ (a.accepts id).toList := by
  rw [accepted, List.filterMap_append]
  exact congrArg _ (by cases h : a.accepts id <;> simp [h])

variable {s : BackgroundSession} {m : SessionManager} {texts : List Str} {runtime : Bool}

theorem accepts_act_of_ne {id : Str} (a : Act) (h : id ≠ s.id) :
    (s.act runtime a).1.accepts id = none := by
  cases a with
  | injectInput text =>
    change (s.injectInput text).1.accepts id = none
    unfold BackgroundSession.injectInput
    split_ifs
    · rfl
    · exact if_neg h.symm
    · rfl
  | _ => rfl

theorem accepts_missing (id id' : Str) (a : Act) : (a.missing id).accepts id' = none := by
  cases a <;> rfl

/-! ### The invariant -/

/-- What the turns of a session have to do with its input and the accepted ones. -/
structure Served (texts : List Str) (s : BackgroundSession) : Prop where
  created : s.phase = .created → s.turns = [] ∧ s.pending = [] ∧ s.injected = texts ∧
    s.status = .running
  executing : s.phase = .executing →
    s.executed ++ s.pending ++ s.injected = s.inputText :: texts ∧ s.status = .running
  ended : s.phase = .ended → s.executed <+: s.inputText :: texts ∧
    (s.status = .completed → s.executed = s.inputText :: texts)

namespace Served

theorem executed_prefix (h : Served texts s) : s.executed <+: s.inputText :: texts := by
  rcases hphase : s.phase
  · rw [BackgroundSession.executed, (h.created hphase).1]
    exact List.nil_prefix
  · rw [← (h.executing hphase).1, List.append_assoc]
    exact List.prefix_append _ _
  · exact (h.ended hphase).1

theorem phase_of_completed (h : Served texts s) (hs : s.status = .completed) :
    s.phase = .ended := by
  rcases hphase : s.phase
  · cases hs.symm.trans (h.created hphase).2.2.2
  · cases hs.symm.trans (h.executing hphase).2
  · rfl

theorem of_ended {s' : BackgroundSession} (h : Served texts s) (hphase : s'.phase = .ended)
    (hturns : s'.turns = s.turns) (hinput : s'.inputText = s.inputText)
    (hstatus : s'.status ≠ .completed) : Served texts s' where
  created h' := by cases hphase.symm.trans h'
  executing h' := by cases hphase.symm.trans h'
  ended _ := by
    rw [BackgroundSession.executed, hturns, hinput]
    exact ⟨h.executed_prefix, fun h' => absurd h' hstatus⟩

theorem start (h : Served texts s) : Served texts (s.start runtime) := by
  unfold BackgroundSession.start
  split_ifs with hphase
  · refine h.of_ended rfl rfl rfl ?_
    rw [(h.created hphase).2.2.2]
    rintro ⟨⟩
  · obtain ⟨-, hpending, hinjected, hstatus⟩ := h.created hphase
    refine ⟨fun h' => (by cases h'), fun _ => ⟨?_, hstatus⟩, fun h' => (by cases h')⟩
    change [s.inputText] ++ s.pending ++ s.injected = _
    rw [hpending, hinjected]
    rfl
  · exact h.of_ended rfl rfl rfl (by rintro ⟨⟩)
  · exact h

theorem event (h : Served texts s) (e : AgentEvent) : Served texts (s.event e) := by
  unfold BackgroundSession.event
  split
  next t ts hphase hturns =>
    refine ⟨fun h' => (by cases hphase.symm.trans h'), fun _ => ?_,
      fun h' => (by cases hphase.symm.trans h')⟩
    have hexecuting := h.executing hphase
    rw [BackgroundSession.executed, hturns] at hexecuting
    exact hexecuting
  · exact h

theorem turnEnd (h : Served texts s) (messages : List ContextMessage) :
    Served texts (s.turnEnd messages) := by
  unfold BackgroundSession.turnEnd
  split_ifs with hphase
  · obtain ⟨hqueue, hstatus⟩ := h.executing hphase
    rw [List.append_assoc] at hqueue
    split
    next hnone =>
      have hall : s.executed = s.inputText :: texts := by rw [← hqueue, hnone, List.append_nil]
      unfold BackgroundSession.complete
      dsimp only
      split
      · exact h.of_ended rfl rfl rfl (by rintro ⟨⟩)
      · refine ⟨fun h' => (by cases h'), fun h' => (by cases h'), fun _ => ?_⟩
        exact ⟨hall ▸ List.prefix_refl _, fun _ => hall⟩
    next t rest hsome =>
      refine ⟨fun h' => (by cases hphase.symm.trans h'), fun _ => ⟨?_, hstatus⟩,
        fun h' => (by cases hphase.symm.trans h')⟩
      rw [hsome] at hqueue
      simpa [BackgroundSession.executed] using hqueue
  · exact h

theorem injectInput (h : Served texts s) (text : Str) :
    Served (texts ++ ((s.injectInput text).1.accepts s.id).toList) (s.injectInput text).2 := by
  unfold BackgroundSession.injectInput
  split_ifs with htext hstatus
  · simpa [Answer.accepts] using h
  · have haccepts : (Answer.injected s.id text).accepts s.id = some text := if_pos rfl
    dsimp only
    rw [haccepts]
    refine ⟨fun hphase => ?_, fun hphase => ?_, fun hphase => ?_⟩
    · obtain ⟨hturns, hpending, hinjected, -⟩ := h.created hphase
      exact ⟨hturns, hpending, congrArg (· ++ [text]) hinjected, hstatus⟩
    · refine ⟨?_, hstatus⟩
      have hqueue := congrArg (· ++ [text]) (h.executing hphase).1
      simpa [BackgroundSession.executed] using hqueue
    · refine ⟨(h.ended hphase).1.trans ⟨[text], rfl⟩, fun hcompleted => ?_⟩
      cases hstatus.symm.trans hcompleted
  · simpa [Answer.accepts] using h

theorem act (h : Served texts s) (a : Act) :
    Served (texts ++ ((s.act runtime a).1.accepts s.id).toList) (s.act runtime a).2 := by
  have hquiet : ∀ {s'}, Served texts s' → Served (texts ++ []) s' := fun h => by
    rwa [List.append_nil]
  cases a with
  | start => exact hquiet h.start
  | event e => exact hquiet (h.event e)
  | turnEnd messages => exact hquiet (h.turnEnd messages)
  | raised error =>
    change Served (texts ++ []) (s.raised error)
    refine hquiet ?_
    unfold BackgroundSession.raised
    split_ifs
    · exact h.of_ended rfl rfl rfl (by rintro ⟨⟩)
    · exact h
  | cancelled =>
    change Served (texts ++ []) s.cancelled
    refine hquiet ?_
    unfold BackgroundSession.cancelled
    split_ifs
    · exact h.of_ended rfl rfl rfl (by rintro ⟨⟩)
    · exact h
  | injectInput text => exact h.injectInput text
  | kill =>
    change Served (texts ++ []) s.kill
    refine hquiet ?_
    unfold BackgroundSession.kill
    split_ifs with hphase
    · exact h.of_ended hphase rfl rfl (by rintro ⟨⟩)
    · exact ⟨h.created, h.executing, h.ended⟩
  | killed =>
    change Served (texts ++ []) s.killed
    refine hquiet ?_
    unfold BackgroundSession.killed
    split_ifs with hphase
    · exact h.of_ended hphase.1 rfl rfl (by rintro ⟨⟩)
    · exact h

end Served

theorem served_newSession (id forkedFrom inputText : Str) (seed : Seed) :
    Served [] (newSession id forkedFrom inputText seed) :=
  ⟨fun _ => ⟨rfl, rfl, rfl, rfl⟩, fun h => (by cases h), fun h => (by cases h)⟩

/-! ### The manager -/

/-- Every session is served, and no input has been accepted for an id without a session. -/
structure ServesAll (answers : List Answer) (m : SessionManager) : Prop where
  served : ∀ s ∈ m.sessions.rows, Served (accepted s.id answers) s
  unknown : ∀ id, id ∉ m.sessions.rows.map BackgroundSession.id → accepted id answers = []

theorem ServesAll.step {answers : List Answer} (h : ServesAll answers m) {op : Op}
    (hfresh : op.Fresh m) :
    ServesAll (answers ++ [(step op m).1]) (Sessions.step op m).2 := by
  cases op with
  | fork sessionId inputText summarize read newId =>
    have hsame : ∀ id, accepted id (answers ++
        [(Sessions.step (.fork sessionId inputText summarize read newId) m).1]) =
          accepted id answers := fun id => by
      rw [accepted_append]
      exact List.append_nil _
    constructor
    · intro x hx
      rw [hsame]
      rcases (mem_fork hfresh x).mp hx with rfl | hx
      · have hnone : accepted newId answers = [] := h.unknown newId hfresh
        change Served (accepted newId answers) _
        rw [hnone]
        exact served_newSession _ _ _ _
      · exact h.served x hx
    · intro id hid
      rw [hsame]
      refine h.unknown id fun hmem => hid ?_
      obtain ⟨x, hx, rfl⟩ := List.mem_map.mp hmem
      exact List.mem_map_of_mem ((mem_fork hfresh x).mpr (Or.inr hx))
  | act id a =>
    change ServesAll (answers ++ [(m.act id a).1]) (m.act id a).2
    rcases act_cases m id a with ⟨-, hact⟩ | ⟨s, hs, rfl, hanswer, -, hrows⟩
    · have hsame : ∀ id', accepted id' (answers ++ [a.missing id]) = accepted id' answers :=
        fun id' => by rw [accepted_append, accepts_missing, Option.toList_none, List.append_nil]
      rw [hact]
      exact ⟨fun x hx => by rw [hsame]; exact h.served x hx, fun id' hid => by
        rw [hsame]
        exact h.unknown id' hid⟩
    · constructor
      · intro x hx
        rw [accepted_append, hanswer]
        rcases (hrows x).mp hx with rfl | ⟨hx, hne⟩
        · rw [id_act]
          exact (h.served s hs).act a
        · rw [accepts_act_of_ne a hne, Option.toList_none, List.append_nil]
          exact h.served x hx
      · intro id' hid
        have hne : id' ≠ s.id := by
          rintro rfl
          refine hid (List.mem_map.mpr ⟨_, (hrows _).mpr (Or.inl rfl), id_act _ a⟩)
        rw [accepted_append, hanswer, accepts_act_of_ne a hne, Option.toList_none, List.append_nil]
        refine h.unknown id' fun hmem => hid ?_
        obtain ⟨x, hx, rfl⟩ := List.mem_map.mp hmem
        exact List.mem_map_of_mem ((hrows x).mpr (Or.inr ⟨hx, hne⟩))

theorem injectInput_rejected (hs : s ∈ m.sessions.rows) (hstatus : s.status ≠ .running)
    (text : Str) : ∃ error, (step (.act s.id (.injectInput text)) m).1 = .rejected error := by
  have hfind : m.sessions.find s.id = some s := Table.find_eq_some_iff.mpr ⟨hs, rfl⟩
  have hanswer : (step (.act s.id (.injectInput text)) m).1 = (s.injectInput text).1 := by
    change (m.act s.id (.injectInput text)).1 = _
    rw [SessionManager.act, hfind]
    rfl
  rw [hanswer, BackgroundSession.injectInput]
  split_ifs
  · exact ⟨_, rfl⟩
  · exact ⟨_, rfl⟩

/-- **Injected turns.** In every run, with every interleaving, the turns of a session are its input
and the accepted inputs, each once and in order, all of them when it is completed, and a completed
session accepts no input. -/
theorem injected_once (runtime : Bool) (ops : List Op)
    (hfresh : Along step Op.Fresh ops (.opened runtime)) :
    ∀ s ∈ (run step ops (.opened runtime)).2.sessions.rows,
      Orderly (run step ops (.opened runtime)).1 (run step ops (.opened runtime)).2 s := by
  have hstart : ServesAll [] (.opened runtime) :=
    ⟨List.forall_mem_nil _, fun _ _ => rfl⟩
  have hserves : ServesAll (run step ops (.opened runtime)).1 (run step ops (.opened runtime)).2 :=
    run_outputs_invariant (fun _ _ _ h hop => h.step hop) ops hstart hfresh
  intro s hs
  have hserved := hserves.served s hs
  refine ⟨hserved.executed_prefix, fun hcompleted => ?_, fun hcompleted => ?_⟩
  · have hphase := hserved.phase_of_completed hcompleted
    exact ⟨(hserved.ended hphase).2 hcompleted, hphase⟩
  · exact injectInput_rejected hs (by rw [hcompleted]; decide)

/-- A session that is given a further turn while it executes the first one. -/
def oneInjection : List Op :=
  [.fork "c" "one" false ⟨none, [], none⟩ "bg_1", .act "bg_1" .start,
    .act "bg_1" (.injectInput "two"), .act "bg_1" (.turnEnd []),
    .act "bg_1" (.turnEnd [])]

theorem executed_oneInjection : Along step Op.Fresh oneInjection (.opened true) ∧
    ∀ s ∈ (run step oneInjection (.opened true)).2.sessions.rows,
      Orderly (run step oneInjection (.opened true)).1
        (run step oneInjection (.opened true)).2 s :=
  ⟨⟨List.not_mem_nil, trivial, trivial, trivial, trivial, trivial⟩,
    injected_once true oneInjection ⟨List.not_mem_nil, trivial, trivial, trivial, trivial, trivial⟩⟩

end AgentStudio.Sessions

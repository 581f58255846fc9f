import AgentStudio.Sessions.Manager

/-!
# The life of a background session

What the status and the context of a background session stand for: a session is completed only if no
execution of its graph ended with an error event, a status other than `running` is final, and a
session that is forked without a summary starts from the active branch of its parent.

`Lawful` says this of a step. `_run_background` never looks at the type of an event, so a turn that
has failed is the turn of a completed session; `background_kill` writes its status over any other
one; `fork` takes all messages of the parent chat session, whatever branch they are on, and the
latest checkpoint where it has none. `Op.Careful` is the condition under which a step does none of
these, and a run is lawful exactly if all of its steps are careful.
-/

namespace AgentStudio.Sessions

open PyText PyJson Rows Machine AgentStudio.Chats

/-! ### What a step should do -/

/-- The execution of a turn has ended with an error event: `execute_graph` returns after one. -/
def Turn.failed (t : Turn) : Bool := t.events.head?.map AgentEvent.type = some .error

/-- Some execution of the graph has ended with an error event. -/
def BackgroundSession.Erred (s : BackgroundSession) : Prop := ∃ t ∈ s.turns, t.failed

def Seed.ofBranch : List ChatMessage → Seed
  | [] => .fresh
  | messages => .chat messages

/-- What a step of a session should do: only a session without an error gets completed, and a final
status stays. -/
structure Settles (s s' : BackgroundSession) : Prop where
  completed : s'.status = .completed → ¬ s'.Erred
  final : s.status ≠ .running → s'.status = s.status

/-- A step of the manager does what it should. -/
structure Lawful (op : Op) (m : SessionManager) : Prop where
  completed : ∀ s ∈ (step op m).2.sessions.rows, s.status = .completed → ¬ s.Erred
  final : ∀ s ∈ m.sessions.rows, s.status ≠ .running →
    ∀ s' ∈ (step op m).2.sessions.rows, s'.id = s.id → s'.status = s.status
  seeded : ∀ sessionId inputText read newId chat, op = .fork sessionId inputText false read newId →
    read.chat = some chat → ∀ s ∈ (step op m).2.sessions.rows, s.id = newId →
      s.seed = .ofBranch (chat.linearBranch [])

/-! ### The condition -/

/-- The output at the end of a session has a length. -/
def BackgroundSession.Measured (s : BackgroundSession) (messages : List ContextMessage) : Prop :=
  (∃ e ∈ s.turns.flatMap Turn.events, e.type = .think ∧ e.content ≠ []) ∨
    BackgroundSession.lenError (BackgroundSession.lastAssistant messages) = none

/-- A session whose task finds no further turn has had no error, and a session that is killed has
not come to an end of its own. -/
def Act.Careful : Act → BackgroundSession → Prop
  | .turnEnd messages, s =>
    s.phase = .executing → s.pending = [] → s.injected = [] → s.Measured messages → ¬ s.Erred
  | .kill, s => s.phase = .ended → s.status = .running ∨ s.status = .killed
  | .killed, s => s.phase = .ended → 0 < s.kills → s.status = .running ∨ s.status = .killed
  | _, _ => True

/-- A parent without a summary has no messages beside its active branch, and no checkpoint if it has
no messages. -/
def Op.Careful : Op → SessionManager → Prop
  | .fork _ _ summarize read _, _ => summarize = false → ∀ chat, read.chat = some chat →
    chat.messages = chat.linearBranch [] ∧ (chat.messages = [] → read.checkpoint = [])
  | .act id a, m => ∀ s ∈ m.sessions.rows, s.id = id → a.Careful s

/-! ### A session -/

variable {s s' : BackgroundSession} {m : SessionManager} {runtime : Bool}

/-- What holds of every session of a careful run: its status is `running` until its task has ended,
and it is completed without an error. -/
structure Sound (s : BackgroundSession) : Prop where
  running : s.phase ≠ .ended → s.status = .running
  completed : s.status = .completed → ¬ s.Erred

theorem settles_of_running (h : s.status = .running) :
    Settles s s' ↔ (s'.status = .completed → ¬ s'.Erred) :=
  ⟨Settles.completed, fun hcompleted => ⟨hcompleted, fun hfinal => absurd h hfinal⟩⟩

theorem Sound.settles_of_eq (h : Sound s) (hstatus : s'.status = s.status)
    (hturns : s'.turns = s.turns) : Settles s s' := by
  refine ⟨fun hcompleted => ?_, fun _ => hstatus⟩
  rw [BackgroundSession.Erred, hturns]
  exact h.completed (hstatus.symm.trans hcompleted)

theorem Sound.settles_of_ne (h : Sound s) (hphase : s.phase ≠ .ended)
    (hstatus : s'.status ≠ .completed) : Settles s s' :=
  (settles_of_running (h.running hphase)).mpr fun hcompleted => absurd hcompleted hstatus

theorem settles_killed (hstatus : s'.status = .killed) :
    Settles s s' ↔ s.status = .running ∨ s.status = .killed := by
  constructor
  · intro h
    by_cases hrunning : s.status = .running
    · exact Or.inl hrunning
    · exact Or.inr ((h.final hrunning).symm.trans hstatus)
  · intro h
    refine ⟨fun hcompleted => ?_, fun hfinal => ?_⟩
    · cases hstatus.symm.trans hcompleted
    · exact hstatus.trans (h.resolve_left hfinal).symm

theorem lenError_outputOf (messages : List ContextMessage) :
    BackgroundSession.lenError (s.outputOf messages) = none ↔ s.Measured messages := by
  unfold BackgroundSession.outputOf BackgroundSession.Measured
  split
  next e hfind =>
    have hthink : e.type = .think ∧ e.content ≠ [] := by simpa using List.find?_some hfind
    exact iff_of_true rfl (Or.inl ⟨e, List.mem_of_find?_eq_some hfind, hthink⟩)
  next hfind =>
    refine (or_iff_right fun h => ?_).symm
    obtain ⟨e, he, hthink⟩ := h
    exact List.find?_eq_none.mp hfind e he (decide_eq_true hthink)

theorem complete_spec (s : BackgroundSession) (messages : List ContextMessage) :
    (s.complete messages).turns = s.turns ∧
      ((s.complete messages).status = .completed ↔ s.Measured messages) := by
  rw [← lenError_outputOf]
  unfold BackgroundSession.complete
  dsimp only
  split
  next error herror =>
    refine ⟨rfl, iff_of_false (by rintro ⟨⟩) ?_⟩
    rw [herror]
    rintro ⟨⟩
  next hlen => exact ⟨rfl, iff_of_true rfl hlen⟩

theorem settles_turnEnd (h : Sound s) (messages : List ContextMessage) :
    Settles s (s.turnEnd messages) ↔ (Act.turnEnd messages).Careful s := by
  unfold BackgroundSession.turnEnd
  split_ifs with hphase
  · have hrunning : s.status = .running := h.running (by rw [hphase]; decide)
    rw [settles_of_running hrunning]
    split
    next hnone =>
      obtain ⟨hpending, hinjected⟩ := List.append_eq_nil_iff.mp hnone
      obtain ⟨hturns, hstatus⟩ := complete_spec { s with injected := [] } messages
      rw [hstatus, BackgroundSession.Erred, hturns]
      exact ⟨fun h _ _ _ => h, fun h => h hphase hpending hinjected⟩
    next t rest hsome =>
      refine iff_of_true (fun hcompleted => ?_) fun _ hpending hinjected => ?_
      · cases hrunning.symm.trans hcompleted
      · rw [hpending, hinjected] at hsome
        cases hsome
  · exact iff_of_true (h.settles_of_eq rfl rfl) fun hexecuting => absurd hexecuting hphase

theorem settles_act (h : Sound s) (a : Act) : Settles s (s.act runtime a).2 ↔ a.Careful s := by
  cases a with
  | start =>
    refine iff_of_true ?_ trivial
    change Settles s (s.start runtime)
    unfold BackgroundSession.start
    split_ifs with hphase
    · exact h.settles_of_eq rfl rfl
    · refine h.settles_of_ne (by rw [hphase]; decide) fun hcompleted => ?_
      cases (h.running (by rw [hphase]; decide)).symm.trans hcompleted
    · exact h.settles_of_ne (by rw [hphase]; decide) (by rintro ⟨⟩)
    · exact h.settles_of_eq rfl rfl
  | event e =>
    refine iff_of_true ?_ trivial
    change Settles s (s.event e)
    unfold BackgroundSession.event
    split
    next hphase _ =>
      refine h.settles_of_ne (by rw [hphase]; decide) fun hcompleted => ?_
      cases (h.running (by rw [hphase]; decide)).symm.trans hcompleted
    · exact h.settles_of_eq rfl rfl
  | turnEnd messages => exact settles_turnEnd h messages
  | raised error =>
    refine iff_of_true ?_ trivial
    change Settles s (s.raised error)
    unfold BackgroundSession.raised
    split_ifs with hphase
    · exact h.settles_of_ne (by rw [hphase]; decide) (by rintro ⟨⟩)
    · exact h.settles_of_eq rfl rfl
  | cancelled =>
    refine iff_of_true ?_ trivial
    change Settles s s.cancelled
    unfold BackgroundSession.cancelled
    split_ifs with hphase
    · exact h.settles_of_ne (by rw [hphase]; decide) (by rintro ⟨⟩)
    · exact h.settles_of_eq rfl rfl
  | injectInput text =>
    refine iff_of_true ?_ trivial
    change Settles s (s.injectInput text).2
    unfold BackgroundSession.injectInput
    split_ifs <;> exact h.settles_of_eq rfl rfl
  | kill =>
    change Settles s s.kill ↔ (s.phase = .ended → _)
    unfold BackgroundSession.kill
    split_ifs with hphase
    · exact (settles_killed rfl).trans ⟨fun h _ => h, fun h => h hphase⟩
    · exact iff_of_true (h.settles_of_eq rfl rfl) fun hended => absurd hended hphase
  | killed =>
    change Settles s s.killed ↔ (s.phase = .ended → 0 < s.kills → _)
    unfold BackgroundSession.killed
    split_ifs with hphase
    · exact (settles_killed rfl).trans ⟨fun h _ _ => h, fun h => h hphase.1 hphase.2⟩
    · refine iff_of_true (h.settles_of_eq rfl rfl) fun hended hkills => ?_
      exact absurd ⟨hended, hkills⟩ hphase

theorem running_act (h : s.phase ≠ .ended → s.status = .running) (a : Act) :
    (s.act runtime a).2.phase ≠ .ended → (s.act runtime a).2.status = .running := by
  have hended : ∀ {p : Prop}, Phase.ended ≠ .ended → p := fun h => absurd rfl h
  cases a with
  | start =>
    change (s.start runtime).phase ≠ .ended → (s.start runtime).status = .running
    unfold BackgroundSession.start
    split_ifs with hcreated
    · exact hended
    · exact fun _ => h (by rw [hcreated]; decide)
    · exact hended
    · exact h
  | event e =>
    change (s.event e).phase ≠ .ended → (s.event e).status = .running
    unfold BackgroundSession.event
    split <;> exact h
  | turnEnd messages =>
    change (s.turnEnd messages).phase ≠ .ended → (s.turnEnd messages).status = .running
    unfold BackgroundSession.turnEnd BackgroundSession.complete
    split_ifs with hexecuting
    · split
      · dsimp only
        split <;> exact hended
      · exact fun _ => h (by rw [hexecuting]; decide)
    · exact h
  | raised error =>
    change (s.raised error).phase ≠ .ended → (s.raised error).status = .running
    unfold BackgroundSession.raised
    split_ifs
    · exact hended
    · exact h
  | cancelled =>
    change s.cancelled.phase ≠ .ended → s.cancelled.status = .running
    unfold BackgroundSession.cancelled
    split_ifs
    · exact hended
    · exact h
  | injectInput text =>
    change (s.injectInput text).2.phase ≠ .ended → (s.injectInput text).2.status = .running
    unfold BackgroundSession.injectInput
    split_ifs <;> exact h
  | kill =>
    change s.kill.phase ≠ .ended → s.kill.status = .running
    unfold BackgroundSession.kill
    split_ifs with hphase
    · exact fun hne => absurd hphase hne
    · exact h
  | killed =>
    change s.killed.phase ≠ .ended → s.killed.status = .running
    unfold BackgroundSession.killed
    split_ifs with hphase
    · exact fun hne => absurd hphase.1 hne
    · exact h

theorem sound_newSession (id forkedFrom inputText : Str) (seed : Seed) :
    Sound (newSession id forkedFrom inputText seed) :=
  ⟨fun _ => rfl, fun h => (by cases h)⟩

/-! ### The manager -/

def SessionManager.Sound (m : SessionManager) : Prop := ∀ s ∈ m.sessions.rows, Sessions.Sound s

theorem SessionManager.eq_of_id (m : SessionManager) {a b : BackgroundSession}
    (ha : a ∈ m.sessions.rows) (hb : b ∈ m.sessions.rows) (h : a.id = b.id) : a = b :=
  eq_of_key_eq m.sessions.nodup ha hb h

/-- The seed of a fork without a summary is the active branch of its parent exactly if the parent
has no other messages, and no checkpoint instead of messages. -/
theorem seed_eq_ofBranch {read : ForkRead} {chat : ChatSession} (hchat : read.chat = some chat) :
    read.seed false = .ofBranch (chat.linearBranch []) ↔
      chat.messages = chat.linearBranch [] ∧ (chat.messages = [] → read.checkpoint = []) := by
  have hseed : read.seed false = read.parent := by
    unfold ForkRead.seed
    split
    next hfresh => exact hfresh.symm
    · rfl
  rw [hseed, ForkRead.parent, hchat, Option.map_some]
  rcases hmessages : chat.messages with _ | ⟨x, xs⟩
  · have hbranch : chat.linearBranch [] = [] := if_pos hmessages
    rw [hbranch]
    by_cases hcheckpoint : read.checkpoint = []
    · exact iff_of_true (if_pos hcheckpoint) ⟨rfl, fun _ => hcheckpoint⟩
    · refine iff_of_false ?_ fun h => hcheckpoint (h.2 rfl)
      change (if read.checkpoint = [] then Seed.fresh else .checkpoint read.checkpoint) ≠ .fresh
      rw [if_neg hcheckpoint]
      rintro ⟨⟩
  · change Seed.chat (x :: xs) = _ ↔ _
    rcases chat.linearBranch [] with _ | ⟨y, ys⟩
    · exact iff_of_false (by rintro ⟨⟩) (by rintro ⟨⟨⟩, -⟩)
    · refine ⟨fun h => ⟨Seed.chat.inj h, fun hnil => ?_⟩, fun h => congrArg Seed.chat h.1⟩
      cases hnil

theorem lawful_iff_of_sound {op : Op} (hsound : m.Sound) (hfresh : op.Fresh m) :
    Lawful op m ↔ op.Careful m := by
  cases op with
  | fork sessionId inputText summarize read newId =>
    constructor
    · rintro h rfl chat hchat
      have hseeded := h.seeded sessionId inputText read newId chat rfl hchat _
        ((mem_fork hfresh _).mpr (Or.inl rfl)) rfl
      exact (seed_eq_ofBranch hchat).mp hseeded
    · intro hcareful
      refine ⟨fun s hs => ?_, fun s hs _ s' hs' hid => ?_, ?_⟩
      · rcases (mem_fork hfresh s).mp hs with rfl | hs
        · exact (sound_newSession _ _ _ _).completed
        · exact (hsound s hs).completed
      · rcases (mem_fork hfresh s').mp hs' with rfl | hs'
        · exact absurd (List.mem_map.mpr ⟨s, hs, hid.symm⟩) hfresh
        · rw [m.eq_of_id hs' hs hid]
      · rintro _ _ _ _ chat ⟨⟩ hchat s hs hid
        rcases (mem_fork hfresh s).mp hs with rfl | hs
        · exact (seed_eq_ofBranch hchat).mpr (hcareful rfl chat hchat)
        · exact absurd (List.mem_map.mpr ⟨s, hs, hid⟩) hfresh
  | act id a =>
    have hseeded : ∀ sessionId inputText read newId chat,
        Op.act id a = .fork sessionId inputText false read newId → read.chat = some chat →
        ∀ s ∈ (step (.act id a) m).2.sessions.rows, s.id = newId →
          s.seed = .ofBranch (chat.linearBranch []) := by
      rintro _ _ _ _ _ ⟨⟩
    rcases act_cases m id a with ⟨hid, hact⟩ | ⟨s, hs, rfl, -, -, hrows⟩
    · refine iff_of_true ⟨?_, ?_, hseeded⟩ fun s hs hsid =>
        absurd (List.mem_map.mpr ⟨s, hs, hsid⟩) hid
      · change ∀ s ∈ (m.act id a).2.sessions.rows, _
        rw [hact]
        exact fun s hs => (hsound s hs).completed
      · change ∀ s ∈ m.sessions.rows, _ → ∀ s' ∈ (m.act id a).2.sessions.rows, _
        rw [hact]
        exact fun s hs _ s' hs' hsame => congrArg _ (m.eq_of_id hs' hs hsame)
    · have hcareful : (Op.act s.id a).Careful m ↔ a.Careful s :=
        ⟨fun h => h s hs rfl, fun h x hx hid => m.eq_of_id hs hx hid.symm ▸ h⟩
      rw [hcareful, ← settles_act (hsound s hs)]
      constructor
      · intro h
        have hmem := (hrows _).mpr (Or.inl rfl)
        exact ⟨h.completed _ hmem, fun hfinal => h.final s hs hfinal _ hmem (id_act _ a)⟩
      · intro h
        refine ⟨fun x hx => ?_, fun x hx hfinal x' hx' hid => ?_, hseeded⟩
        · rcases (hrows x).mp hx with rfl | ⟨hx, -⟩
          · exact h.completed
          · exact (hsound x hx).completed
        · rcases (hrows x').mp hx' with rfl | ⟨hx', -⟩
          · rw [id_act] at hid
            obtain rfl := m.eq_of_id hs hx hid
            exact h.final hfinal
          · rw [m.eq_of_id hx' hx hid]

theorem SessionManager.Sound.step {op : Op} (hsound : m.Sound) (hfresh : op.Fresh m)
    (hlawful : Lawful op m) : (Sessions.step op m).2.Sound := by
  intro x hx
  cases op with
  | fork sessionId inputText summarize read newId =>
    rcases (mem_fork hfresh x).mp hx with rfl | hx
    · exact sound_newSession _ _ _ _
    · exact hsound x hx
  | act id a =>
    rcases act_cases m id a with ⟨-, hact⟩ | ⟨s, hs, rfl, -, -, hrows⟩
    · change x ∈ (m.act id a).2.sessions.rows at hx
      rw [hact] at hx
      exact hsound x hx
    · have hcompleted := hlawful.completed x hx
      rcases (hrows x).mp hx with rfl | ⟨hx, -⟩
      · exact ⟨running_act (hsound s hs).running a, hcompleted⟩
      · exact hsound x hx

/-! ### Runs -/

/-- **The life of background sessions.** In a run from a manager without sessions, with every
interleaving, the statuses and the contexts are what they should be exactly if every step is
careful. -/
theorem settled_iff (runtime : Bool) (ops : List Op)
    (hfresh : Along step Op.Fresh ops (.opened runtime)) :
    Along step Lawful ops (.opened runtime) ↔ Along step Op.Careful ops (.opened runtime) := by
  have hboth : Along step (fun op m => op.Fresh m ∧ Lawful op m) ops (.opened runtime) ↔
      Along step (fun op m => op.Fresh m ∧ op.Careful m) ops (.opened runtime) := by
    refine along_iff (J := SessionManager.Sound) (fun op m hsound hop => ?_) (fun op m hsound => ?_)
      ops (List.forall_mem_nil _)
    · exact hsound.step hop.1 ((lawful_iff_of_sound hsound hop.1).mpr hop.2)
    · exact and_congr_right fun hop => lawful_iff_of_sound hsound hop
  rw [along_and, along_and] at hboth
  exact ⟨fun h => (hboth.mp ⟨hfresh, h⟩).2, fun h => (hboth.mpr ⟨hfresh, h⟩).2⟩

/-- A session that is killed after it has been completed. -/
def lateKill : List Op :=
  [.fork "c" "one" false ⟨none, [], none⟩ "bg_1", .act "bg_1" .start,
    .act "bg_1" (.turnEnd []), .act "bg_1" .kill]

theorem settled_lateKill : Along step Lawful lateKill (.opened true) ↔
    Along step Op.Careful lateKill (.opened true) :=
  settled_iff true lateKill ⟨List.not_mem_nil, trivial, trivial, trivial, trivial⟩

/-- A session whose only turn ends with an error event. -/
def failedTurn : List Op :=
  [.fork "c" "one" false ⟨none, [], none⟩ "bg_1", .act "bg_1" .start,
    .act "bg_1" (.event ⟨.error, "no start node"⟩), .act "bg_1" (.turnEnd [])]

theorem not_settled_failedTurn : ¬ ∀ (runtime : Bool) (ops : List Op),
    Along step Op.Fresh ops (.opened runtime) → Along step Lawful ops (.opened runtime) := by
  intro h
  obtain ⟨-, -, -, hlast, -⟩ :=
    h true failedTurn ⟨List.not_mem_nil, trivial, trivial, trivial, trivial⟩
  exact hlast.completed _ List.mem_cons_self rfl ⟨_, List.mem_cons_self, rfl⟩

end AgentStudio.Sessions

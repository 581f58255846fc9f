import AgentStudio.Daemon.Turns

/-!
# Cancelling an execution

`graph.cancel` sets a mark on the coroutine of an execution, and the mark takes effect when the
coroutine is resumed. So what comes of it depends on where the coroutine waits: in the stream it
ends the execution as cancelled; before the first step nothing of the body is run, and no terminal
evidence is written; in the broadcast of the completion a second terminal record follows the first;
in the broadcast of a handler the writeback to the task is left out; and an execution that has ended
is still answered `cancelled` as long as `_active_executions` has it.

`settled_of_cancelSafe` says that an execution is settled (`DaemonServer.Settled`) after any
interleaving of its turns with requests about it, if every `graph.cancel` finds it where that is
possible (`CancelSafe`). The invariant is `Execution.Standing`, and `not_settled` is a cancel before
the first step.
-/

namespace AgentStudio.Daemon

open PyText PyDict PyJson Tasks Coroutines Machine

/-! ### Where an execution stands -/

namespace Execution

variable (x : Execution)

def Open (w : World) : Prop := ∀ e ∈ w.evidence x.path, e.type.terminal = false

/-- The evidence ends with its only terminal record. -/
def EndedWith (type : EvidenceType) (w : World) : Prop :=
  type.terminal = true ∧ ∃ before r, w.evidence x.path = before ++ [r] ∧
    (∀ e ∈ before, e.type.terminal = false) ∧ r.type = type

/-- Where an execution stands; `asked` says that a `graph.cancel` was answered `cancelled`. -/
def Standing (asked : Prop) (w : World) : Prop :=
  match x.phase with
  | .created => x.Open w ∧ x.cancelRequested = false ∧ ¬ asked
  | .waitingSlot | .streaming => x.Open w ∧ (asked → x.cancelRequested = true)
  | .announcing e =>
    x.EndedWith e.type w ∧ (asked → e = .cancelled) ∧
      (x.cancelRequested = true → e = .cancelled ∧ ¬ w.Linked x.taskId)
  | .done =>
    ∃ type, x.EndedWith type w ∧
      (w.Linked x.taskId → w.status x.taskId = some type.taskStatus) ∧
      (asked → type = .cancelled)

/-- A cancel ends the execution as cancelled, or it has ended so. -/
def Cancellable (w : World) : Prop :=
  match x.phase with
  | .waitingSlot | .streaming => True
  | .announcing .cancelled => ¬ w.Linked x.taskId
  | .done => w.lastEvidence x.path = some .cancelled
  | _ => False

variable {x} {w : World} {asked : Prop}

theorem Open.writeEvidence (h : x.Open w) {e : Evidence} (he : e.type.terminal = false) :
    x.Open (w.writeEvidence x.path e) := by
  intro e' he'
  rw [World.evidence_writeEvidence, if_pos rfl] at he'
  rcases mem_snoc.mp he' with he' | rfl
  · exact h e' he'
  · exact he

theorem Open.endedWith (h : x.Open w) {type : EvidenceType} (hterminal : type.terminal = true)
    {r : Evidence} (hr : r.type = type) : x.EndedWith type (w.writeEvidence x.path r) :=
  ⟨hterminal, w.evidence x.path, r, by rw [World.evidence_writeEvidence, if_pos rfl], h, hr⟩

theorem EndedWith.lastEvidence {type : EvidenceType} (h : x.EndedWith type w) :
    w.lastEvidence x.path = some type := by
  obtain ⟨-, before, r, hevidence, -, rfl⟩ := h
  simp [World.lastEvidence, hevidence]

theorem EndedWith.terminalEvidence {type : EvidenceType} (h : x.EndedWith type w) :
    ∃ r, w.terminalEvidence x.path = [r] ∧ r.type = type := by
  obtain ⟨hterminal, before, r, hevidence, hbefore, rfl⟩ := h
  have hnone : before.filter (·.type.terminal) = [] := List.filter_eq_nil_iff.mpr fun e he => by
    simp [hbefore e he]
  exact ⟨r, by simp [World.terminalEvidence, hevidence, hnone, hterminal], rfl⟩

/-! ### One step -/

theorem Standing.receive (hopen : x.Open w) (hcancel : asked → x.cancelRequested = true)
    (hphase : x.phase = .streaming) (e : StreamEvent) (now : ℤ) :
    (x.receive e now w).1.Standing asked (x.receive e now w).2 := by
  have hevidence : x.Open (x.receive e now w).2 := by
    rcases x.receive_world e now w with heq | ⟨r, hr, heq⟩ <;> rw [heq]
    · exact hopen
    · exact hopen.writeEvidence (by rw [hr]; rfl)
  have hstays : (x.receive e now w).1.phase = .streaming := hphase
  unfold Standing
  rw [hstays]
  exact ⟨hevidence, hcancel⟩

theorem Ending.terminal_type (e : Ending) : e.type.terminal = true := by
  cases e <;> rfl

theorem Standing.ends {y : Execution} {e : Ending} {r : Evidence} (hopen : x.Open w)
    (hpath : y.path = x.path) (hphase : y.phase = .announcing e) (hr : r.type = e.type)
    (hasked : asked → e = .cancelled) (hcancel : y.cancelRequested = false) :
    y.Standing asked (w.writeEvidence x.path r) := by
  have hended := hopen.endedWith (Ending.terminal_type e) hr
  unfold Standing
  rw [hphase]
  refine ⟨?_, hasked, fun h => absurd (hcancel.symm.trans h) Bool.false_ne_true⟩
  unfold EndedWith
  rwa [hpath]

/-- **A turn of the execution.** -/
theorem Standing.resume (h : w.store.Cached) (hx : x.Standing asked w) (a : Answer) :
    (x.resume a w).1.Standing asked (x.resume a w).2 := by
  unfold Standing at hx
  unfold Execution.resume
  cases hphase : x.phase with
  | created =>
    rw [hphase] at hx
    obtain ⟨hopen, hcancel, hasked⟩ := hx
    dsimp only
    rw [if_neg (by simp [hcancel])]
    cases a.signal with
    | raised text =>
      exact Standing.ends hopen rfl rfl rfl (fun h => absurd h hasked) hcancel
    | _ => exact ⟨hopen, fun h => absurd h hasked⟩
  | waitingSlot =>
    rw [hphase] at hx
    dsimp only
    split_ifs
    · exact Standing.ends hx.1 rfl rfl rfl (fun _ => rfl) rfl
    · exact hx
  | streaming =>
    rw [hphase] at hx
    obtain ⟨hopen, hcancel⟩ := hx
    dsimp only
    split_ifs with hrequested
    · exact Standing.ends hopen rfl rfl rfl (fun _ => rfl) rfl
    · have hfree : x.cancelRequested = false := Bool.eq_false_of_not_eq_true hrequested
      have hasked : ¬ asked := fun h => hrequested (hcancel h)
      cases a.signal with
      | event e => exact Standing.receive hopen hcancel hphase e a.now
      | returned | raised =>
        exact Standing.ends hopen rfl rfl rfl (fun h => absurd h hasked) hfree
      | _ =>
        unfold Standing
        rw [hphase]
        exact ⟨hopen, hcancel⟩
  | announcing e =>
    rw [hphase] at hx
    obtain ⟨hended, hasked, hrequest⟩ := hx
    dsimp only
    split_ifs with hrequested
    · obtain ⟨rfl, hlinked⟩ := hrequest hrequested
      exact ⟨.cancelled, hended, fun h => absurd h hlinked, fun _ => rfl⟩
    · refine ⟨e.type, ?_, fun hlinked => ?_, fun h => by rw [hasked h]; rfl⟩
      · obtain ⟨hterminal, hrecords⟩ := hended
        refine ⟨hterminal, ?_⟩
        rw [← x.evidence_writeBack w e a.clock] at hrecords
        exact hrecords
      · have hstatus := x.status_writeBack h hlinked.1 e a.clock
        have hfound : w.status x.taskId ≠ none := fun hnone => hlinked.2 (by
          rw [hnone] at hstatus
          exact hstatus)
        obtain ⟨st, hst⟩ := Option.ne_none_iff_exists'.mp hfound
        rw [hst] at hstatus
        exact hstatus
  | done =>
    unfold Standing
    rw [hphase] at hx ⊢
    exact hx

/-- **A cancel of the execution.** -/
theorem Standing.cancel (hx : x.Standing asked w) (hcancellable : x.Cancellable w) :
    x.requestCancel.Standing True w := by
  unfold Cancellable at hcancellable
  unfold Standing at hx ⊢
  unfold requestCancel
  cases hphase : x.phase with
  | created => simp [hphase] at hcancellable
  | announcing e =>
    rw [hphase] at hx hcancellable
    cases e with
    | cancelled => simpa [hphase] using ⟨hx.1, hcancellable⟩
    | _ => exact absurd hcancellable (by simp)
  | done =>
    rw [hphase] at hx hcancellable
    obtain ⟨type, hended, hstatus, -⟩ := hx
    obtain rfl : type = .cancelled :=
      Option.some.inj (hended.lastEvidence.symm.trans hcancellable)
    simpa [hphase] using ⟨hended, hstatus⟩
  | _ =>
    rw [hphase] at hx
    have hopen : { x with cancelRequested := true }.Open w := hx.1
    simpa [hphase] using hopen

theorem requestCancel_ids (x : Execution) :
    x.requestCancel.executionId = x.executionId ∧ x.requestCancel.team = x.team ∧
      x.requestCancel.taskId = x.taskId := by
  unfold requestCancel
  split_ifs <;> exact ⟨rfl, rfl, rfl⟩

end Execution

/-! ### The execution in the daemon -/

/-- The execution is the coroutine at a place, and no other has its id. -/
structure DaemonServer.Has (d : DaemonServer) (n : ℕ) (x : Execution) : Prop where
  place : d.members[n]? = some (.execution x)
  alone : ∀ m co, d.members[m]? = some co → m ≠ n → co.active x.executionId = none

namespace DaemonServer.Has

variable {d : DaemonServer} {n : ℕ} {x : Execution}

theorem active (h : d.Has n x) :
    d.active x.executionId = if x.listed = true then some x else none := by
  obtain ⟨hn, hget⟩ := List.getElem?_eq_some_iff.mp h.place
  have hself : (Coroutine.execution x).active x.executionId =
      if x.listed = true then some x else none := by simp [Coroutine.active]
  have hothers (m : ℕ) (hm : m < d.members.length) (hne : m ≠ n) :
      (d.members.get ⟨m, hm⟩).active x.executionId = none :=
    h.alone m _ (List.getElem?_eq_getElem hm) hne
  unfold DaemonServer.active
  split_ifs at hself ⊢ with hlisted
  · refine List.findSome?_eq_some_iff.mpr
      ⟨d.members.take n, _, d.members.drop (n + 1), ?_, hself, fun co hco => ?_⟩
    · rw [← hget, List.getElem_cons_drop, List.take_append_drop]
    · obtain ⟨m, hm, rfl⟩ := List.getElem_of_mem hco
      rw [List.length_take] at hm
      rw [List.getElem_take]
      exact hothers m (by omega) (by omega)
  · refine List.findSome?_eq_none_iff.mpr fun co hco => ?_
    obtain ⟨m, hm, rfl⟩ := List.getElem_of_mem hco
    rcases eq_or_ne m n with rfl | hne
    · rwa [hget]
    · exact hothers m hm hne

theorem modifyActive (h : d.Has n x) {f : Execution → Execution}
    (hf : (f x).executionId = x.executionId) :
    (d.modifyActive x.executionId f).Has n (if x.listed = true then f x else x) := by
  have hid : (if x.listed = true then f x else x).executionId = x.executionId := by
    split_ifs
    · exact hf
    · rfl
  refine ⟨?_, fun m co hm hne => ?_⟩
  · simp only [DaemonServer.modifyActive, List.getElem?_map, h.place, Option.map_some,
      Coroutine.modifyActive, decide_true, Bool.and_true]
    split_ifs <;> rfl
  · simp only [DaemonServer.modifyActive, List.getElem?_map] at hm
    obtain ⟨co', hco', rfl⟩ := Option.map_eq_some_iff.mp hm
    have hnone := h.alone m co' hco' hne
    have hsame : co'.modifyActive x.executionId f = co' := by
      cases co' with
      | execution y =>
        simp only [Coroutine.active] at hnone
        split_ifs at hnone with hy
        simp only [Coroutine.modifyActive, if_neg hy]
      | _ => rfl
    rwa [hsame, hid]

theorem resume (h : d.Has n x) (a : Answer) :
    DaemonServer.Has (Pool.resume Coroutine.turn n a d) n (x.resume a d.world).1 ∧
      (Pool.resume Coroutine.turn n a d).world = (x.resume a d.world).2 := by
  rw [Pool.resume_of_some h.place]
  refine ⟨⟨?_, fun m co hm hne => ?_⟩, rfl⟩
  · have hn : n < d.members.length := (List.getElem?_eq_some_iff.mp h.place).1
    simp [Coroutine.turn, hn]
  · rw [(Execution.resume_ids _ a d.world).1]
    simp only [Coroutine.turn, List.append_nil, List.getElem?_set_ne hne.symm] at hm
    exact h.alone m co hm hne

theorem graphCancel (h : d.Has n x) (hid : x.executionId ≠ []) :
    d.graphCancel x.executionId =
      if x.listed = true then
        (.cancelled x.executionId, d.modifyActive x.executionId Execution.requestCancel)
      else (.notFound x.executionId, d) := by
  unfold DaemonServer.graphCancel
  rw [if_neg hid, h.active]
  split_ifs <;> rfl

theorem graphStatus (h : d.Has n x) (hid : x.executionId ≠ []) (hdone : x.phase = .done)
    (team : Str) : (d.graphStatus x.executionId team).1 =
      .status x.executionId (d.statusOfEvidence x.executionId team) := by
  unfold DaemonServer.graphStatus
  rw [if_neg hid, h.active]
  cases x.listed with
  | false => rfl
  | true => exact congrArg Prod.fst (if_pos hdone)

end DaemonServer.Has

/-- The inputs of an execution: its own turns, and the requests with its id. -/
def OwnInput (n : ℕ) (executionId : Str) : Input → Prop
  | .resume m _ => m = n
  | .graphCancel id | .graphStatus id _ => id = executionId
  | _ => False

/-- A `graph.cancel` finds the execution where it ends as cancelled, or does not find it. -/
def CancelSafe (i : Input) (d : DaemonServer) : Prop :=
  match i with
  | .graphCancel id => ∀ x, d.active id = some x → x.Cancellable d.world
  | _ => True

/-- An execution that has ended: it has one terminal record, `graph.status` reports it, the task
has its status, and if a `graph.cancel` was answered `cancelled` then it has been cancelled. -/
def DaemonServer.Settled (d : DaemonServer) (x : Execution) (asked : Prop) : Prop :=
  ∃ e, d.world.terminalEvidence x.path = [e] ∧
    (∃ r, (d.graphStatus x.executionId x.team).1 = .status x.executionId r ∧
      r.status = e.type.runStatus) ∧
    (d.world.Linked x.taskId → d.world.status x.taskId = some e.type.taskStatus) ∧
    (asked → e.type = .cancelled)

/-- The execution at a place of a daemon, with the parameters of another, after some replies. -/
def DaemonServer.Watched (n : ℕ) (x₀ : Execution) (os : List Reply) (d : DaemonServer) : Prop :=
  d.world.store.Cached ∧ ∃ x, d.Has n x ∧
    (x.executionId = x₀.executionId ∧ x.team = x₀.team ∧ x.taskId = x₀.taskId) ∧
    x.Standing (.cancelled x₀.executionId ∈ os) d.world

private theorem mem_snoc_of_ne {os : List Reply} {id : Str} {o : Reply} (h : o ≠ .cancelled id) :
    (Reply.cancelled id ∈ os ++ [o]) = (Reply.cancelled id ∈ os) := by
  simp [h.symm]

theorem DaemonServer.graphStatus_cases (d : DaemonServer) (id team : Str) :
    (∀ k, (d.graphStatus id team).1 ≠ .cancelled k) ∧
      ((d.graphStatus id team).2 = d ∨
        (d.graphStatus id team).2 = d.modifyActive id Execution.unlist) := by
  unfold DaemonServer.graphStatus
  cases d.active id with
  | none => split_ifs <;> exact ⟨nofun, .inl rfl⟩
  | some x =>
    dsimp only
    split_ifs
    · exact ⟨nofun, .inl rfl⟩
    · exact ⟨nofun, .inl rfl⟩
    · exact ⟨nofun, .inr rfl⟩
    · exact ⟨nofun, .inl rfl⟩

/-- **A step of the daemon.** -/
theorem DaemonServer.Watched.step {n : ℕ} {x₀ : Execution} {os : List Reply} {d : DaemonServer}
    (hid : x₀.executionId ≠ []) (h : d.Watched n x₀ os) {i : Input}
    (hown : OwnInput n x₀.executionId i) (hsafe : CancelSafe i d) :
    (d.step i).2.Watched n x₀ (os ++ [(d.step i).1]) := by
  obtain ⟨hcached, x, hhas, hids, hstanding⟩ := h
  refine ⟨step_cached hcached i, ?_⟩
  cases i with
  | resume m a =>
    obtain rfl : m = n := hown
    obtain ⟨hhas', hworld⟩ := hhas.resume a
    obtain ⟨hid', hteam, htask⟩ := x.resume_ids a d.world
    have hreply : (d.step (.resume m a)).1 ≠ .cancelled x₀.executionId := nofun
    refine ⟨_, hhas', ⟨hid'.trans hids.1, hteam.trans hids.2.1, htask.trans hids.2.2⟩, ?_⟩
    rw [mem_snoc_of_ne hreply]
    exact hworld ▸ hstanding.resume hcached a
  | graphCancel id =>
    obtain rfl : id = x.executionId := Eq.trans hown hids.1.symm
    have hstep : d.step (.graphCancel x.executionId) = _ := hhas.graphCancel (hids.1 ▸ hid)
    have hactive := hhas.active
    rw [hstep]
    split_ifs at hactive ⊢ with hlisted
    · have hnext := hhas.modifyActive (f := Execution.requestCancel) x.requestCancel_ids.1
      have hasked : (Reply.cancelled x₀.executionId ∈ os ++ [.cancelled x.executionId]) = True :=
        eq_true (by simp [hids.1])
      rw [if_pos hlisted] at hnext
      refine ⟨_, hnext, ?_, ?_⟩
      · rw [x.requestCancel_ids.1, x.requestCancel_ids.2.1, x.requestCancel_ids.2.2]
        exact hids
      · rw [hasked]
        exact hstanding.cancel (hsafe x hactive)
    · have hreply : Reply.notFound x.executionId ≠ .cancelled x₀.executionId := nofun
      refine ⟨x, hhas, hids, ?_⟩
      rw [mem_snoc_of_ne hreply]
      exact hstanding
  | graphStatus id team =>
    obtain rfl : id = x.executionId := Eq.trans hown hids.1.symm
    obtain ⟨hreply, hnext⟩ := d.graphStatus_cases x.executionId team
    change ∃ y, (d.graphStatus x.executionId team).2.Has n y ∧ _ ∧
      y.Standing (_ ∈ os ++ [(d.graphStatus x.executionId team).1])
        (d.graphStatus x.executionId team).2.world
    rw [mem_snoc_of_ne (hreply _)]
    rcases hnext with hnext | hnext <;> rw [hnext]
    · exact ⟨x, hhas, hids, hstanding⟩
    · refine ⟨_, hhas.modifyActive rfl, ?_⟩
      split_ifs <;> exact ⟨hids, hstanding⟩
  | _ => exact hown.elim

/-! ### From the start on -/

/-- `graph.execute_async` starts an execution, with a new id. -/
def DaemonServer.Starts (d : DaemonServer) (p : ExecuteParams) (a : Answer) : Prop :=
  (d.graphExecuteAsync p a).1 = .started (newExecution p a).executionId
      (newExecution p a).sessionId p.taskId ∧
    d.active (newExecution p a).executionId = none ∧
    d.world.evidence (newExecution p a).path = []

/-- The execution that has been started is settled once its coroutine has ended. -/
def DaemonServer.EndsSettled (d : DaemonServer) (p : ExecuteParams) (a : Answer)
    (is : List Input) : Prop :=
  let r := run DaemonServer.step is (d.graphExecuteAsync p a).2
  ∃ x, r.2.members[d.members.length]? = some (.execution x) ∧
    (x.executionId = (newExecution p a).executionId ∧ x.team = p.team ∧ x.taskId = p.taskId) ∧
    (x.phase = .done → r.2.Settled x (.cancelled (newExecution p a).executionId ∈ r.1))

theorem DaemonServer.Starts.watched {d : DaemonServer} {p : ExecuteParams} {a : Answer}
    (hcached : d.world.store.Cached) (h : d.Starts p a) :
    (d.graphExecuteAsync p a).2.Watched d.members.length (newExecution p a) [] := by
  obtain ⟨hstarted, hactive, hevidence⟩ := h
  have hcached' := step_cached hcached (.graphExecuteAsync p a)
  refine ⟨hcached', ?_⟩
  unfold DaemonServer.graphExecuteAsync startExecution at hstarted ⊢
  split_ifs at hstarted ⊢
  refine ⟨newExecution p a, ⟨?_, fun m co hm hne => ?_⟩, ⟨rfl, rfl, rfl⟩, ?_, rfl, nofun⟩
  · simp [Pool.spawn]
  · have hm : (d.members ++ [Coroutine.execution (newExecution p a)])[m]? = some co := hm
    rcases Nat.lt_or_ge m d.members.length with hlt | hge
    · have hco : co ∈ d.members := by
        rw [List.getElem?_append_left hlt] at hm
        exact List.mem_of_getElem? hm
      exact List.findSome?_eq_none_iff.mp hactive co hco
    · have hnone : (d.members ++ [Coroutine.execution (newExecution p a)])[m]? = none :=
        List.getElem?_eq_none (by simp only [List.length_append, List.length_singleton]; omega)
      exact nomatch hnone.symm.trans hm
  · intro e he
    have hfirst : ((newExecution p a).link a.clock (d.world.writeEvidence (newExecution p a).path
        ((newExecution p a).startRecord a.now))).evidence (newExecution p a).path =
        [(newExecution p a).startRecord a.now] := by
      rw [evidence_link, World.evidence_writeEvidence, if_pos rfl, hevidence]
      rfl
    obtain rfl := List.mem_singleton.mp (hfirst ▸ he : e ∈ [(newExecution p a).startRecord a.now])
    rfl

theorem DaemonServer.Has.settled {d : DaemonServer} {n : ℕ} {x : Execution} (h : d.Has n x)
    (hid : x.executionId ≠ []) {asked : Prop} (hx : x.Standing asked d.world)
    (hdone : x.phase = .done) : d.Settled x asked := by
  unfold Execution.Standing at hx
  rw [hdone] at hx
  obtain ⟨type, hended, hstatus, hasked⟩ := hx
  obtain ⟨r, hterminal, rfl⟩ := hended.terminalEvidence
  refine ⟨r, hterminal, ⟨_, h.graphStatus hid hdone x.team, ?_⟩, hstatus, hasked⟩
  have hlast := hended.lastEvidence
  unfold World.lastEvidence at hlast
  rw [← World.getLast?_readEvidenceTail _ 49] at hlast
  obtain ⟨e, he, htype⟩ := Option.map_eq_some_iff.mp hlast
  unfold DaemonServer.statusOfEvidence
  have he' : (d.world.readEvidenceTail (evidencePath x.executionId x.team) 50).getLast? = some e :=
    he
  rw [he', ← htype]
  rfl

/-- **Cancelling an execution.** In any state of the daemon an execution is started, and after any
interleaving of its turns with requests about it, in which every `graph.cancel` finds it where it
ends as cancelled, it is settled once its coroutine has ended: it has one terminal record,
`graph.status` reports that, its task has the same status, and it has been cancelled if a
`graph.cancel` has said so. -/
theorem settled_of_cancelSafe (lazyLoad : Bool) (tasks : Table) (history : List HistoryRow)
    (index : List IndexRow) (ttl : ℤ) (files : List (Str × List Evidence)) (before : List Input)
    {d : DaemonServer} (hd : d = (run DaemonServer.step before
      (DaemonServer.opened lazyLoad tasks history index ttl files)).2)
    {p : ExecuteParams} {a : Answer} (hstarts : d.Starts p a) (is : List Input)
    (hown : ∀ i ∈ is, OwnInput d.members.length (newExecution p a).executionId i)
    (hsafe : Along DaemonServer.step CancelSafe is (d.graphExecuteAsync p a).2) :
    d.EndsSettled p a is := by
  have hcached : d.world.store.Cached := hd ▸ run_invariant_always
    (I := fun d : DaemonServer => d.world.store.Cached) (fun i d hd => step_cached hd i) before
    (Store.cached_open _ _ _ _ _)
  have hid : (newExecution p a).executionId ≠ [] := List.cons_ne_nil _ _
  have hok : Along DaemonServer.step (fun i d' =>
      OwnInput d.members.length (newExecution p a).executionId i ∧ CancelSafe i d') is
      (d.graphExecuteAsync p a).2 := along_and.mpr ⟨along_of_forall hown, hsafe⟩
  have hwatched := run_outputs_invariant
    (I := fun os d' => DaemonServer.Watched d.members.length (newExecution p a) os d')
    (fun i d' os h hok => h.step hid hok.1 hok.2) is (hstarts.watched hcached) hok
  obtain ⟨-, x, hhas, hids, hstanding⟩ := hwatched
  exact ⟨x, hhas.place, hids, hhas.settled (hids.1 ▸ hid) hstanding⟩

/-- A cancel in the stream of an execution with a task. -/
theorem settled_of_cancelSafe_streaming :
    let answer : Answer := { signal := .go, now := 1, clock := fun _ _ => 1, newId := "1".toList }
    (run DaemonServer.step
      [.op ⟨.submit { Task.default with taskId := "t".toList }, fun _ => 1⟩]
      (DaemonServer.opened true Table.empty [] [] 0 [])).2.EndsSettled
        { taskId := "t".toList } answer
        [.resume 0 answer, .resume 0 answer, .graphCancel "exec_1".toList, .resume 0 answer,
          .resume 0 answer] :=
  settled_of_cancelSafe true Table.empty [] [] 0 [] _ rfl ⟨rfl, rfl, rfl⟩ _
    (by
      simp only [List.forall_mem_cons, List.not_mem_nil, false_imp_iff, implies_true, and_true]
      exact ⟨rfl, rfl, rfl, rfl, rfl⟩)
    ⟨trivial, trivial, fun x hx => by obtain rfl := Option.some.inj hx; trivial, trivial, trivial,
      trivial⟩

/-- A cancel before the first step: the execution ends without a terminal record. -/
theorem not_settled :
    ¬ ∀ (before : List Input) (p : ExecuteParams) (a : Answer) (is : List Input)
      (d : DaemonServer), d = (run DaemonServer.step before
        (DaemonServer.opened true Table.empty [] [] 0 [])).2 → d.Starts p a →
      (∀ i ∈ is, OwnInput d.members.length (newExecution p a).executionId i) →
      d.EndsSettled p a is := by
  intro hall
  let answer : Answer := { signal := .go, now := 1, clock := fun _ _ => 1, newId := "1" }
  obtain ⟨x, hx, -, hsettled⟩ := hall [] {} answer
    [.graphCancel "exec_1", .resume 0 answer] _ rfl ⟨rfl, rfl, rfl⟩
    (by
      simp only [List.forall_mem_cons, List.not_mem_nil, false_imp_iff, implies_true, and_true]
      exact ⟨rfl, rfl⟩)
  obtain rfl : _ = x := Coroutine.execution.inj (Option.some.inj hx)
  obtain ⟨e, hterminal, -⟩ := hsettled rfl
  exact absurd hterminal (List.cons_ne_nil _ _).symm

end AgentStudio.Daemon

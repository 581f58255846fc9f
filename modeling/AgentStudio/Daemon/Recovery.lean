import AgentStudio.Daemon.Turns

/-!
# A start after a crash

A crash leaves the database and the evidence files. Where an execution has written its terminal
record and not yet its task, the task is `running` with the evidence of the end (`Interrupted`), and
the start that follows should set it to what the record says and not run it again
(`Start.Recovers`).

`start` first lets the executor reset what it had claimed, and reads the evidence afterwards: a task
that the executor had claimed is back in the queue then, is claimed again, and `list` finds at most
500 of the others. `recovers_of_safe` says that the remaining tasks recover, whatever the executor
does until and after the evidence is read, and `not_recovers` is a task of the executor.
-/

namespace AgentStudio.Daemon

open PyText PyDict PyJson Tasks Coroutines Machine

/-! ### The start -/

/-- A poll of the executor or a turn of a coroutine. -/
def Input.isWork : Input → Bool
  | .poll _ _ | .resume _ _ => true
  | _ => false

/-- What a start depends on: the mode of the store and the lifetime of tasks, the readings of the
clock by the executor unless it is disabled, and by `_reconcile_task_states`, and what the executor
does before and afterwards. -/
structure Start where
  lazyLoad : Bool
  ttl : ℤ
  executor : Option (ℕ → ℤ)
  between : List Input
  clock : ℕ → ℕ → ℤ
  after : List Input

namespace Start

variable (s : Start) (d : DaemonServer)

/-- The daemon after a crash, when the executor has been started. -/
def started : DaemonServer :=
  (run DaemonServer.step (.crash s.lazyLoad s.ttl :: s.executor.toList.map .startExecutor) d).2

/-- The daemon when `_reconcile_task_states` is called. -/
def waiting : DaemonServer := (run DaemonServer.step s.between (s.started d)).2

def finished : DaemonServer :=
  (run DaemonServer.step (.reconcile s.clock :: s.after) (s.waiting d)).2

end Start

def DaemonServer.Runs (d : DaemonServer) (id : Str) : Prop := ∃ co ∈ d.members, co.RunsTask id

/-- The task is running, and its evidence ends with a terminal record. -/
structure Interrupted (w : World) (id : Str) (r : Row) (type : EvidenceType) : Prop where
  row : w.store.db.tasks.find id = some r
  running : r.status = .running
  linked : r.evidenceRef ≠ []
  last : w.lastEvidence r.evidenceRef = some type
  terminal : type.terminal = true

/-- The task is not queued or run at any time, and ends with the status of its evidence. -/
def Start.Recovers (s : Start) (d : DaemonServer) (id : Str) (type : EvidenceType) : Prop :=
  ((s.waiting d).world.status id ≠ some .pending ∧ ¬ (s.waiting d).Runs id) ∧
    (s.finished d).world.status id = some type.taskStatus ∧ ¬ (s.finished d).Runs id

/-- The ids of new executions are new: no evidence file has one. -/
def FreshIds (i : Input) (d : DaemonServer) : Prop :=
  match i with
  | .resume _ a =>
    d.world.evidence (evidencePath ("exec_" ++ a.newId) "default") = []
  | _ => True

/-! ### The evidence of others -/

namespace World

variable {w : World} {path : Str}

theorem evidence_of_files {w' : World} (h : w'.files = w.files) :
    w'.evidence path = w.evidence path := by
  unfold World.evidence
  rw [h]

theorem files_addArtifacts (id : Str) (artifactIds : List Str) (clock : ℕ → ℤ) :
    (w.addArtifacts id artifactIds clock).files = w.files := by
  unfold addArtifacts
  split_ifs <;> rfl

end World

theorem Execution.evidence_resume (x : Execution) (a : Answer) (w : World) {path : Str}
    (hpath : x.path ≠ path) : (x.resume a w).2.evidence path = w.evidence path := by
  have hwrite (e : Evidence) : (w.writeEvidence x.path e).evidence path = w.evidence path := by
    rw [World.evidence_writeEvidence, if_neg hpath.symm]
  unfold Execution.resume
  cases x.phase with
  | created =>
    dsimp only
    split_ifs
    · rfl
    · cases a.signal with
      | raised text => exact hwrite _
      | _ => rfl
  | waitingSlot =>
    dsimp only
    split_ifs
    · exact hwrite _
    · rfl
  | streaming =>
    dsimp only
    split_ifs
    · exact hwrite _
    · cases a.signal with
      | event e =>
        rcases x.receive_world e a.now w with heq | ⟨r, -, heq⟩
        · exact congrArg (·.evidence path) heq
        · exact (congrArg (·.evidence path) heq).trans (hwrite r)
      | returned | raised => exact hwrite _
      | _ => rfl
  | announcing e =>
    dsimp only
    split_ifs
    · cases e with
      | completed f => exact hwrite _
      | _ => rfl
    · exact x.evidence_writeBack w e a.clock path
  | done => rfl

theorem SyncRun.files_resume (x : SyncRun) (a : Answer) (w : World) :
    (x.resume a w).2.files = w.files := by
  unfold resume
  cases x.phase with
  | streaming =>
    cases a.signal with
    | returned f =>
      dsimp only
      unfold writeBack
      split_ifs
      · rfl
      · exact World.files_addArtifacts _ _ _
    | _ => rfl
  | _ => rfl

theorem AgentRun.files_resume (x : AgentRun) (a : Answer) (w : World) :
    (x.resume a w).2.files = w.files := by
  unfold resume
  split_ifs
  · rfl
  · cases a.signal with
    | report ok result error => cases ok <;> rfl
    | _ => rfl

theorem evidence_startExecution (p : ExecuteParams) (a : Answer) (w : World) {path : Str}
    (hpath : (newExecution p a).path ≠ path) :
    (startExecution p a w).2.evidence path = w.evidence path := by
  unfold startExecution
  split_ifs
  · rfl
  · rfl
  · dsimp only
    rw [evidence_link, World.evidence_writeEvidence, if_neg hpath.symm]

namespace Worker

variable (x : Worker) (a : Answer) (w : World)

theorem files_finalize : (x.finalize w).2.files = w.files := by
  unfold finalize
  split <;> next heq => exact (congrArg (fun r => r.2.files) heq).symm

theorem files_await : (x.await w).2.files = w.files := by
  unfold await
  split <;> next heq =>
    have hget := (congrArg (fun r => r.2.files) heq).symm
    first
    | exact (x.files_finalize _).trans hget
    | split_ifs
      · exact (x.files_finalize _).trans hget
      · exact hget

theorem evidence_dispatch (t : Task) {path : Str}
    (hpath : evidencePath ("exec_" ++ a.newId) "default" ≠ path) :
    (x.dispatch t a w).2.2.evidence path = w.evidence path := by
  unfold dispatch
  split_ifs
  · dsimp only
    unfold executeAgent
    split_ifs
    · rfl
    · cases a.signal with
      | report ok result error => cases ok <;> rfl
      | _ => rfl
  · dsimp only
    have hstart := evidence_startExecution { graphId := t.graphId, taskId := x.taskId } a w hpath
    unfold executeGraph
    split <;> next heq =>
      rw [heq] at hstart
      exact hstart
  · rfl

theorem evidence_resume {path : Str}
    (hpath : evidencePath ("exec_" ++ a.newId) "default" ≠ path) :
    (x.resume a w).2.2.2.evidence path = w.evidence path := by
  unfold resume
  cases x.phase with
  | created =>
    dsimp only
    split <;> next heq =>
      have hget := (congrArg (fun r => r.2.evidence path) heq).symm
      first
      | exact hget
      | split_ifs <;> exact hget
  | announcing t =>
    exact (World.evidence_of_files (x.files_await _)).trans (x.evidence_dispatch a w t hpath)
  | awaiting =>
    dsimp only
    cases a.signal with
    | capped => exact World.evidence_of_files (x.files_finalize w)
    | _ => exact World.evidence_of_files (x.files_await w)
  | finalizing t =>
    dsimp only
    unfold requeue
    split_ifs <;> rfl
  | done => rfl

end Worker

/-! ### While the executor works -/

/-- The row of the task is as it was, and nothing runs it. -/
structure Untouched (id : Str) (r : Row) (d : DaemonServer) : Prop where
  cached : d.world.store.Cached
  row : d.world.store.db.tasks.find id = some r
  sees : d.world.store.sees id = true
  besides : ∀ co ∈ d.members, (∀ c, co ≠ .chain c) ∧ ¬ co.RunsTask id

/-- The evidence ends as it did, and no execution writes to it. -/
structure Unwritten (path : Str) (type : EvidenceType) (d : DaemonServer) : Prop where
  last : d.world.lastEvidence path = some type
  besides : ∀ co ∈ d.members, (∀ c, co ≠ .chain c) ∧ ∀ x, co = .execution x → x.path ≠ path

theorem World.SameRow.find {w w' : World} {id : Str} {r : Row} (h : World.SameRow w w' id)
    (hr : w.store.db.tasks.find id = some r) : w'.store.db.tasks.find id = some r := h.1.trans hr

theorem Coroutine.sameRow_turn {co : Coroutine} (hchain : ∀ c, co ≠ .chain c) {w : World}
    (h : w.store.Cached) {id : Str} (hco : ¬ co.RunsTask id) (a : Answer) :
    World.SameRow w (co.turn a w).world id := by
  cases co with
  | execution x | sync x | agent x | worker x => exact (x.acts a w).sameRow_of_ne h (Ne.symm hco)
  | chain c => exact absurd rfl (hchain c)

theorem Coroutine.turn_ne_chain {co : Coroutine} (hchain : ∀ c, co ≠ .chain c) (a : Answer)
    (w : World) (c : ChainRun) : (co.turn a w).self ≠ .chain c := by
  cases co with
  | chain c => exact absurd rfl (hchain c)
  | _ => exact nofun

theorem Untouched.step {id : Str} {r : Row} {d : DaemonServer} (h : Untouched id r d)
    (hr : r.status ≠ .pending) {i : Input} (hi : i.isWork = true) :
    Untouched id r (d.step i).2 := by
  have hcached := step_cached h.cached i
  cases i with
  | poll token clock =>
    have hbesides : ∀ r', d.world.store.db.tasks.find id = some r' → r'.status ≠ .pending :=
      fun r' hr' => by rwa [Option.some.inj (hr'.symm.trans h.row)]
    obtain ⟨hsame, hclaimed⟩ := World.poll_besides h.cached hbesides token clock
    change Untouched id r (DaemonServer.poll d token clock)
    change (DaemonServer.poll d token clock).world.store.Cached at hcached
    unfold DaemonServer.poll at hcached ⊢
    cases hpoll : d.world.poll token clock with
    | mk result w =>
      rw [hpoll] at hsame hclaimed hcached
      cases result with
      | none => exact ⟨hcached, hsame.find h.row, hsame.2.trans h.sees, h.besides⟩
      | some t =>
        refine ⟨hcached, hsame.find h.row, hsame.2.trans h.sees, fun co hco => ?_⟩
        rcases mem_snoc.mp hco with hco | rfl
        · exact h.besides co hco
        · exact ⟨nofun, hclaimed t rfl⟩
  | resume n a =>
    change Untouched id r (Pool.resume Coroutine.turn n a d)
    change (Pool.resume Coroutine.turn n a d).world.store.Cached at hcached
    cases hn : d.members[n]? with
    | none => rwa [Pool.resume_of_none hn]
    | some p =>
      obtain ⟨hchain, hp⟩ := h.besides p (List.mem_of_getElem? hn)
      rw [Pool.resume_of_some hn] at hcached ⊢
      have hsame := Coroutine.sameRow_turn hchain h.cached hp a
      refine ⟨hcached, hsame.find h.row, hsame.2.trans h.sees, fun co hco => ?_⟩
      rcases List.mem_append.mp hco with hco | hco
      · rcases List.mem_or_eq_of_mem_set hco with hco | rfl
        · exact h.besides co hco
        · exact ⟨Coroutine.turn_ne_chain hchain a d.world,
            fun hruns => hp ((Coroutine.runsTask_self hchain a d.world id).mp hruns)⟩
      · obtain ⟨x, t, rfl, -, ⟨y, rfl, hy⟩ | ⟨y, rfl, hy, -⟩⟩ := Coroutine.spawned hco
        · exact ⟨nofun, fun hruns => hp (hy.symm.trans hruns)⟩
        · exact ⟨nofun, fun hruns => hp (hy.symm.trans hruns)⟩
  | _ => exact nomatch hi

theorem Unwritten.step {path : Str} {type : EvidenceType} {d : DaemonServer}
    (h : Unwritten path type d) {i : Input} (hi : i.isWork = true) (hfresh : FreshIds i d) :
    Unwritten path type (d.step i).2 := by
  have hlast {w : World} (hw : w.evidence path = d.world.evidence path) :
      w.lastEvidence path = some type := by
    unfold World.lastEvidence
    rw [hw]
    exact h.last
  cases i with
  | poll token clock =>
    have hfiles : (d.world.poll token clock).2.evidence path = d.world.evidence path :=
      World.evidence_of_files (d.world.files_poll token clock)
    change Unwritten path type (DaemonServer.poll d token clock)
    unfold DaemonServer.poll
    cases hpoll : d.world.poll token clock with
    | mk result w =>
      rw [hpoll] at hfiles
      cases result with
      | none => exact ⟨hlast hfiles, h.besides⟩
      | some t =>
        refine ⟨hlast hfiles, fun co hco => ?_⟩
        rcases mem_snoc.mp hco with hco | rfl
        · exact h.besides co hco
        · exact ⟨nofun, nofun⟩
  | resume n a =>
    change Unwritten path type (Pool.resume Coroutine.turn n a d)
    cases hn : d.members[n]? with
    | none => rwa [Pool.resume_of_none hn]
    | some p =>
      obtain ⟨hchain, hp⟩ := h.besides p (List.mem_of_getElem? hn)
      have hnew : evidencePath ("exec_" ++ a.newId) "default" ≠ path := by
        rintro rfl
        have hnone : d.world.evidence _ = [] := hfresh
        have hlast := h.last
        unfold World.lastEvidence at hlast
        rw [hnone] at hlast
        exact nomatch hlast
      have hevidence : (p.turn a d.world).world.evidence path = d.world.evidence path := by
        cases p with
        | execution x => exact x.evidence_resume a d.world (hp x rfl)
        | sync x | agent x => exact World.evidence_of_files (x.files_resume a d.world)
        | chain c => exact absurd rfl (hchain c)
        | worker x => exact x.evidence_resume a d.world hnew
      rw [Pool.resume_of_some hn]
      refine ⟨hlast hevidence, fun co hco => ?_⟩
      rcases List.mem_append.mp hco with hco | hco
      · rcases List.mem_or_eq_of_mem_set hco with hco | rfl
        · exact h.besides co hco
        · refine ⟨Coroutine.turn_ne_chain hchain a d.world, fun y hy => ?_⟩
          cases p with
          | execution x =>
            obtain rfl := Coroutine.execution.inj hy
            have hids := x.resume_ids a d.world
            unfold Execution.path
            rw [hids.1, hids.2.1]
            exact hp x rfl
          | _ => exact nomatch hy
      · obtain ⟨x, t, rfl, -, ⟨y, rfl, -⟩ | ⟨y, rfl, -, hy⟩⟩ := Coroutine.spawned hco
        · exact ⟨nofun, nofun⟩
        · refine ⟨nofun, fun z hz => ?_⟩
          obtain rfl := Coroutine.execution.inj hz
          exact hy ▸ hnew
  | _ => exact nomatch hi

/-! ### Reading the evidence -/

namespace World

variable {w : World}

theorem mem_list (h : w.store.Cached) {status : Status} {limit : ℕ} {now : ℤ} {t : Task}
    (ht : t ∈ (w.list status limit now).1) :
    t.status = status ∧ ∃ r, w.store.db.tasks.find t.taskId = some r ∧ norm t = fromRow r := by
  have hcached : (w.store.reapExpired now).2.Cached := h.deleteIds _
  have hread {k : Str} {u : Task} (hu : (w.store.reapExpired now).2.db.read k = some u) :
      w.store.db.read k = some u := by
    have hdeleted : (w.store.reapExpired now).2.db.read k =
        if k ∈ w.store.db.expiredIds now then none else w.store.db.read k :=
      Database.read_deleteIds _ _ k
    rw [hdeleted] at hu
    split_ifs at hu
    exact hu
  have hmem := List.mem_of_mem_take ht
  rw [List.mem_insertionSort, List.mem_filter, decide_eq_true_eq] at hmem
  obtain ⟨hmem, hstatus⟩ := hmem
  refine ⟨hstatus, ?_⟩
  split_ifs at hmem
  · obtain ⟨r, hr, rfl⟩ := List.mem_map.mp hmem
    obtain ⟨r', hr', heq⟩ := Option.map_eq_some_iff.mp
      (hread (congrArg (Option.map fromRow) (Table.find_of_mem hr)))
    exact ⟨r', hr', (norm_fromRow r).trans heq.symm⟩
  · obtain ⟨k, hk⟩ := mem_values hmem
    obtain ⟨r, hr, heq⟩ := Option.map_eq_some_iff.mp (hread (hcached k t hk))
    have hid : t.taskId = k :=
      (congrArg Record.taskId heq).symm.trans (Table.mem_of_find hr).2
    exact ⟨r, hid ▸ hr, heq.symm⟩

theorem sameRow_list {id : Str} {r : Row} (hr : w.store.db.tasks.find id = some r)
    (hrunning : r.status = .running) (status : Status) (limit : ℕ) (now : ℤ) :
    SameRow w (w.list status limit now).2 id := by
  have hkept : id ∉ w.store.db.expiredIds now := by
    unfold Database.expiredIds
    split_ifs
    · exact List.not_mem_nil
    · intro hid
      obtain ⟨x, hx, rfl⟩ := List.mem_map.mp hid
      obtain ⟨hx, hexpired⟩ := List.mem_filter.mp hx
      obtain rfl := Option.some.inj ((Table.find_of_mem hx).symm.trans hr)
      simp [Database.expired, hrunning] at hexpired
  constructor
  · exact (w.store.db.find_deleteIds _ id).trans (if_neg hkept)
  · exact (Store.sees_deleteIds w.store _ id).trans (by simp [hkept])

theorem reconcileTask_of_last {t : Task} {type : EvidenceType} (hlinked : t.evidenceRef ≠ [])
    (hlast : w.lastEvidence t.evidenceRef = some type) (hterminal : type.terminal = true)
    (clock : ℕ → ℤ) : ∃ result,
      w.reconcileTask t clock = w.updateStatus t.taskId type.taskStatus result [] clock := by
  unfold lastEvidence at hlast
  rw [← getLast?_readEvidenceTail _ 49] at hlast
  obtain ⟨e, he, rfl⟩ := Option.map_eq_some_iff.mp hlast
  obtain ⟨init, htail⟩ := List.getLast?_eq_some_iff.mp he
  have hlast : ((w.readEvidenceTail t.evidenceRef 50).filter (·.type.terminal)).getLast? =
      some e := by
    rw [htail, List.filter_append]
    simp [hterminal]
  unfold reconcileTask
  rw [if_neg hlinked]
  dsimp only
  rw [hlast]
  dsimp only
  cases htype : e.type with
  | started | progress => rw [htype] at hterminal; exact nomatch hterminal
  | _ => exact ⟨_, rfl⟩

theorem files_reconcileTask (t : Task) (clock : ℕ → ℤ) :
    (w.reconcileTask t clock).files = w.files := by
  unfold reconcileTask
  dsimp only
  split
  · rfl
  · split <;> rfl

theorem status_foldl_reconcileTask {id path : Str} {type : EvidenceType}
    (hterminal : type.terminal = true) (hpath : path ≠ []) (clock : ℕ → ℕ → ℤ)
    (ts : List (Task × ℕ)) (hts : ∀ t ∈ ts, t.1.taskId = id → t.1.evidenceRef = path)
    (h : w.store.Cached) (hlast : w.lastEvidence path = some type) (hfound : w.status id ≠ none)
    (hlisted : w.status id = some type.taskStatus ∨ ∃ t ∈ ts, t.1.taskId = id) :
    (ts.foldl (fun w t => w.reconcileTask t.1 (clock t.2)) w).status id =
      some type.taskStatus := by
  induction ts generalizing w with
  | nil => exact hlisted.resolve_right fun ⟨t, ht, _⟩ => List.not_mem_nil ht
  | cons t ts ih =>
    have hacts := w.reconcileTask_acts t.1 (clock t.2)
    have hevidence : (w.reconcileTask t.1 (clock t.2)).evidence path = w.evidence path :=
      evidence_of_files (files_reconcileTask t.1 (clock t.2))
    have hlast' : (w.reconcileTask t.1 (clock t.2)).lastEvidence path = some type := by
      unfold lastEvidence at hlast ⊢
      rwa [hevidence]
    rw [List.foldl_cons]
    have hrest := @ih (w := w.reconcileTask t.1 (clock t.2))
      (fun u hu => hts u (List.mem_cons_of_mem t hu)) (hacts.cached h) hlast'
    by_cases hid : t.1.taskId = id
    · have hvalid : type.taskStatus.valid = true := by cases type <;> rfl
      have hstatus : (w.reconcileTask t.1 (clock t.2)).status id = some type.taskStatus := by
        have href := hts t List.mem_cons_self hid
        obtain ⟨result, heq⟩ := reconcileTask_of_last (href ▸ hpath) (href ▸ hlast) hterminal
          (clock t.2)
        obtain ⟨st, hst⟩ := Option.ne_none_iff_exists'.mp hfound
        rw [heq, hid]
        refine (status_call_updateStatus h id hvalid _ _ _ _ _).trans ?_
        rw [if_pos rfl, hst]
        rfl
      exact hrest (by rw [hstatus]; exact nofun) (.inl hstatus)
    · have hstatus := (hacts.sameRow_of_ne h (Ne.symm hid)).status
      refine hrest (hstatus ▸ hfound) ?_
      rcases hlisted with hdone | ⟨u, hu, huid⟩
      · exact .inl (hstatus.trans hdone)
      · rcases List.mem_cons.mp hu with rfl | hu
        · exact absurd huid hid
        · exact .inr ⟨u, hu, huid⟩

/-- **Reading the evidence.** -/
theorem status_reconcile (h : w.store.Cached) {id : Str} {r : Row} {type : EvidenceType}
    (hinterrupted : Interrupted w id r type) (hsees : w.store.sees id = true)
    (clock : ℕ → ℕ → ℤ)
    (hlisted : ∃ t ∈ (w.list .running 500 (clock 0 0)).1, t.taskId = id) :
    (w.reconcile clock).status id = some type.taskStatus := by
  have hsame := sameRow_list hinterrupted.row hinterrupted.running .running 500 (clock 0 0)
  have hstatus : (w.list .running 500 (clock 0 0)).2.status id = some .running := by
    rw [hsame.status]
    simp [World.status, hinterrupted.row, hsees, hinterrupted.running]
  refine status_foldl_reconcileTask hinterrupted.terminal hinterrupted.linked clock _
    (fun t ht hid => ?_) (cached_list h _ _ _) hinterrupted.last (by simp [hstatus])
    (.inr ?_)
  · obtain ⟨-, r', hr', heq⟩ := mem_list h (List.fst_mem_of_mem_zipIdx ht)
    obtain rfl := Option.some.inj ((hid ▸ hr').symm.trans hinterrupted.row)
    exact congrArg Record.evidenceRef heq
  · obtain ⟨t, ht, hid⟩ := hlisted
    obtain ⟨i, hi, rfl⟩ := List.getElem_of_mem ht
    exact ⟨(_, 1 + i), List.mk_add_mem_zipIdx_iff_getElem?.mpr (List.getElem?_eq_getElem hi), hid⟩

theorem sees_reopen (lazyLoad : Bool) (ttl : ℤ) {id : Str} {r : Row}
    (hr : w.store.db.tasks.find id = some r) :
    (w.reopen lazyLoad ttl).store.sees id = true :=
  Store.sees_open lazyLoad _ _ _ ttl hr

theorem sameRow_resetOrphans {id : Str} {r : Row} (hr : w.store.db.tasks.find id = some r)
    {owner : Str} (howner : r.ownerAgent ≠ owner) (clock : ℕ → ℤ) :
    SameRow w (w.call (.resetOrphans owner) clock) id := by
  have hnot : Database.orphan owner r = false := by simp [Database.orphan, howner]
  have hother : id ∉ w.store.db.orphanIds owner := by
    intro hid
    obtain ⟨x, hx, rfl⟩ := List.mem_map.mp hid
    obtain ⟨hx, horphan⟩ := List.mem_filter.mp hx
    obtain rfl := Option.some.inj ((Table.find_of_mem hx).symm.trans hr)
    exact Bool.false_ne_true (hnot.symm.trans horphan)
  change SameRow w { w with store := (w.store.resetOrphans owner clock).2 } id
  unfold Store.resetOrphans
  split_ifs
  · exact ⟨rfl, rfl⟩
  · refine ⟨?_, (w.store.sees_claimWhere _ rfl id).trans (by simp [hother])⟩
    refine (Table.find_claimWhere _ _ id).trans ?_
    rw [hr]
    simp [hnot]

end World

/-! ### The whole start -/

namespace Start

variable {s : Start} {d : DaemonServer} {id : Str} {r : Row} {type : EvidenceType}

theorem untouched_started (h : Interrupted d.world id r type)
    (howner : s.executor = none ∨ r.ownerAgent ≠ executorOwner) :
    Untouched id r (s.started d) ∧ Unwritten r.evidenceRef type (s.started d) := by
  have hcached : (d.world.reopen s.lazyLoad s.ttl).store.Cached := Store.cached_open _ _ _ _ _
  have hsees := World.sees_reopen s.lazyLoad s.ttl h.row
  unfold started
  cases hexecutor : s.executor with
  | none =>
    exact ⟨⟨hcached, h.row, hsees, List.forall_mem_nil _⟩,
      ⟨h.last, List.forall_mem_nil _⟩⟩
  | some clock =>
    have howner := howner.resolve_left (by rw [hexecutor]; exact nofun)
    have hsame := World.sameRow_resetOrphans (w := d.world.reopen s.lazyLoad s.ttl) h.row howner
      clock
    exact ⟨⟨World.cached_call hcached _ _, hsame.find h.row, hsame.2.trans hsees,
      List.forall_mem_nil _⟩,
      ⟨h.last, List.forall_mem_nil _⟩⟩

theorem untouched_run {is : List Input} (h : Untouched id r d) (hr : r.status ≠ .pending)
    (his : ∀ i ∈ is, i.isWork = true) : Untouched id r (run DaemonServer.step is d).2 :=
  run_invariant (fun _ _ h hi => h.step hr hi) is h (along_of_forall his)

theorem unwritten_run {is : List Input} {path : Str} (h : Unwritten path type d)
    (his : ∀ i ∈ is, i.isWork = true) (hfresh : Along DaemonServer.step FreshIds is d) :
    Unwritten path type (run DaemonServer.step is d).2 := by
  have hok : Along DaemonServer.step (fun i d => i.isWork = true ∧ FreshIds i d) is d :=
    along_and.mpr ⟨along_of_forall his, hfresh⟩
  exact run_invariant (fun _ _ h hi => h.step hi.1 hi.2) is h hok

end Start

theorem World.status_of_row {w : World} {id : Str} {r : Row}
    (hr : w.store.db.tasks.find id = some r) (hsees : w.store.sees id = true) :
    w.status id = some r.status := by
  simp [World.status, hr, hsees]

theorem World.row_of_status {w : World} {id : Str} {st : Status} (h : w.status id = some st) :
    ∃ r, w.store.db.tasks.find id = some r ∧ w.store.sees id = true ∧ r.status = st := by
  obtain ⟨r, hr, hst⟩ := Option.map_eq_some_iff.mp h
  obtain ⟨hr, hsees⟩ := Option.filter_eq_some_iff.mp hr
  exact ⟨r, hr, hsees, hst⟩

/-- **A start after a crash.** In whatever state the daemon crashes, a running task whose evidence
ends with a terminal record is set to what that says, and neither queued nor run again, whatever the
executor does until then and afterwards, if the executor had not claimed it (or is disabled) and it
is among the 500 running tasks that are read. -/
theorem recovers_of_safe (d : DaemonServer) (s : Start) {id : Str} {r : Row} {type : EvidenceType}
    (h : Interrupted d.world id r type)
    (hbetween : ∀ i ∈ s.between, i.isWork = true) (hafter : ∀ i ∈ s.after, i.isWork = true)
    (hfresh : Along DaemonServer.step FreshIds s.between (s.started d))
    (howner : s.executor = none ∨ r.ownerAgent ≠ executorOwner)
    (hlisted : ∃ t ∈ ((s.waiting d).world.list .running 500 (s.clock 0 0)).1, t.taskId = id) :
    s.Recovers d id type := by
  obtain ⟨huntouched, hunwritten⟩ := Start.untouched_started h howner
  have hwaiting : Untouched id r (s.waiting d) :=
    Start.untouched_run huntouched (by rw [h.running]; exact nofun) hbetween
  have hlast : Unwritten r.evidenceRef type (s.waiting d) :=
    Start.unwritten_run hunwritten hbetween hfresh
  have hstatus := World.status_reconcile hwaiting.cached
    ⟨hwaiting.row, h.running, h.linked, hlast.last, h.terminal⟩ hwaiting.sees s.clock hlisted
  obtain ⟨r', hr', hsees', hstatus'⟩ := World.row_of_status hstatus
  have hreconciled : Untouched id r' (DaemonServer.step (.reconcile s.clock) (s.waiting d)).2 :=
    ⟨World.cached_reconcile hwaiting.cached s.clock, hr', hsees', hwaiting.besides⟩
  have hnext : r'.status ≠ .pending := by
    rw [hstatus']
    cases type <;> exact nofun
  have hfinished : Untouched id r' (run DaemonServer.step s.after
      (DaemonServer.step (.reconcile s.clock) (s.waiting d)).2).2 :=
    Start.untouched_run hreconciled hnext hafter
  refine ⟨⟨?_, ?_⟩, ?_, ?_⟩
  · rw [World.status_of_row hwaiting.row hwaiting.sees, h.running]
    exact nofun
  · rintro ⟨co, hco, hruns⟩
    exact (hwaiting.besides co hco).2 hruns
  · exact (World.status_of_row hfinished.row hfinished.sees).trans (congrArg some hstatus')
  · rintro ⟨co, hco, hruns⟩
    exact (hfinished.besides co hco).2 hruns

/-- An execution of a task that has written its terminal record, in a lazy store. -/
theorem recovers_of_safe_requested :
    let answer (signal : Signal) : Answer := { signal, now := 1, clock := fun _ _ => 1 }
    Start.Recovers ⟨true, 0, some fun _ => 2, [.poll "p".toList fun _ => 2], fun _ _ => 3,
      [.poll "q".toList fun _ => 4]⟩
      (run DaemonServer.step
        [.op ⟨.submit { Task.default with taskId := "t".toList }, fun _ => 1⟩,
          .graphExecuteAsync { taskId := "t".toList } (answer .go),
          .resume 0 (answer .go), .resume 0 (answer .go), .resume 0 (answer (.returned {}))]
        (DaemonServer.opened true Table.empty [] [] 0 [])).2
      "t".toList .completed := by
  intro answer
  let d := (run DaemonServer.step
    [.op ⟨.submit { Task.default with taskId := "t" }, fun _ => 1⟩,
      .graphExecuteAsync { taskId := "t" } (answer .go),
      .resume 0 (answer .go), .resume 0 (answer .go), .resume 0 (answer (.returned {}))]
    (DaemonServer.opened true Table.empty [] [] 0 [])).2
  have hrow : (d.world.store.db.tasks.find "t").any (fun r =>
      r.status = .running && r.evidenceRef ≠ [] &&
        d.world.lastEvidence r.evidenceRef = some .completed &&
        r.ownerAgent ≠ executorOwner) = true := by decide
  obtain ⟨r, hr, hmeets⟩ := (Option.any_eq_true _ _).mp hrow
  simp only [Bool.and_eq_true, decide_eq_true_eq, ne_eq] at hmeets
  obtain ⟨⟨⟨hrunning, hlinked⟩, hlast⟩, howner⟩ := hmeets
  refine recovers_of_safe d _ ⟨hr, hrunning, hlinked, hlast, rfl⟩ ?_ ?_ ?_ (.inr howner) ?_
  · simp [Input.isWork]
  · simp [Input.isWork]
  · exact ⟨trivial, trivial⟩
  · have hlisted : ((Start.waiting ⟨true, 0, some fun _ => 2, [.poll "p" fun _ => 2],
        fun _ _ => 3, [.poll "q" fun _ => 4]⟩ d).world.list .running 500 3).1.any
        (fun t => t.taskId = "t") = true := by decide
    obtain ⟨t, ht, hid⟩ := List.any_eq_true.mp hlisted
    exact ⟨t, ht, of_decide_eq_true hid⟩

/-- A task that the executor had claimed is claimed again, after its execution has completed. -/
theorem not_recovers :
    ¬ ∀ (before : List Input) (s : Start) (d : DaemonServer) (id : Str) (r : Row)
      (type : EvidenceType), d = (run DaemonServer.step before
        (DaemonServer.opened true Table.empty [] [] 0 [])).2 → Interrupted d.world id r type →
      (∀ i ∈ s.between, i.isWork = true) → (∀ i ∈ s.after, i.isWork = true) →
      Along DaemonServer.step FreshIds s.between (s.started d) → s.Recovers d id type := by
  intro hall
  let answer (signal : Signal) : Answer := { signal, now := 1, clock := fun _ _ => 1 }
  let before : List Input := [
    .op ⟨.submit { Task.default with taskId := "t", graphId := "g" }, fun _ => 1⟩,
    .poll "p" fun _ => 1, .resume 0 (answer .go), .resume 0 (answer .go),
    .resume 1 (answer .go), .resume 1 (answer .go), .resume 1 (answer (.returned {}))]
  let s : Start := ⟨true, 0, some fun _ => 2, [.poll "q" fun _ => 2], fun _ _ => 3, []⟩
  let d := (run DaemonServer.step before (DaemonServer.opened true Table.empty [] [] 0 [])).2
  have hrow : (d.world.store.db.tasks.find "t").any (fun r =>
      r.status = .running && r.evidenceRef ≠ [] &&
        d.world.lastEvidence r.evidenceRef = some .completed) = true := by decide
  obtain ⟨r, hr, hmeets⟩ := (Option.any_eq_true _ _).mp hrow
  simp only [Bool.and_eq_true, decide_eq_true_eq, ne_eq] at hmeets
  obtain ⟨⟨hrunning, hlinked⟩, hlast⟩ := hmeets
  have hrecovers := hall before s d "t" r .completed rfl
    ⟨hr, hrunning, hlinked, hlast, rfl⟩ (by simp [s, Input.isWork]) (by simp [s])
    ⟨trivial, trivial⟩
  have hclaimed : (s.waiting d).members.any (fun
      | .worker x => x.taskId = "t"
      | _ => false) = true := by decide
  obtain ⟨co, hco, hx⟩ := List.any_eq_true.mp hclaimed
  cases co with
  | worker x =>
    have hid : x.taskId = "t" := of_decide_eq_true hx
    exact hrecovers.1.2 ⟨_, hco, hid⟩
  | _ => exact nomatch hx

end AgentStudio.Daemon

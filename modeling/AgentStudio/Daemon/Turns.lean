import AgentStudio.Daemon.Machine

/-!
# What the coroutines do to the tasks

A turn of a coroutine changes the store by operations on its own task (`Execution.acts`,
`SyncRun.acts`, `AgentRun.acts`, `Worker.acts`); a chain also submits the tasks of its steps
(`ChainRun.acts`). So the invariant of the cache survives every step of the daemon
(`step_cached`), and the statuses of other tasks are left alone.
-/

namespace AgentStudio.Daemon

open PyText PyDict PyJson Tasks Coroutines

/-! ### Executions -/

namespace Execution

variable (x : Execution) (a : Answer) (w : World)

theorem writeBack_acts (e : Ending) (clock : ℕ → ℕ → ℤ) :
    World.Acts (World.On x.taskId) w (x.writeBack e clock w) := by
  unfold writeBack
  split_ifs
  · exact .refl w
  · cases e with
    | completed f =>
      have hartifacts : World.Acts (World.On x.taskId) w _ :=
        (World.Acts.refl w).on_addArtifacts x.artifactIds (clock 0)
      exact (hartifacts.on_updateStatus _ _ _ _).on_call rfl _
    | cancelled | failed => exact (World.Acts.refl w).on_updateStatus _ _ _ _

theorem status_writeBack {w : World} (h : w.store.Cached) (hid : x.taskId ≠ []) (e : Ending)
    (clock : ℕ → ℕ → ℤ) : (x.writeBack e clock w).status x.taskId =
      (w.status x.taskId).map fun _ => e.type.taskStatus := by
  have hset {w : World} (h : w.store.Cached) {status : Status} (hvalid : status.valid = true)
      (result : Option Dict) (c : ℕ → ℤ) :
      (w.updateStatus x.taskId status result [] c).status x.taskId =
        (w.status x.taskId).map fun _ => status :=
    (World.status_call_updateStatus h _ hvalid _ _ _ _ _).trans (if_pos rfl)
  unfold writeBack
  rw [if_neg hid]
  cases e with
  | completed f =>
    have hacts : World.Acts (World.On x.taskId) w _ :=
      (World.Acts.refl w).on_addArtifacts x.artifactIds (clock 0)
    have hartifacts := hacts.cached h
    have hcached : ((w.addArtifacts x.taskId x.artifactIds (clock 0)).updateStatus x.taskId
        .completed (some (x.result f)) [] (clock 1)).store.Cached :=
      World.cached_call hartifacts _ _
    have hvalid : Status.completed.valid = true := rfl
    have hset' := hset hartifacts hvalid (some (x.result f)) (clock 1)
    refine (World.status_call_setEvidence hcached _ _ _ _).trans (hset'.trans ?_)
    rw [World.status_addArtifacts h]
    rfl
  | cancelled | failed => exact hset h rfl _ _

theorem receive_store (e : StreamEvent) (now : ℤ) : (x.receive e now w).2.store = w.store := by
  unfold receive
  dsimp only
  split_ifs <;> rfl

theorem resume_store (h : ∀ e, x.phase ≠ .announcing e) : (x.resume a w).2.store = w.store := by
  unfold resume
  cases hp : x.phase with
  | created =>
    dsimp only
    split_ifs
    · rfl
    · cases a.signal <;> rfl
  | waitingSlot =>
    dsimp only
    split_ifs <;> rfl
  | streaming =>
    dsimp only
    split_ifs
    · rfl
    · cases a.signal with
      | event e => exact x.receive_store w e a.now
      | _ => rfl
  | announcing e => exact absurd hp (h e)
  | done => rfl

theorem acts : World.Acts (World.On x.taskId) w (x.resume a w).2 := by
  cases hp : x.phase with
  | announcing e =>
    unfold resume
    rw [hp]
    dsimp only
    split_ifs
    · cases e <;> exact .of_store_eq rfl
    · exact x.writeBack_acts w e a.clock
  | _ => exact .of_store_eq (x.resume_store a w (by simp [hp]))

theorem resume_ids :
    (x.resume a w).1.executionId = x.executionId ∧ (x.resume a w).1.team = x.team ∧
      (x.resume a w).1.taskId = x.taskId := by
  unfold Execution.resume
  cases x.phase with
  | created | streaming =>
    dsimp only
    split_ifs
    · exact ⟨rfl, rfl, rfl⟩
    · cases a.signal <;> exact ⟨rfl, rfl, rfl⟩
  | waitingSlot =>
    dsimp only
    split_ifs <;> exact ⟨rfl, rfl, rfl⟩
  | announcing e =>
    dsimp only
    split_ifs
    · cases e <;> exact ⟨rfl, rfl, rfl⟩
    · exact ⟨rfl, rfl, rfl⟩
  | done => exact ⟨rfl, rfl, rfl⟩

theorem evidence_writeBack (e : Ending) (clock : ℕ → ℕ → ℤ) (path : Str) :
    (x.writeBack e clock w).evidence path = w.evidence path := by
  unfold writeBack
  split_ifs
  · rfl
  · cases e with
    | completed f =>
      dsimp only [World.updateStatus, World.addArtifacts]
      split_ifs <;> rfl
    | _ => rfl

theorem receive_world (e : StreamEvent) (now : ℤ) (w : World) :
    (x.receive e now w).2 = w ∨ ∃ r : Evidence, r.type = .progress ∧
      (x.receive e now w).2 = w.writeEvidence x.path r := by
  by_cases hfifth : (x.events ++ [e]).length % 5 = 0
  · exact .inr ⟨_, rfl, if_pos hfifth⟩
  · exact .inl (if_neg hfifth)

end Execution

theorem evidence_link (x : Execution) (clock : ℕ → ℕ → ℤ) (w : World) (path : Str) :
    (x.link clock w).evidence path = w.evidence path := by
  unfold Execution.link
  split_ifs <;> rfl

theorem Execution.link_acts (x : Execution) (w : World) (clock : ℕ → ℕ → ℤ) :
    World.Acts (World.On x.taskId) w (x.link clock w) := by
  unfold link
  split_ifs
  · exact .refl w
  · exact ((World.Acts.refl w).on_updateStatus _ _ _ _).on_call rfl _

theorem startExecution_acts (p : ExecuteParams) (a : Answer) (w : World) :
    World.Acts (World.On p.taskId) w (startExecution p a w).2 := by
  unfold startExecution
  split_ifs
  · exact .refl w
  · exact .refl w
  · exact (newExecution p a).link_acts _ a.clock

/-! ### Other runs -/

theorem SyncRun.writeBack_acts (x : SyncRun) (f : Finished) (a : Answer) (w : World) :
    World.Acts (World.On x.taskId) w (x.writeBack f a w) := by
  unfold writeBack
  split_ifs
  · exact .refl w
  · exact ((World.Acts.refl w).on_addArtifacts _ _).on_updateStatus _ _ _ _

theorem SyncRun.acts (x : SyncRun) (a : Answer) (w : World) :
    World.Acts (World.On x.taskId) w (x.resume a w).2 := by
  unfold resume
  cases x.phase with
  | streaming =>
    cases a.signal with
    | returned f => exact x.writeBack_acts f a w
    | _ => exact .refl w
  | _ => exact .refl w

theorem AgentRun.acts (x : AgentRun) (a : Answer) (w : World) :
    World.Acts (World.On x.taskId) w (x.resume a w).2 := by
  unfold resume
  split_ifs
  · exact .refl w
  · cases a.signal with
    | report ok result error => cases ok <;> exact (World.Acts.refl w).on_updateStatus _ _ _ _
    | raised text => exact (World.Acts.refl w).on_updateStatus _ _ _ _
    | _ => exact .refl w

/-! ### Workers -/

theorem World.get_acts {ok : Call → Prop} (w : World) (taskId : Str)
    (h : ok ⟨.get taskId, fun _ => 0⟩) : World.Acts ok w (w.get taskId).2 :=
  ⟨[⟨.get taskId, fun _ => 0⟩], by simpa using h, rfl⟩

namespace Worker

variable (x : Worker) (a : Answer) (w : World)

theorem finalize_acts : World.Acts (World.On x.taskId) w (x.finalize w).2 := by
  have hget : World.Acts (World.On x.taskId) w (w.get x.taskId).2 := w.get_acts _ rfl
  unfold finalize
  split <;> next heq => rw [heq] at hget; exact hget

theorem await_acts : World.Acts (World.On x.taskId) w (x.await w).2 := by
  have hget : World.Acts (World.On x.taskId) w (w.get x.taskId).2 := w.get_acts _ rfl
  unfold await
  split <;> next heq =>
    rw [heq] at hget
    first
    | exact hget.trans (x.finalize_acts _)
    | split_ifs
      · exact hget.trans (x.finalize_acts _)
      · exact hget

theorem dispatch_acts (t : Task) : World.Acts (World.On x.taskId) w (x.dispatch t a w).2.2 := by
  unfold dispatch
  split_ifs
  · dsimp only
    unfold executeAgent
    split_ifs
    · exact (World.Acts.refl w).on_updateStatus _ _ _ _
    · cases a.signal with
      | report ok result error => cases ok <;> exact (World.Acts.refl w).on_updateStatus _ _ _ _
      | _ => exact (World.Acts.refl w).on_updateStatus _ _ _ _
  · dsimp only
    have hstart := startExecution_acts { graphId := t.graphId, taskId := x.taskId } a w
    unfold executeGraph
    split <;> next heq =>
      rw [heq] at hstart
      first
      | exact hstart
      | exact World.Acts.and_call hstart rfl
  · exact (World.Acts.refl w).on_updateStatus _ _ _ _

theorem requeue_acts (t : Task) : World.Acts (World.On x.taskId) w (x.requeue t a w) := by
  unfold requeue
  split_ifs
  · exact (World.Acts.refl w).on_call rfl _
  · exact .refl w

theorem acts : World.Acts (World.On x.taskId) w (x.resume a w).2.2.2 := by
  have hget : World.Acts (World.On x.taskId) w (w.get x.taskId).2 := w.get_acts _ rfl
  unfold resume
  cases x.phase with
  | created =>
    dsimp only
    split <;> next heq =>
      rw [heq] at hget
      first
      | exact hget
      | split_ifs <;> exact hget
  | announcing t => exact (x.dispatch_acts a w t).trans (x.await_acts _)
  | awaiting =>
    dsimp only
    cases a.signal with
    | capped => exact x.finalize_acts w
    | _ => exact x.await_acts w
  | finalizing t => exact x.requeue_acts a w t
  | done => exact .refl w

theorem finalize_taskId : (x.finalize w).1.taskId = x.taskId := by
  unfold finalize
  split <;> rfl

theorem await_taskId : (x.await w).1.taskId = x.taskId := by
  unfold await
  split
  · exact x.finalize_taskId _
  · split_ifs
    · exact x.finalize_taskId _
    · rfl

theorem resume_taskId : (x.resume a w).1.taskId = x.taskId := by
  unfold resume
  cases x.phase with
  | created =>
    dsimp only
    split
    · split_ifs <;> rfl
    · rfl
  | announcing t => exact x.await_taskId _
  | awaiting =>
    dsimp only
    cases a.signal with
    | capped => exact x.finalize_taskId w
    | _ => exact x.await_taskId w
  | _ => rfl

end Worker

/-! ### Chains -/

namespace ChainRun

/-- An operation of a chain: on one of its tasks, or the submission of one. -/
def Own (c : ChainRun) (k : Call) : Prop :=
  (∃ id ∈ c.taskIds, World.On id k) ∨ ∃ idx step, k.op = .submit (c.taskOf idx step)

variable (c : ChainRun) (a : Answer) (w : World)

private theorem acts_updateStatus {idx : ℕ} {taskId : Str} (h : c.taskIds[idx]? = some taskId)
    (status : Status) (lastResult : Option Dict) (lastError : Str) (retryCount : Option ℤ)
    (clock : ℕ → ℤ) : World.Acts c.Own w
      (w.call (.updateStatus taskId status lastResult lastError retryCount) clock) :=
  .call (.inl ⟨taskId, List.mem_of_getElem? h, rfl⟩)

theorem enter_acts (idx : ℕ) : World.Acts c.Own w (c.enter idx a w).2 := by
  unfold enter
  cases c.steps[idx]? with
  | none => exact .refl w
  | some step =>
    cases hid : c.taskIds[idx]? with
    | none => exact .refl w
    | some taskId =>
      dsimp only
      split_ifs <;> exact c.acts_updateStatus w hid _ _ _ _ _

theorem retry_acts {idx : ℕ} {taskId : Str} (h : c.taskIds[idx]? = some taskId) (step : ChainStep)
    (n : ℕ) (error : Str) : World.Acts c.Own w (c.retry step taskId idx n error a w).2 := by
  have hfailed := c.acts_updateStatus w h .failed none (error.take 500) (some n) (a.clock 0)
  unfold retry
  dsimp only
  split_ifs <;> exact hfailed.trans (c.acts_updateStatus _ h _ _ _ _ _)

theorem acts : World.Acts c.Own w (c.resume a w).2 := by
  unfold resume
  cases c.phase with
  | submitting =>
    dsimp only
    cases c.steps[c.taskIds.length]? with
    | none => exact c.enter_acts a w 0
    | some step =>
      refine ⟨[⟨.submit (c.taskOf c.taskIds.length step), a.clock 0⟩], fun k hk => ?_, rfl⟩
      exact .inr ⟨_, _, by rw [List.mem_singleton.mp hk]⟩
  | streaming idx n =>
    dsimp only
    cases c.steps[idx]? with
    | none => exact .refl w
    | some step =>
      cases hid : c.taskIds[idx]? with
      | none => exact .refl w
      | some taskId =>
        cases a.signal with
        | returned f =>
          have hdone := c.acts_updateStatus w hid .completed (some (c.result idx n a.outputs)) []
            none (a.clock 0)
          exact hdone.trans ({ c with completed := c.completed ++ [idx] }.enter_acts a _ (idx + 1))
        | raised text => exact c.retry_acts a w hid step n text
        | _ => exact .refl w
  | _ => exact .refl w

theorem taskIds_resume :
    (c.resume a w).1.taskIds = c.taskIds ∨
      ∃ step, c.phase = .submitting ∧ c.steps[c.taskIds.length]? = some step ∧
        (c.resume a w).1.taskIds = c.taskIds ++
          [(w.store.submit (c.taskOf c.taskIds.length step) (a.clock 0)).1.taskId] := by
  have henter (c : ChainRun) (idx : ℕ) (w : World) : (c.enter idx a w).1.taskIds = c.taskIds := by
    unfold enter
    cases c.steps[idx]? with
    | none => rfl
    | some step =>
      cases c.taskIds[idx]? with
      | none => rfl
      | some taskId =>
        dsimp only
        split_ifs <;> rfl
  unfold ChainRun.resume
  cases hphase : c.phase with
  | submitting =>
    dsimp only
    cases c.steps[c.taskIds.length]? with
    | none => exact .inl (henter c 0 w)
    | some step => exact .inr ⟨step, rfl, rfl, rfl⟩
  | streaming idx n =>
    refine .inl ?_
    dsimp only
    cases c.steps[idx]? with
    | none => rfl
    | some step =>
      cases c.taskIds[idx]? with
      | none => rfl
      | some taskId =>
        cases a.signal with
        | returned f => exact henter { c with completed := c.completed ++ [idx] } (idx + 1) _
        | raised text =>
          dsimp only
          unfold retry
          dsimp only
          split_ifs <;> rfl
        | _ => rfl
  | _ => exact .inl rfl

end ChainRun

/-! ### The coroutines after a step -/

def Coroutine.isRun : Coroutine → Bool
  | .execution _ | .sync _ | .agent _ => true
  | .chain _ | .worker _ => false

variable {d : DaemonServer} {co : Coroutine}

private theorem mem_spawn_run {w : World} {run : Coroutine}
    (h : co ∈ (Pool.spawn { d with world := w } run).members) (hco : co.isRun = false)
    (hrun : run.isRun = true) : co ∈ d.members := by
  rcases mem_snoc.mp h with h | rfl
  · exact h
  · rw [hrun] at hco
    exact nomatch hco

private theorem mem_modifyActive {id : Str} {f : Execution → Execution}
    (h : co ∈ (d.modifyActive id f).members) (hco : co.isRun = false) : co ∈ d.members := by
  obtain ⟨co', hco', rfl⟩ := List.mem_map.mp h
  cases co' with
  | execution x =>
    simp only [Coroutine.modifyActive] at hco
    split_ifs at hco <;> exact nomatch hco
  | _ => exact hco'

/-- After a step a chain or a worker is one from before, has taken a turn, is a chain that is
started, or the worker for a task that was claimed. -/
theorem mem_step {i : Input} (h : co ∈ (d.step i).2.members) (hco : co.isRun = false) :
    co ∈ d.members ∨
      (∃ n a p, i = .resume n a ∧ d.members[n]? = some p ∧ co = (p.turn a d.world).self) ∨
      (∃ c, co = .chain c ∧ c.taskIds = [] ∧ c.phase = .submitting) ∨
      ∃ token clock t, i = .poll token clock ∧ (d.world.poll token clock).1 = some t ∧
        co = .worker { taskId := t.taskId } := by
  cases i with
  | graphExecuteAsync p a =>
    change co ∈ (DaemonServer.graphExecuteAsync d p a).2.members at h
    unfold DaemonServer.graphExecuteAsync at h
    cases hstart : startExecution p a d.world with
    | mk result w =>
      rw [hstart] at h
      cases result with
      | error text => exact .inl h
      | ok x => exact .inl (mem_spawn_run h hco rfl)
  | graphStatus id team =>
    change co ∈ (DaemonServer.graphStatus d id team).2.members at h
    unfold DaemonServer.graphStatus at h
    cases hactive : d.active id with
    | none =>
      rw [hactive] at h
      split_ifs at h <;> exact .inl h
    | some x =>
      rw [hactive] at h
      dsimp only at h
      split_ifs at h
      · exact .inl h
      · exact .inl h
      · exact .inl (mem_modifyActive h hco)
      · exact .inl h
  | graphCancel id =>
    change co ∈ (DaemonServer.graphCancel d id).2.members at h
    unfold DaemonServer.graphCancel at h
    cases hactive : d.active id with
    | none =>
      rw [hactive] at h
      split_ifs at h <;> exact .inl h
    | some x =>
      rw [hactive] at h
      split_ifs at h
      · exact .inl h
      · exact .inl (mem_modifyActive h hco)
  | graphExecute p a =>
    change co ∈ (DaemonServer.graphExecute d p a).2.members at h
    unfold DaemonServer.graphExecute at h
    split_ifs at h
    · exact .inl h
    · exact .inl (mem_spawn_run h hco rfl)
    · exact .inl (mem_spawn_run h hco rfl)
  | taskRunChain team idempotencyPrefix steps newId =>
    change co ∈ (DaemonServer.taskRunChain d team idempotencyPrefix steps newId).2.members at h
    unfold DaemonServer.taskRunChain at h
    split_ifs at h
    · exact .inl h
    · rcases List.mem_append.mp h with h | h
      · exact .inl h
      · exact .inr (.inr (.inl ⟨_, List.mem_singleton.mp h, rfl, rfl⟩))
  | poll token clock =>
    change co ∈ (DaemonServer.poll d token clock).members at h
    unfold DaemonServer.poll at h
    cases hpoll : d.world.poll token clock with
    | mk result w =>
      rw [hpoll] at h
      cases result with
      | none => exact .inl h
      | some t =>
        rcases List.mem_append.mp h with h | h
        · exact .inl h
        · exact .inr (.inr (.inr
            ⟨token, clock, t, rfl, congrArg Prod.fst hpoll, List.mem_singleton.mp h⟩))
  | resume n a =>
    rcases Pool.mem_resume h with h | ⟨p, hp, h | h⟩
    · exact .inl h
    · exact .inr (.inl ⟨n, a, p, rfl, hp, h⟩)
    · cases p with
      | worker x =>
        rcases List.mem_append.mp h with h | h <;>
          obtain ⟨y, -, rfl⟩ := List.mem_map.mp h <;> exact nomatch hco
      | _ => exact absurd h List.not_mem_nil
  | crash lazyLoad ttl => exact absurd h List.not_mem_nil
  | _ => exact .inl h

/-! ### What a claim and a turn leave alone -/

theorem World.poll_besides {w : World} (h : w.store.Cached) {id : Str}
    (hid : ∀ r, w.store.db.tasks.find id = some r → r.status ≠ .pending) (token : Str)
    (clock : ℕ → ℤ) :
    World.SameRow w (w.poll token clock).2 id ∧
      ∀ t, (w.poll token clock).1 = some t → t.taskId ≠ id := by
  have hne {r : Row} (hc : w.store.db.candidate (orDefault "default" "*") = some r) :
      r ∈ w.store.db.tasks.rows ∧ r.status = .pending ∧ id ≠ r.taskId := by
    obtain ⟨hr, hpending⟩ := Store.pending_of_candidate hc
    exact ⟨hr, hpending, fun heq => hid r (heq ▸ Table.find_of_mem hr) hpending⟩
  have hdequeue : World.SameRow w
      { w with store := (w.store.dequeue "*" executorOwner token clock).2 } id ∧
      ∀ t, (w.store.dequeue "*" executorOwner token clock).1 = some t → t.taskId ≠ id := by
    rcases h.dequeue_cases "*" executorOwner token clock with ⟨-, heq⟩ | ⟨r, -, hc,
      ⟨-, heq⟩ | ⟨-, t, s', hs, htr, ⟨-, heq⟩ | ⟨-, heq⟩⟩⟩ <;> rw [heq] <;> dsimp only
    · exact ⟨⟨rfl, rfl⟩, fun t ht => nomatch ht⟩
    · obtain ⟨hr, hpending, hk⟩ := hne hc
      refine ⟨⟨?_, ?_⟩, fun t ht => nomatch ht⟩
      · exact (Store.find_claim hr hpending _ _ _ id).trans (if_neg hk)
      · exact (Store.sees_claim _ r _ _ _ id).trans (by simp [hk])
    · obtain ⟨hr, hpending, hk⟩ := hne hc
      refine ⟨⟨?_, ?_⟩, fun u hu => ?_⟩
      · exact (congrArg (·.tasks.find id) hs.db).trans
          ((Store.find_claim hr hpending _ _ _ id).trans (if_neg hk))
      · exact (hs.sees id).trans ((Store.sees_claim _ r _ _ _ id).trans (by simp [hk]))
      · rw [← Option.some.inj hu]
        exact fun hid => hk (hid.symm.trans (congrArg Record.taskId htr))
    · obtain ⟨hr, hpending, hk⟩ := hne hc
      refine ⟨⟨?_, ?_⟩, fun t ht => nomatch ht⟩
      · exact (Store.find_revert hr hpending hs id).trans (if_neg hk)
      · refine (Store.sees_revert s' r.taskId _ id).trans ?_
        rw [hs.sees, Store.sees_claim]
        simp [hk]
  unfold World.poll
  split_ifs
  · exact hdequeue
  · exact ⟨⟨rfl, rfl⟩, fun t ht => nomatch ht⟩

theorem World.files_poll (w : World) (token : Str) (clock : ℕ → ℤ) :
    (w.poll token clock).2.files = w.files := by
  unfold World.poll
  split_ifs <;> rfl

def Coroutine.RunsTask (taskId : Str) : Coroutine → Prop
  | .execution x => x.taskId = taskId
  | .sync x => x.taskId = taskId
  | .agent x => x.taskId = taskId
  | .chain c => taskId ∈ c.taskIds
  | .worker x => x.taskId = taskId

instance (taskId : Str) : DecidablePred (Coroutine.RunsTask taskId)
  | .execution x => inferInstanceAs (Decidable (x.taskId = taskId))
  | .sync x => inferInstanceAs (Decidable (x.taskId = taskId))
  | .agent x => inferInstanceAs (Decidable (x.taskId = taskId))
  | .chain c => inferInstanceAs (Decidable (taskId ∈ c.taskIds))
  | .worker x => inferInstanceAs (Decidable (x.taskId = taskId))

theorem SyncRun.resume_taskId (x : SyncRun) (a : Answer) (w : World) :
    (x.resume a w).1.taskId = x.taskId := by
  unfold resume
  cases x.phase with
  | streaming => cases a.signal <;> rfl
  | _ => rfl

theorem AgentRun.resume_taskId (x : AgentRun) (a : Answer) (w : World) :
    (x.resume a w).1.taskId = x.taskId := by
  unfold resume
  split_ifs
  · rfl
  · cases a.signal with
    | report ok result error => cases ok <;> rfl
    | _ => rfl

theorem Coroutine.runsTask_self (hchain : ∀ c, co ≠ .chain c) (a : Answer) (w : World) (id : Str) :
    (co.turn a w).self.RunsTask id ↔ co.RunsTask id := by
  cases co with
  | execution x => exact iff_of_eq (congrArg (· = id) (x.resume_ids a w).2.2)
  | sync x | agent x | worker x => exact iff_of_eq (congrArg (· = id) (x.resume_taskId a w))
  | chain c => exact absurd rfl (hchain c)

theorem startExecution_ok {p : ExecuteParams} {a : Answer} {w w' : World} {x : Execution}
    (h : startExecution p a w = (.ok x, w')) : x = newExecution p a := by
  unfold startExecution at h
  split_ifs at h
  · exact nomatch congrArg Prod.fst h
  · exact nomatch congrArg Prod.fst h
  · exact (Except.ok.inj (congrArg Prod.fst h)).symm

theorem Worker.dispatch_spawned (x : Worker) (t : Task) (a : Answer) (w : World) :
    (∀ y ∈ (x.dispatch t a w).1, y.taskId = x.taskId) ∧
      ∀ y ∈ (x.dispatch t a w).2.1, y.taskId = x.taskId ∧
        y.path = evidencePath ("exec_" ++ a.newId) "default" := by
  unfold dispatch
  split_ifs
  · refine ⟨fun y hy => ?_, nofun⟩
    dsimp only at hy
    unfold executeAgent at hy
    split_ifs at hy
    · exact nomatch hy
    · cases hsignal : a.signal with
      | raised text => rw [hsignal] at hy; exact nomatch hy
      | report ok result error =>
        rw [hsignal] at hy
        cases ok with
        | false => exact nomatch hy
        | true => rw [List.mem_singleton.mp hy]
      | _ => rw [hsignal] at hy; rw [List.mem_singleton.mp hy]
  · refine ⟨nofun, fun y hy => ?_⟩
    dsimp only at hy
    unfold executeGraph at hy
    split at hy
    · exact nomatch hy
    · next hstart =>
      rw [List.mem_singleton.mp hy, startExecution_ok hstart]
      exact ⟨rfl, rfl⟩
  · exact ⟨nofun, nofun⟩

theorem Coroutine.spawned {q : Coroutine} {a : Answer} {w : World}
    (hq : q ∈ (co.turn a w).spawned) :
    ∃ x t, co = .worker x ∧ x.phase = .announcing t ∧
      ((∃ y, q = .agent y ∧ y.taskId = x.taskId) ∨
        ∃ y, q = .execution y ∧ y.taskId = x.taskId ∧
          y.path = evidencePath ("exec_" ++ a.newId) "default") := by
  cases co with
  | worker x =>
    have hq : q ∈ (x.resume a w).2.1.map .agent ++ (x.resume a w).2.2.1.map .execution := hq
    unfold Worker.resume at hq
    cases hphase : x.phase with
    | announcing t =>
      rw [hphase] at hq
      obtain ⟨hagents, hexecutions⟩ := x.dispatch_spawned t a w
      refine ⟨x, t, rfl, hphase, ?_⟩
      rcases List.mem_append.mp hq with hq | hq <;> obtain ⟨y, hy, rfl⟩ := List.mem_map.mp hq
      · exact .inl ⟨y, rfl, hagents y hy⟩
      · exact .inr ⟨y, rfl, hexecutions y hy⟩
    | created =>
      rw [hphase] at hq
      dsimp only at hq
      split at hq
      · split_ifs at hq <;> exact nomatch hq
      · exact nomatch hq
    | _ => rw [hphase] at hq; exact nomatch hq
  | _ => exact nomatch hq

/-! ### The invariant of the cache -/

theorem cached_turn (a : Answer) (co : Coroutine) {w : World} (h : w.store.Cached) :
    (co.turn a w).world.store.Cached := by
  cases co with
  | execution x | sync x | agent x | worker x => exact (x.acts a w).cached h
  | chain c => exact (c.acts a w).cached h

theorem World.cached_list {w : World} (h : w.store.Cached) (status : Status) (limit : ℕ)
    (now : ℤ) : (w.list status limit now).2.store.Cached := h.deleteIds _

theorem World.reconcileTask_acts (w : World) (t : Task) (clock : ℕ → ℤ) :
    World.Acts (World.On t.taskId) w (w.reconcileTask t clock) := by
  unfold reconcileTask
  dsimp only
  split
  · exact (World.Acts.refl w).on_call rfl _
  · split <;> exact (World.Acts.refl w).on_updateStatus _ _ _ _

theorem World.cached_reconcile {w : World} (h : w.store.Cached) (clock : ℕ → ℕ → ℤ) :
    (w.reconcile clock).store.Cached := by
  have hfold (ts : List (Task × ℕ)) {w : World} (h : w.store.Cached) :
      (ts.foldl (fun w t => w.reconcileTask t.1 (clock t.2)) w).store.Cached := by
    induction ts generalizing w with
    | nil => exact h
    | cons t ts ih => exact ih ((w.reconcileTask_acts t.1 (clock t.2)).cached h)
  exact hfold _ (World.cached_list h _ _ _)

/-- **Every step of the daemon keeps the invariant of the cache.** -/
theorem step_cached (h : d.world.store.Cached) (i : Input) : (d.step i).2.world.store.Cached := by
  cases i with
  | op c => exact h.step c
  | graphExecuteAsync p a =>
    have hstart := (startExecution_acts p a d.world).cached h
    change (DaemonServer.graphExecuteAsync d p a).2.world.store.Cached
    unfold DaemonServer.graphExecuteAsync
    split <;> next heq => rw [heq] at hstart; first | exact h | exact hstart
  | graphStatus executionId team =>
    have hworld : (d.graphStatus executionId team).2.world = d.world := by
      unfold DaemonServer.graphStatus
      cases d.active executionId with
      | none => split_ifs <;> rfl
      | some x =>
        dsimp only
        split_ifs <;> rfl
    change (DaemonServer.graphStatus d executionId team).2.world.store.Cached
    rwa [hworld]
  | graphCancel executionId =>
    have hworld : (d.graphCancel executionId).2.world = d.world := by
      unfold DaemonServer.graphCancel
      cases d.active executionId <;> split_ifs <;> rfl
    change (DaemonServer.graphCancel d executionId).2.world.store.Cached
    rwa [hworld]
  | graphExecute p a =>
    change (DaemonServer.graphExecute d p a).2.world.store.Cached
    unfold DaemonServer.graphExecute
    split_ifs
    · exact h
    · exact h
    · exact h.step _
  | taskRunChain team idempotencyPrefix steps newId =>
    change (DaemonServer.taskRunChain d team idempotencyPrefix steps newId).2.world.store.Cached
    unfold DaemonServer.taskRunChain
    split_ifs <;> exact h
  | poll token clock =>
    have hpoll : (d.world.poll token clock).2.store.Cached := by
      unfold World.poll
      split_ifs
      · exact h.dequeue _ _ _ _
      · exact h
    change (DaemonServer.poll d token clock).world.store.Cached
    unfold DaemonServer.poll
    split <;> next heq => rw [heq] at hpoll; exact hpoll
  | resume n a =>
    change (Pool.resume Coroutine.turn n a d).world.store.Cached
    cases hn : d.members[n]? with
    | none => rwa [Pool.resume_of_none hn]
    | some co =>
      rw [Pool.resume_of_some hn]
      exact cached_turn a co h
  | crash lazyLoad ttl => exact Store.cached_open _ _ _ _ _
  | startExecutor clock => exact h.step _
  | reconcile clock => exact World.cached_reconcile h clock

end AgentStudio.Daemon

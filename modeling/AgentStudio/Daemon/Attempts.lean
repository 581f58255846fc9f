import AgentStudio.Daemon.Turns
import AgentStudio.Tasks.Owners

/-!
# The attempts of the executor

What the executor does to the rows of the store, in terms of `Tasks.Store.Tame` and
`Tasks.Store.Writes`: a poll claims one row (`World.poll_spec`), and a turn of a worker is tame, but
for the retry at its end (`Worker.resume_spec`). A worker is `waiting` until it dispatches its task,
and it starts an execution at most then (`Worker.waiting_of_starts`, `Worker.waiting_of_resume`).
-/

namespace AgentStudio.Daemon

open PyText PyDict PyJson Tasks Tasks.Store

variable {w : World}

/-! ### What runs write -/

theorem World.tame_updateStatus (h : w.store.Cached) (id : Str) {status : Status}
    (hne : status ≠ .pending) (lastResult : Option Dict) (lastError : Str) (clock : ℕ → ℤ) :
    Tame w.store (w.updateStatus id status lastResult lastError clock).store :=
  Cached.tame_updateStatus h id hne lastResult lastError clock

theorem World.tame_get (h : w.store.Cached) (id : Str) : Tame w.store (w.get id).2.store :=
  Cached.tame_getTask h id

theorem startExecution_tame (h : w.store.Cached) (p : ExecuteParams) (a : Answer) :
    Tame w.store (startExecution p a w).2.store := by
  unfold startExecution
  split_ifs
  · exact .refl h
  · exact .refl h
  · dsimp only
    unfold Execution.link
    split_ifs
    · exact .refl h
    · have hstatus : Tame w.store ((w.writeEvidence (newExecution p a).path
          ((newExecution p a).startRecord a.now)).updateStatus (newExecution p a).taskId .running
            none [] (a.clock 0)).store :=
        Cached.tame_updateStatus h _ (by decide) none [] _
      exact hstatus.trans (hstatus.cached.tame_setEvidence _ _ _)

theorem startExecution_running (h : w.store.Cached) {p : ExecuteParams} {a : Answer} {x : Execution}
    {w' : World} (hstart : startExecution p a w = (.ok x, w')) (hid : p.taskId ≠ [])
    (hsees : w.store.sees p.taskId = true) {r : Row}
    (hr : w'.store.db.tasks.find p.taskId = some r) : r.status ≠ .pending := by
  unfold startExecution at hstart
  split_ifs at hstart
  · exact nomatch congrArg Prod.fst hstart
  · exact nomatch congrArg Prod.fst hstart
  · have hworld : (newExecution p a).link a.clock (w.writeEvidence (newExecution p a).path
        ((newExecution p a).startRecord a.now)) = w' := congrArg Prod.snd hstart
    have hlinked : (newExecution p a).taskId ≠ [] := hid
    rw [← hworld, Execution.link, if_neg hlinked] at hr
    have hstatus : Tame w.store
        (w.store.updateStatus p.taskId .running none [] none (a.clock 0)).2 :=
      Cached.tame_updateStatus h _ (by decide) none [] _
    obtain ⟨r', hr', hfollows⟩ :=
      (hstatus.cached.tame_setEvidence p.taskId _ (a.clock 1)).row _ _ hr
    have hrunning := Cached.status_of_updateStatus h hsees rfl hr'
    intro hpending
    exact absurd (hrunning.symm.trans (hfollows.pending hpending)) (by decide)

/-! ### Workers -/

namespace Worker

variable (x : Worker)

def waiting : Bool :=
  match x.phase with
  | .created => true
  | .announcing _ => true
  | _ => false

theorem finalize_tame (h : w.store.Cached) : Tame w.store (x.finalize w).2.store := by
  have hget := World.tame_get h x.taskId
  unfold finalize
  split <;> next heq => rw [heq] at hget; exact hget

theorem finalize_waiting : (x.finalize w).1.waiting = false := by
  unfold finalize
  split <;> rfl

theorem await_tame (h : w.store.Cached) : Tame w.store (x.await w).2.store := by
  have hget := World.tame_get h x.taskId
  unfold await
  split <;> next heq =>
    rw [heq] at hget
    first
    | exact hget.trans (x.finalize_tame hget.cached)
    | split_ifs
      · exact hget.trans (x.finalize_tame hget.cached)
      · exact hget

theorem await_waiting : (x.await w).1.waiting = false := by
  unfold await
  split
  · exact x.finalize_waiting
  · split_ifs
    · exact x.finalize_waiting
    · rfl

theorem dispatch_tame (h : w.store.Cached) (t : Task) (a : Answer) :
    Tame w.store (x.dispatch t a w).2.2.store := by
  have hfailed {w : World} (h : w.store.Cached) (error : Str) :
      Tame w.store (x.undispatched error a w).store :=
    World.tame_updateStatus h _ (by decide) none error _
  unfold dispatch
  split_ifs
  · dsimp only
    unfold executeAgent
    split_ifs
    · exact hfailed h _
    · have hrunning := World.tame_updateStatus h x.taskId
        (show Status.running ≠ .pending by decide) none [] (a.clock 0)
      cases a.signal with
      | report ok result error =>
        cases ok with
        | true => exact hrunning
        | false => exact hfailed h _
      | raised text => exact hfailed h _
      | _ => exact hrunning
  · dsimp only
    have hstart := startExecution_tame h { graphId := t.graphId, taskId := x.taskId } a
    unfold executeGraph
    split <;> next heq =>
      rw [heq] at hstart
      first
      | exact hstart
      | exact hstart.trans (hfailed hstart.cached _)
  · exact hfailed h _

/-- **A turn.** It is tame, or it is the retry of the task. -/
theorem resume_spec (h : w.store.Cached) (a : Answer) :
    Tame w.store (x.resume a w).2.2.2.store ∨
      ∃ r r', w.store.db.tasks.find x.taskId = some r ∧ r'.idempotencyKey = r.idempotencyKey ∧
        r'.retryCount = r.retryCount + 1 ∧
        Writes x.taskId r' w.store (x.resume a w).2.2.2.store := by
  unfold resume
  cases x.phase with
  | created =>
    have hget := World.tame_get h x.taskId
    refine .inl ?_
    dsimp only
    split <;> next heq =>
      rw [heq] at hget
      first
      | exact hget
      | split_ifs <;> exact hget
  | announcing t =>
    have hdispatch := x.dispatch_tame h t a
    exact .inl (hdispatch.trans (x.await_tame hdispatch.cached))
  | awaiting =>
    refine .inl ?_
    dsimp only
    cases a.signal with
    | capped => exact x.finalize_tame h
    | _ => exact x.await_tame h
  | finalizing t =>
    dsimp only
    unfold requeue
    split_ifs
    · exact Cached.requeue_spec h _ _ _ _
    · exact .inl (.refl h)
  | done => exact .inl (.refl h)

theorem waiting_of_resume {a : Answer} (h : (x.resume a w).1.waiting = true) :
    x.waiting = true := by
  unfold waiting
  unfold resume at h
  cases hphase : x.phase with
  | created => rfl
  | announcing t => rfl
  | awaiting =>
    rw [hphase] at h
    dsimp only at h
    cases hsignal : a.signal <;> rw [hsignal] at h <;>
      first
      | exact absurd h (by rw [x.finalize_waiting]; decide)
      | exact absurd h (by rw [x.await_waiting]; decide)
  | finalizing t =>
    rw [hphase] at h
    exact h
  | done =>
    rw [hphase] at h
    simpa only [waiting, hphase] using h

theorem waiting_of_starts {a : Answer}
    (h : ¬ ((x.resume a w).2.1 = [] ∧ (x.resume a w).2.2.1 = [])) :
    x.waiting = true ∧ (x.resume a w).1.waiting = false := by
  unfold resume at h ⊢
  cases hphase : x.phase with
  | announcing t =>
    refine ⟨by rw [waiting, hphase], ?_⟩
    exact x.await_waiting
  | created =>
    rw [hphase] at h
    dsimp only at h
    split at h
    · split_ifs at h <;> exact absurd ⟨rfl, rfl⟩ h
    · exact absurd ⟨rfl, rfl⟩ h
  | _ =>
    rw [hphase] at h
    exact absurd ⟨rfl, rfl⟩ h

end Worker

/-! ### Polls -/

/-- **A poll.** It is tame and claims nothing, or it claims the first claimable row. -/
theorem World.poll_spec (h : w.store.Cached) (token : Str) (clock : ℕ → ℤ) :
    (Tame w.store (w.poll token clock).2.store ∧ (w.poll token clock).1 = none ∧
        ∀ r r', w.hasPending = true → w.store.db.candidate "*" = some r →
          (w.poll token clock).2.store.db.tasks.find r.taskId = some r' → r'.ownerAgent = []) ∨
      w.hasPending = true ∧ ∃ r r', w.store.db.candidate "*" = some r ∧
        r'.idempotencyKey = r.idempotencyKey ∧ r'.retryCount = r.retryCount ∧
        r'.status = .running ∧ r'.ownerAgent = executorOwner ∧
        (w.poll token clock).2.store.db.tasks.find r.taskId = some r' ∧
        Writes r.taskId r' w.store (w.poll token clock).2.store ∧
        ∀ t, (w.poll token clock).1 = some t →
          t.taskId = r.taskId ∧ t.retryCount = r.retryCount := by
  by_cases hpending : w.hasPending = true
  · have hpoll : w.poll token clock =
        ((w.store.dequeue "*" executorOwner token clock).1,
          { w with store := (w.store.dequeue "*" executorOwner token clock).2 }) :=
      if_pos hpending
    have hteam : orDefault "default" "*" = "*" := rfl
    rw [hpoll]
    rcases Cached.dequeue_spec h (show executorOwner ≠ [] by decide) "*" token clock with
      ⟨hc, heq⟩ | ⟨r, hc, ⟨hwrites, hfind, htask⟩ | ⟨htame, hfind, hnone⟩⟩
    · rw [hteam] at hc
      rw [heq]
      exact .inl ⟨.refl h, rfl, fun r _ _ hr => absurd (hc.symm.trans hr) nofun⟩
    · rw [hteam] at hc
      exact .inr ⟨hpending, r, claimed executorOwner token clock r, hc, rfl, rfl, rfl, rfl, hfind,
        hwrites, htask⟩
    · rw [hteam] at hc
      refine .inl ⟨htame, hnone, fun x r' _ hx hr' => ?_⟩
      obtain rfl := Option.some.inj (hc.symm.trans hx)
      rw [← Option.some.inj (hfind.symm.trans hr')]
      rfl
  · have hpoll : w.poll token clock = (none, w) := if_neg hpending
    rw [hpoll]
    exact .inl ⟨.refl h, rfl, fun _ _ hp => absurd hp hpending⟩

end AgentStudio.Daemon

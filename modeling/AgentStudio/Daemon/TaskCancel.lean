import AgentStudio.Daemon.Recovery
import AgentStudio.Daemon.RunCancel

/-!
# Canceled tasks

After `task.cancel` a task should stay canceled until someone asks for it again. Nothing guards it:
`update_status` sets any status over any other, so a run that is under way writes its own end over
the cancellation, a worker that has announced the task dispatches it all the same, and one that has
read `failed` before the cancellation requeues it afterwards.

`stays_canceled` says that these are all ways: a canceled task stays canceled and is not run again
along every run of the daemon in which no coroutine of the task takes such a turn (`CancelKept`),
and `not_stays_canceled` is a run that ends after the cancellation.
-/

namespace AgentStudio.Daemon

open PyText PyDict PyJson Tasks Coroutines Machine

/-! ### The task store -/

def Canceled (id : Str) (s : Store) : Prop :=
  ∀ r, s.db.tasks.find id = some r → r.status = .canceled

/-- An operation that is harmless to a canceled task. -/
def Harmless (id : Str) (c : Call) : Prop :=
  match c.op with
  | .submit _ => False
  | .updateStatus k status _ _ _ => k = id → status = .canceled
  | .rerun k | .requeue k _ _ | .moveTask k _ _ _ _ => k ≠ id
  | _ => True

theorem harmless_of_on {id k : Str} (hk : k ≠ id) {c : Call} (h : World.On k c) :
    Harmless id c := by
  obtain ⟨op, clock⟩ := c
  cases op with
  | submit => exact nomatch h
  | updateStatus k' => exact fun hid => absurd ((Option.some.inj h).symm.trans hid) hk
  | rerun | requeue | moveTask => exact fun hid => hk ((Option.some.inj h).symm.trans hid)
  | _ => exact trivial

namespace Canceled

variable {id : Str} {s s' : Store}

theorem congr (h : Canceled id s) (hfind : s'.db.tasks.find id = s.db.tasks.find id) :
    Canceled id s' := by
  unfold Canceled
  rwa [hfind]

theorem deleteIds (h : Canceled id s) {ids : List Str}
    (hfind : s'.db.tasks.find id = (s.db.deleteIds ids).tasks.find id) : Canceled id s' := by
  intro r hr
  rw [hfind, Database.find_deleteIds] at hr
  split_ifs at hr
  exact h r hr

theorem claimWhere (h : Canceled id s) {p : Row → Bool} {c : Claim}
    (hp : ∀ r, r.status = .canceled → p r = false)
    (hdb : s'.db.tasks = s.db.tasks.claimWhere p c) : Canceled id s' := by
  intro r hr
  rw [hdb, Table.find_claimWhere] at hr
  obtain ⟨r₀, hr₀, rfl⟩ := Option.map_eq_some_iff.mp hr
  rw [hp r₀ (h r₀ hr₀)]
  exact h r₀ hr₀

theorem of_target_ne (hs : s.Cached) (h : Canceled id s) {c : Call} {k : Str}
    (hc : c.op.target = some k) (hk : k ≠ id) : Canceled id (s.step c).2 := by
  rcases (hs.changed hc).row with hrow | ⟨r, t, -, -, -, hrow⟩
  · exact h.congr (hrow id)
  · exact h.congr ((hrow id).trans (if_neg (Ne.symm hk)))

theorem withTask (hs : s.Cached) (h : Canceled id s) {α : Type} {k : Str} {missing : α}
    {f : Task → Store → α × Store} {u : Task → Task} (hf : ∀ t s, (f t s).2 = s.put k (u t))
    (hids : ∀ t, (u t).taskId = t.taskId ∧ (u t).idempotencyKey = t.idempotencyKey)
    (hstatus : ∀ t, t.status = .canceled → (u t).status = .canceled) :
    Canceled id (s.withTask k missing f).2 := by
  rcases hs.withTask_cases k missing f with ⟨-, heq⟩ | ⟨t, r, s', hsees, hr, hrt, hs', heq⟩ <;>
    rw [heq]
  · exact h
  · obtain ⟨-, hfind, -⟩ := hs'.cached.put (hs'.db ▸ hr) hrt (hids t).1 (hids t).2
      ((hs'.sees k).trans hsees)
    rw [hf]
    intro r' hr'
    rw [hfind, hs'.db] at hr'
    split_ifs at hr' with hk
    · obtain rfl := Option.some.inj hr'
      exact hstatus t ((congrArg Record.status hrt).trans (h r (hk ▸ hr)))
    · exact h r' hr'

theorem updateStatus (hs : s.Cached) (h : Canceled id s) {k : Str} {status : Status}
    (hstatus : k = id → status = .canceled) (lastResult : Option Dict) (lastError : Str)
    (retryCount : Option ℤ) (clock : ℕ → ℤ) :
    Canceled id (s.updateStatus k status lastResult lastError retryCount clock).2 := by
  by_cases hk : k = id
  · rw [hstatus hk]
    exact h.withTask (u := fun t => Store.updated t .canceled lastResult lastError retryCount
      (clock 0)) hs (fun _ _ => rfl) (fun _ => ⟨rfl, rfl⟩) fun _ _ => rfl
  · exact h.of_target_ne hs (c := ⟨.updateStatus k status lastResult lastError retryCount, clock⟩)
      rfl hk

theorem submit (hs : s.Cached) (h : Canceled id s) (t : Task) (clock : ℕ → ℤ)
    (hid : (s.submit t clock).1.taskId ≠ id) : Canceled id (s.submit t clock).2 := by
  have hreap : (s.reapExpired (clock 2)).2.Cached := hs.deleteIds _
  have hcanceled : Canceled id (s.reapExpired (clock 2)).2 := h.deleteIds rfl
  unfold Store.submit at hid ⊢
  dsimp only at hid ⊢
  cases hduplicate : (s.reapExpired (clock 2)).2.db.duplicate (Store.prepare t clock) with
  | some r => exact hcanceled
  | none =>
    rw [hduplicate] at hid
    dsimp only at hid
    rw [Store.insert_eq] at hid
    obtain ⟨-, hfind, -⟩ := hreap.insertNew hduplicate (clock 3)
    exact hcanceled.congr ((hfind id).trans (if_neg fun heq => hid heq.symm))

theorem dequeue (hs : s.Cached) (h : Canceled id s) (team owner token : Str) (clock : ℕ → ℤ) :
    Canceled id (s.dequeue team owner token clock).2 := by
  have hne {r : Row} (hr : r ∈ s.db.tasks.rows) (hpending : r.status = .pending) :
      id ≠ r.taskId := by
    rintro rfl
    exact nomatch hpending.symm.trans (h r (Table.find_of_mem hr))
  rcases hs.dequeue_cases team owner token clock with ⟨-, heq⟩ | ⟨r, -, hc, hcases⟩
  · rw [heq]
    exact h
  · obtain ⟨hr, hpending⟩ := Store.pending_of_candidate hc
    have hk := hne hr hpending
    have hclaim := (Store.find_claim hr hpending owner token clock id).trans (if_neg hk)
    rcases hcases with ⟨-, heq⟩ | ⟨-, t, s', hs', -, ⟨-, heq⟩ | ⟨-, heq⟩⟩ <;> rw [heq]
    · exact h.congr hclaim
    · exact h.congr ((congrArg (·.tasks.find id) hs'.db).trans hclaim)
    · exact h.congr ((Store.find_revert hr hpending hs' id).trans (if_neg hk))

theorem cancel (hs : s.Cached) (h : Canceled id s) (k : Str) (clock : ℕ → ℤ) :
    Canceled id (s.cancel k clock).2 := by
  unfold Store.cancel
  rcases hs.withTask_cases k false fun t s =>
      if t.status = .completed ∨ t.status = .canceled then (false, s)
      else s.updateStatus k .canceled none [] none clock with
    ⟨-, heq⟩ | ⟨t, r, s', -, -, -, hs', heq⟩ <;> rw [heq]
  · exact h
  · have hread : Canceled id s' := h.congr (congrArg (·.tasks.find id) hs'.db)
    split_ifs
    · exact hread
    · exact hread.updateStatus hs'.cached (fun _ => rfl) none [] none clock

/-- **An operation of the store.** -/
theorem step (hs : s.Cached) (h : Canceled id s) {c : Call} (hc : Harmless id c) :
    Canceled id (s.step c).2 := by
  obtain ⟨op, clock⟩ := c
  cases op with
  | submit => exact hc.elim
  | get k =>
    rcases hs.getTask_cases k with ⟨-, hget⟩ | ⟨t, r, -, -, -, -, hs'⟩
    · exact h.congr (congrArg (·.2.db.tasks.find id) hget)
    · exact h.congr (congrArg (·.tasks.find id) hs'.db)
  | updateStatus k status lastResult lastError retryCount =>
    exact h.updateStatus hs hc lastResult lastError retryCount clock
  | cancel k => exact h.cancel hs k clock
  | addArtifacts | setEvidence | claimLease =>
    exact h.withTask hs (fun _ _ => rfl) (fun _ => ⟨rfl, rfl⟩) fun _ ht => ht
  | setReviewState k state =>
    change Canceled id (s.setReviewState k state clock).2
    unfold Store.setReviewState
    split_ifs
    · exact h.withTask hs (fun _ _ => rfl) (fun _ => ⟨rfl, rfl⟩) fun _ ht => ht
    · exact h
  | delete | reapExpired => exact h.deleteIds rfl
  | dequeue team owner token => exact h.dequeue hs team owner token clock
  | resetOrphans owner =>
    change Canceled id (s.resetOrphans owner clock).2
    unfold Store.resetOrphans
    split_ifs
    · exact h
    · exact h.claimWhere (fun r hr => by simp [Database.orphan, hr]) rfl
  | rerun | requeue | moveTask => exact h.of_target_ne hs rfl hc

theorem acts {w w' : World} (hs : w.store.Cached) (h : Canceled id w.store)
    (hacts : World.Acts (Harmless id) w w') : Canceled id w'.store := by
  have hboth := hacts.invariant (I := fun s => s.Cached ∧ Canceled id s)
    (fun c s hs hc => ⟨hs.1.step c, hs.2.step hs.1 hc⟩) ⟨hs, h⟩
  exact hboth.2

end Canceled

/-! ### Turns -/

/-- The execution does not write a completion or a failure over the cancellation. -/
def Execution.CancelKept (id : Str) (x : Execution) : Prop :=
  x.taskId = id → x.cancelRequested = false → ∀ e, x.phase = .announcing e → e = .cancelled

/-- The run in a request does not come to its end. -/
def SyncRun.CancelKept (id : Str) (x : SyncRun) (a : Answer) : Prop :=
  x.taskId = id → x.phase = .streaming → ∀ f, a.signal ≠ .returned f

def AgentRun.CancelKept (id : Str) (x : AgentRun) (a : Answer) : Prop :=
  x.taskId = id → x.done = false →
    (∀ ok result error, a.signal ≠ .report ok result error) ∧ ∀ text, a.signal ≠ .raised text

/-- The chain does not go on with the task, or end an attempt of it, or submit a step as it. -/
def ChainRun.CancelKept (id : Str) (c : ChainRun) (a : Answer) (w : World) : Prop :=
  match c.phase with
  | .submitting =>
    match c.steps[c.taskIds.length]? with
    | some step => (w.store.submit (c.taskOf c.taskIds.length step) (a.clock 0)).1.taskId ≠ id
    | none => c.taskIds[0]? ≠ some id
  | .streaming idx _ =>
    match a.signal with
    | .returned _ => c.taskIds[idx]? ≠ some id ∧ c.taskIds[idx + 1]? ≠ some id
    | .raised _ => c.taskIds[idx]? ≠ some id
    | _ => True
  | _ => True

/-- The worker does not dispatch the task, and does not requeue it. -/
def Worker.CancelKept (id : Str) (x : Worker) (w : World) : Prop :=
  x.taskId = id →
    match x.phase with
    | .announcing _ => False
    | .finalizing t => ¬ x.Requeues t w
    | _ => True

def Coroutine.CancelKept (id : Str) (a : Answer) (w : World) : Coroutine → Prop
  | .execution x => x.CancelKept id
  | .sync x => x.CancelKept id a
  | .agent x => x.CancelKept id a
  | .chain c => c.CancelKept id a w
  | .worker x => x.CancelKept id w

namespace Coroutine.CancelKept

variable {id : Str} {a : Answer} {w : World}

theorem execution {x : Execution} (h : x.CancelKept id) :
    World.Acts (Harmless id) w (x.resume a w).2 := by
  by_cases hid : x.taskId = id
  · cases hphase : x.phase with
    | announcing e =>
      unfold Execution.resume
      rw [hphase]
      dsimp only
      split_ifs with hcancel
      · cases e <;> exact .of_store_eq rfl
      · obtain rfl := h hid (Bool.eq_false_of_not_eq_true hcancel) e hphase
        dsimp only
        unfold Execution.writeBack
        split_ifs
        · exact .refl w
        · exact .call fun _ => rfl
    | _ => exact .of_store_eq (x.resume_store a w (by simp [hphase]))
  · exact (x.acts a w).mono fun _ => harmless_of_on hid

theorem sync {x : SyncRun} (h : x.CancelKept id a) :
    World.Acts (Harmless id) w (x.resume a w).2 := by
  by_cases hid : x.taskId = id
  · unfold SyncRun.resume
    cases hphase : x.phase with
    | streaming =>
      cases hsignal : a.signal with
      | returned f => exact absurd hsignal (h hid hphase f)
      | _ => exact .refl w
    | _ => exact .refl w
  · exact (x.acts a w).mono fun _ => harmless_of_on hid

theorem agent {x : AgentRun} (h : x.CancelKept id a) :
    World.Acts (Harmless id) w (x.resume a w).2 := by
  by_cases hid : x.taskId = id
  · unfold AgentRun.resume
    split_ifs with hdone
    · exact .refl w
    · obtain ⟨hreport, hraised⟩ := h hid (Bool.eq_false_of_not_eq_true hdone)
      cases hsignal : a.signal with
      | report ok result error => exact absurd hsignal (hreport ok result error)
      | raised text => exact absurd hsignal (hraised text)
      | _ => exact .refl w
  · exact (x.acts a w).mono fun _ => harmless_of_on hid

theorem worker {x : Worker} (h : x.CancelKept id w) :
    World.Acts (Harmless id) w (x.resume a w).2.2.2 := by
  by_cases hid : x.taskId = id
  · have hget (w : World) : World.Acts (Harmless id) w (w.get x.taskId).2 :=
      w.get_acts x.taskId trivial
    have hfinalize (w : World) : World.Acts (Harmless id) w (x.finalize w).2 := by
      have hread := hget w
      unfold Worker.finalize
      split <;> next heq => rw [heq] at hread; exact hread
    have hawait (w : World) : World.Acts (Harmless id) w (x.await w).2 := by
      have hread := hget w
      unfold Worker.await
      split <;> next heq =>
        rw [heq] at hread
        first
        | exact hread.trans (hfinalize _)
        | split_ifs
          · exact hread.trans (hfinalize _)
          · exact hread
    have hkept := h hid
    unfold Worker.resume
    cases hphase : x.phase with
    | created =>
      have hread := hget w
      dsimp only
      split <;> next heq =>
        rw [heq] at hread
        first
        | exact hread
        | split_ifs <;> exact hread
    | announcing t =>
      rw [hphase] at hkept
      exact hkept.elim
    | awaiting =>
      dsimp only
      cases a.signal with
      | capped => exact hfinalize w
      | _ => exact hawait w
    | finalizing t =>
      rw [hphase] at hkept
      dsimp only
      unfold Worker.requeue
      rw [if_neg hkept]
      exact .refl w
    | done => exact .refl w
  · exact (x.acts a w).mono fun _ => harmless_of_on hid

theorem enter {c : ChainRun} {idx : ℕ} (h : c.taskIds[idx]? ≠ some id) :
    World.Acts (Harmless id) w (c.enter idx a w).2 := by
  unfold ChainRun.enter
  cases c.steps[idx]? with
  | none => exact .refl w
  | some step =>
    cases hid : c.taskIds[idx]? with
    | none => exact .refl w
    | some taskId =>
      have hne : taskId ≠ id := fun heq => h (heq ▸ hid)
      dsimp only
      split_ifs <;> exact .call fun heq => absurd heq hne

end Coroutine.CancelKept

/-- **A turn of a chain** leaves the task canceled. -/
theorem ChainRun.CancelKept.canceled {id : Str} {a : Answer} {w : World} {c : ChainRun}
    (hs : w.store.Cached) (h : Canceled id w.store) (hc : c.CancelKept id a w) :
    Canceled id (c.resume a w).2.store := by
  unfold ChainRun.CancelKept at hc
  unfold ChainRun.resume
  cases hphase : c.phase with
  | submitting =>
    rw [hphase] at hc
    dsimp only at hc ⊢
    cases hstep : c.steps[c.taskIds.length]? with
    | none =>
      rw [hstep] at hc
      exact h.acts hs (Coroutine.CancelKept.enter hc)
    | some step =>
      rw [hstep] at hc
      exact h.submit hs _ _ hc
  | streaming idx n =>
    rw [hphase] at hc
    dsimp only at hc ⊢
    cases hsteps : c.steps[idx]? with
    | none => exact h
    | some step =>
      cases hid : c.taskIds[idx]? with
      | none => exact h
      | some taskId =>
        rw [hid] at hc
        have hcall {w : World} (hne : some taskId ≠ some id) (status : Status)
            (result : Option Dict) (error : Str) (retries : Option ℤ) (clock : ℕ → ℤ) :
            World.Acts (Harmless id) w
              (w.call (.updateStatus taskId status result error retries) clock) :=
          .call fun heq => absurd (congrArg some heq) hne
        cases hsignal : a.signal with
        | returned f =>
          rw [hsignal] at hc
          have hdone := hcall (w := w) hc.1 .completed (some (c.result idx n a.outputs)) [] none
            (a.clock 0)
          exact h.acts hs (hdone.trans
            (Coroutine.CancelKept.enter (c := { c with completed := c.completed ++ [idx] }) hc.2))
        | raised text =>
          rw [hsignal] at hc
          have hfailed := hcall (w := w) hc .failed none (text.take 500) (some n) (a.clock 0)
          dsimp only
          unfold retry
          dsimp only
          split_ifs <;> exact h.acts hs (hfailed.trans (hcall hc _ _ _ _ _))
        | _ => exact h
  | _ => exact h

/-- **A turn of a coroutine** leaves the task canceled. -/
theorem Coroutine.CancelKept.canceled {id : Str} {a : Answer} {w : World} {co : Coroutine}
    (hs : w.store.Cached) (h : Canceled id w.store) (hc : co.CancelKept id a w) :
    Canceled id (co.turn a w).world.store := by
  cases co with
  | execution x => exact h.acts hs (Coroutine.CancelKept.execution hc)
  | sync x => exact h.acts hs (Coroutine.CancelKept.sync hc)
  | agent x => exact h.acts hs (Coroutine.CancelKept.agent hc)
  | chain c => exact ChainRun.CancelKept.canceled hs h hc
  | worker x => exact h.acts hs (Coroutine.CancelKept.worker hc)

theorem Coroutine.CancelKept.runs {id : Str} {a : Answer} {w : World} {co : Coroutine}
    (hc : co.CancelKept id a w) :
    ((co.turn a w).self.RunsTask id → co.RunsTask id) ∧
      ∀ q ∈ (co.turn a w).spawned, ¬ q.RunsTask id := by
  refine ⟨fun hself => ?_, fun q hq hruns => ?_⟩
  · cases co with
    | chain c =>
      have hself : id ∈ (c.resume a w).1.taskIds := hself
      have hc : c.CancelKept id a w := hc
      rcases c.taskIds_resume a w with heq | ⟨step, hphase, hstep, heq⟩ <;> rw [heq] at hself
      · exact hself
      · unfold ChainRun.CancelKept at hc
        rw [hphase] at hc
        dsimp only at hc
        rw [hstep] at hc
        rcases List.mem_append.mp hself with hmem | hmem
        · exact hmem
        · exact absurd (List.mem_singleton.mp hmem).symm hc
    | _ => exact (Coroutine.runsTask_self (by exact nofun) a w id).mp hself
  · obtain ⟨x, t, rfl, hphase, hq⟩ := Coroutine.spawned hq
    have hid : x.taskId = id := by
      rcases hq with ⟨y, rfl, hy⟩ | ⟨y, rfl, hy, -⟩
      · exact hy.symm.trans hruns
      · exact hy.symm.trans hruns
    have hkept : match x.phase with
      | .announcing _ => False
      | .finalizing t => ¬ x.Requeues t w
      | _ => True := hc hid
    rw [hphase] at hkept
    exact hkept

/-! ### Every step -/

/-- The condition on a step after the cancellation: no coroutine of the task takes a turn that
writes it, and no request asks for it again. -/
def CancelKept (id : Str) (i : Input) (d : DaemonServer) : Prop :=
  match i with
  | .op ⟨.submit t, clock⟩ => (d.world.store.submit t clock).1.taskId ≠ id
  | .op c => Harmless id c
  | .graphExecuteAsync p _ | .graphExecute p _ => p.taskId ≠ id
  | .resume n a => ∀ co, d.members[n]? = some co → co.CancelKept id a d.world
  | _ => True

/-- The task is canceled, and at most so many coroutines are runs of it. -/
structure DaemonServer.Kept (id : Str) (n : ℕ) (d : DaemonServer) : Prop where
  cached : d.world.store.Cached
  canceled : Canceled id d.world.store
  runs : d.members.countP (·.RunsTask id) ≤ n

private theorem countP_spawn {id : Str} {d : DaemonServer} {w : World} {co : Coroutine}
    (hco : ¬ co.RunsTask id) :
    (Pool.spawn { d with world := w } co).members.countP (·.RunsTask id) =
      d.members.countP (·.RunsTask id) := by
  have hlast : ([co] : List Coroutine).countP (·.RunsTask id) = 0 :=
    List.countP_eq_zero.mpr fun co' hco' => by
      rw [List.mem_singleton.mp hco']
      simpa using hco
  change (d.members ++ [co]).countP (·.RunsTask id) = _
  rw [List.countP_append, hlast, Nat.add_zero]

private theorem countP_modifyActive {id k : Str} {d : DaemonServer} {f : Execution → Execution}
    (hf : ∀ x, (f x).taskId = x.taskId) :
    (d.modifyActive k f).members.countP (·.RunsTask id) =
      d.members.countP (·.RunsTask id) := by
  change (d.members.map (·.modifyActive k f)).countP (·.RunsTask id) = _
  rw [List.countP_map]
  refine List.countP_congr fun co _ => ?_
  cases co with
  | execution x =>
    rw [Function.comp, decide_eq_true_iff, decide_eq_true_iff]
    unfold Coroutine.modifyActive
    dsimp only
    split_ifs
    · exact iff_of_eq (congrArg (· = id) (hf x))
    · exact Iff.rfl
  | _ => exact Iff.rfl

theorem Canceled.reconcile {id : Str} {w : World} (hs : w.store.Cached) (h : Canceled id w.store)
    (clock : ℕ → ℕ → ℤ) : Canceled id (w.reconcile clock).store := by
  have hfold (ts : List (Task × ℕ)) (hts : ∀ t ∈ ts, t.1.taskId ≠ id) {w : World}
      (hs : w.store.Cached) (h : Canceled id w.store) :
      Canceled id (ts.foldl (fun w t => w.reconcileTask t.1 (clock t.2)) w).store := by
    induction ts generalizing w with
    | nil => exact h
    | cons t ts ih =>
      have hacts := w.reconcileTask_acts t.1 (clock t.2)
      exact ih (fun u hu => hts u (List.mem_cons_of_mem t hu)) (hacts.cached hs)
        (h.acts hs (hacts.mono fun _ => harmless_of_on (hts t List.mem_cons_self)))
  refine hfold _ (fun t ht hid => ?_) (World.cached_list hs _ _ _) (h.deleteIds rfl)
  obtain ⟨hrunning, r, hr, heq⟩ := World.mem_list hs (List.fst_mem_of_mem_zipIdx ht)
  have hstatus : t.1.status = r.status := congrArg Record.status heq
  exact nomatch (hrunning.symm.trans hstatus).trans (h r (hid ▸ hr))

namespace DaemonServer.Kept

variable {id : Str} {n : ℕ} {d : DaemonServer}

/-- **A step of the daemon.** -/
theorem step (h : d.Kept id n) {i : Input} (hi : CancelKept id i d) : (d.step i).2.Kept id n := by
  have hcached := step_cached h.cached i
  cases i with
  | op c =>
    refine ⟨hcached, ?_, h.runs⟩
    obtain ⟨op, clock⟩ := c
    cases op with
    | submit t => exact h.canceled.submit h.cached t clock hi
    | _ => exact h.canceled.step h.cached hi
  | graphExecuteAsync p a =>
    have hstart := h.canceled.acts h.cached
      ((startExecution_acts p a d.world).mono fun _ => harmless_of_on hi)
    change (d.graphExecuteAsync p a).2.Kept id n
    change (d.graphExecuteAsync p a).2.world.store.Cached at hcached
    unfold DaemonServer.graphExecuteAsync at hcached ⊢
    cases hresult : startExecution p a d.world with
    | mk result w =>
      rw [hresult] at hstart hcached
      cases result with
      | error text => exact h
      | ok x =>
        have hid : ¬ (Coroutine.execution x).RunsTask id := by
          rw [startExecution_ok hresult]
          exact hi
        exact ⟨hcached, hstart, (countP_spawn hid).trans_le h.runs⟩
  | graphStatus executionId team =>
    change (d.graphStatus executionId team).2.Kept id n
    rcases (d.graphStatus_cases executionId team).2 with hnext | hnext <;> rw [hnext]
    · exact h
    · have hcount : (d.modifyActive executionId Execution.unlist).members.countP (·.RunsTask id) =
          d.members.countP (·.RunsTask id) := countP_modifyActive fun _ => rfl
      exact ⟨h.cached, h.canceled, hcount.trans_le h.runs⟩
  | graphCancel executionId =>
    change (d.graphCancel executionId).2.Kept id n
    unfold DaemonServer.graphCancel
    split_ifs
    · exact h
    · cases d.active executionId with
      | none => exact h
      | some x =>
        exact ⟨h.cached, h.canceled,
          (countP_modifyActive fun x => x.requestCancel_ids.2.2).trans_le h.runs⟩
  | graphExecute p a =>
    change (d.graphExecute p a).2.Kept id n
    change (d.graphExecute p a).2.world.store.Cached at hcached
    have hco : ¬ (Coroutine.sync
        { graphId := p.graphId, sessionId := p.sessionId, taskId := p.taskId }).RunsTask id := hi
    unfold DaemonServer.graphExecute at hcached ⊢
    split_ifs at hcached ⊢
    · exact h
    · exact ⟨hcached, h.canceled, (countP_spawn hco).trans_le h.runs⟩
    · exact ⟨hcached, h.canceled.updateStatus h.cached (fun hid => absurd hid hi) _ _ _ _,
        (countP_spawn hco).trans_le h.runs⟩
  | taskRunChain team idempotencyPrefix steps newId =>
    change (d.taskRunChain team idempotencyPrefix steps newId).2.Kept id n
    unfold DaemonServer.taskRunChain
    split_ifs
    · exact h
    · exact ⟨h.cached, h.canceled, (countP_spawn List.not_mem_nil).trans_le h.runs⟩
  | poll token clock =>
    have hbesides : ∀ r, d.world.store.db.tasks.find id = some r → r.status ≠ .pending :=
      fun r hr => by
        rw [h.canceled r hr]
        exact nofun
    obtain ⟨hsame, hclaimed⟩ := World.poll_besides h.cached hbesides token clock
    change (d.poll token clock).Kept id n
    change (d.poll token clock).world.store.Cached at hcached
    unfold DaemonServer.poll at hcached ⊢
    cases hpoll : d.world.poll token clock with
    | mk result w =>
      rw [hpoll] at hsame hclaimed hcached
      cases result with
      | none => exact ⟨hcached, h.canceled.congr hsame.1, h.runs⟩
      | some t =>
        have hco : ¬ (Coroutine.worker { taskId := t.taskId }).RunsTask id := hclaimed t rfl
        exact ⟨hcached, h.canceled.congr hsame.1, (countP_spawn hco).trans_le h.runs⟩
  | resume k a =>
    have hruns : (Pool.resume Coroutine.turn k a d).members.countP (·.RunsTask id) ≤
        d.members.countP (·.RunsTask id) :=
      Pool.countP_resume_le _ fun co hco => by
        obtain ⟨hself, hspawned⟩ := (hi co hco).runs
        exact ⟨fun hq => decide_eq_true (hself (of_decide_eq_true hq)),
          fun q hq => decide_eq_false (hspawned q hq)⟩
    refine ⟨hcached, ?_, hruns.trans h.runs⟩
    change Canceled id (Pool.resume Coroutine.turn k a d).world.store
    cases hk : d.members[k]? with
    | none =>
      rw [Pool.resume_of_none hk]
      exact h.canceled
    | some co =>
      rw [Pool.resume_of_some hk]
      exact Coroutine.CancelKept.canceled h.cached h.canceled (hi co hk)
  | crash lazyLoad ttl => exact ⟨hcached, h.canceled, Nat.zero_le n⟩
  | startExecutor clock =>
    exact ⟨hcached, h.canceled.step h.cached (c := ⟨.resetOrphans executorOwner, clock⟩) trivial,
      h.runs⟩
  | reconcile clock => exact ⟨hcached, h.canceled.reconcile h.cached clock, h.runs⟩

end DaemonServer.Kept

/-! ### From the cancellation on -/

/-- How many coroutines are runs of the task. -/
def DaemonServer.runsOf (d : DaemonServer) (id : Str) : ℕ := d.members.countP (·.RunsTask id)

/-- Every step of a run leaves the task canceled, and none starts a run of it. -/
def DaemonServer.StaysCanceled (d : DaemonServer) (id : Str) (is : List Input) : Prop :=
  Along DaemonServer.step (fun i d => Canceled id (d.step i).2.world.store ∧
    (d.step i).2.runsOf id ≤ d.runsOf id) is d

theorem Canceled.of_cancel {id : Str} {s : Store} (hs : s.Cached) {clock : ℕ → ℤ}
    (hok : (s.cancel id clock).1 = true) : Canceled id (s.cancel id clock).2 := by
  have hupdate {s : Store} (hs : s.Cached)
      (hok : (s.updateStatus id .canceled none [] none clock).1 = true) :
      Canceled id (s.updateStatus id .canceled none [] none clock).2 := by
    rcases hs.updateStatus_cases id .canceled none [] none clock with
      ⟨-, heq⟩ | ⟨t, r, s', hsees, hr, hrt, hs', heq⟩ <;> rw [heq] at hok ⊢
    · exact nomatch hok
    · have hid : (Store.updated t .canceled none [] none (clock 0)).taskId = t.taskId := rfl
      obtain ⟨-, hfind, -⟩ := hs'.cached.put (hs'.db ▸ hr) hrt hid rfl ((hs'.sees id).trans hsees)
      intro r' hr'
      have hrow : (s'.put id (Store.updated t .canceled none [] none (clock 0))).db.tasks.find id =
          some r' := hr'
      rw [hfind, if_pos rfl] at hrow
      obtain rfl := Option.some.inj hrow
      rfl
  unfold Store.cancel at hok ⊢
  rcases hs.withTask_cases id false fun t s =>
      if t.status = .completed ∨ t.status = .canceled then (false, s)
      else s.updateStatus id .canceled none [] none clock with
    ⟨-, heq⟩ | ⟨t, r, s', -, -, -, hs', heq⟩ <;> rw [heq] at hok ⊢
  · exact nomatch hok
  · split_ifs at hok ⊢
    exact hupdate hs'.cached hok

/-- **A canceled task stays canceled.** In any state of the daemon in which `task.cancel` succeeds
for a task, every step that follows leaves it canceled and starts no run of it, along every run of
requests, polls, turns, crashes and starts in which no coroutine of the task writes its end, no
worker that has announced it dispatches it or has found it failed requeues it, no chain goes on
with it, and no request asks for it again. -/
theorem stays_canceled (lazyLoad : Bool) (tasks : Table) (history : List HistoryRow)
    (index : List IndexRow) (ttl : ℤ) (files : List (Str × List Evidence)) (before : List Input)
    {d : DaemonServer} (hd : d = (run DaemonServer.step before
      (DaemonServer.opened lazyLoad tasks history index ttl files)).2)
    {id : Str} {clock : ℕ → ℤ}
    (hok : (d.step (.op ⟨.cancel id, clock⟩)).1 = .result (.flag true)) (is : List Input)
    (hkept : Along DaemonServer.step (CancelKept id) is (d.step (.op ⟨.cancel id, clock⟩)).2) :
    (d.step (.op ⟨.cancel id, clock⟩)).2.StaysCanceled id is := by
  have hcached : d.world.store.Cached := hd ▸ run_invariant_always
    (I := fun d : DaemonServer => d.world.store.Cached) (fun i d hd => step_cached hd i) before
    (Store.cached_open _ _ _ _ _)
  have hflag : (d.world.store.cancel id clock).1 = true :=
    Result.flag.inj (Reply.result.inj hok)
  refine along_of_invariant (I := fun d => ∃ n, d.Kept id n) (fun i d ⟨n, h⟩ hi => ?_) is
    ⟨_, step_cached hcached _, Canceled.of_cancel hcached hflag, le_rfl⟩ hkept
  have hnext := (DaemonServer.Kept.mk h.cached h.canceled le_rfl).step hi
  exact ⟨⟨_, hnext⟩, hnext.canceled, hnext.runs⟩

/-- A task whose execution is cancelled as well, and ends so. -/
theorem stays_canceled_streaming :
    let answer : Answer := { signal := .go, now := 1, clock := fun _ _ => 1, newId := "1".toList }
    let d := (run DaemonServer.step
      [.op ⟨.submit { Task.default with taskId := "t".toList }, fun _ => 1⟩,
        .graphExecuteAsync { taskId := "t".toList } answer, .resume 0 answer, .resume 0 answer]
      (DaemonServer.opened true Table.empty [] [] 0 [])).2
    (d.step (.op ⟨.cancel "t".toList, fun _ => 2⟩)).2.StaysCanceled "t".toList
      [.graphCancel "exec_1".toList, .resume 0 answer, .resume 0 answer,
        .poll "p".toList fun _ => 3] := by
  refine stays_canceled true Table.empty [] [] 0 [] _ rfl ?_ _ ⟨trivial, fun co hco => ?_,
    fun co hco => ?_, trivial, trivial⟩
  · exact congrArg (fun b => Reply.result (.flag b)) (by decide)
  · obtain rfl := Option.some.inj hco
    exact fun _ hrequested => nomatch hrequested
  · obtain rfl := Option.some.inj hco
    exact fun _ _ e he => (Phase.announcing.inj he).symm

/-- An execution that completes after the cancellation of its task. -/
theorem not_stays_canceled :
    ¬ ∀ (before : List Input) (d : DaemonServer) (id : Str) (clock : ℕ → ℤ) (is : List Input),
      d = (run DaemonServer.step before (DaemonServer.opened true Table.empty [] [] 0 [])).2 →
      (d.step (.op ⟨.cancel id, clock⟩)).1 = .result (.flag true) →
      (∀ i ∈ is, i.isWork = true) →
      (d.step (.op ⟨.cancel id, clock⟩)).2.StaysCanceled id is := by
  intro hall
  let answer (signal : Signal) : Answer :=
    { signal, now := 1, clock := fun _ _ => 1, newId := "1" }
  let before : List Input := [
    .op ⟨.submit { Task.default with taskId := "t" }, fun _ => 1⟩,
    .graphExecuteAsync { taskId := "t" } (answer .go), .resume 0 (answer .go),
    .resume 0 (answer .go)]
  let d := (run DaemonServer.step before (DaemonServer.opened true Table.empty [] [] 0 [])).2
  let d' := (d.step (.op ⟨.cancel "t", fun _ => 2⟩)).2
  obtain ⟨-, ⟨hcanceled, -⟩, -⟩ := hall before d "t" (fun _ => 2)
    [.resume 0 (answer (.returned {})), .resume 0 (answer .go)] rfl
    (congrArg (fun b => Reply.result (.flag b)) (by decide)) (by simp [Input.isWork])
  have hcompleted : ((run DaemonServer.step [.resume 0 (answer (.returned {})),
      .resume 0 (answer .go)] d').2.world.store.db.tasks.find "t").any
      (·.status = .completed) = true := by decide
  obtain ⟨r, hr, hstatus⟩ := (Option.any_eq_true _ _).mp hcompleted
  exact absurd ((of_decide_eq_true hstatus).symm.trans (hcanceled r hr)) (by decide)

end AgentStudio.Daemon

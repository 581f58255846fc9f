import AgentStudio.Tasks.Returns

/-!
# Dependencies that stay met

A task waits if a worker could claim it and every task that it depends on has been completed at some
time (`Watched.Waits`; a `Watched` store remembers which tasks these are). It should then stay
claimable until it is claimed, canceled or deleted (`StaysClaimable`), whatever else is completed,
reaped or deleted meanwhile.

`deps_met` looks for a completed row of each dependency and takes a missing one for unmet. So a
completed task that is reaped, deleted, reopened or replaced blocks the tasks that depend on it for
good, and a task that is submitted or returned to the queue after that is blocked from the start.
`DepSafe` says that an operation does none of this and does not divert a task that waits, and
`claimable_until_taken` that tasks stay claimable in every run of such operations.

`Store.outcome` is what an operation does to a row, as far as dependencies and claims go: the row
stays, is removed, is turned into another row of the task (`Turned`), or a new task takes its place.
-/

namespace AgentStudio.Tasks

open PyText PyDict PyJson Machine

/-! ### Stores that are watched -/

def Database.completedIds (db : Database) : List Str :=
  (db.tasks.rows.filter fun r => r.status = .completed).map Record.taskId

/-- A store, with the tasks that have been completed so far. -/
structure Watched where
  store : Store
  done : List Str

namespace Watched

/-- A store that is opened; the completed tasks of its database have been completed. -/
def «open» (lazyLoad : Bool) (T : Table) (history : List HistoryRow) (index : List IndexRow)
    (ttl : ℤ) : Watched :=
  let s := Store.open lazyLoad T history index ttl
  ⟨s, s.db.completedIds⟩

def step (c : Call) (w : Watched) : Result × Watched :=
  let (result, s) := w.store.step c
  (result, ⟨s, w.done ++ s.db.completedIds⟩)

/-- A worker could claim the task of the row, and all its dependencies have been completed. -/
def Waits (w : Watched) (r : Row) : Prop :=
  claimable allTeams r = true ∧ ∀ d ∈ loadTexts r.dependsOn, d ∈ w.done

instance (w : Watched) (r : Row) : Decidable (w.Waits r) := inferInstanceAs (Decidable (_ ∧ _))

end Watched

namespace Store

/-- The task is claimable: a worker of all teams could take its row, and `deps_met`. -/
def Claimable (s : Store) (id : Str) : Prop :=
  (s.db.tasks.find id).any (claimable allTeams) = true ∧ (s.depsMet id).1 = true

instance (s : Store) (id : Str) : Decidable (s.Claimable id) :=
  inferInstanceAs (Decidable (_ ∧ _))

/-- The task has been claimed, canceled or deleted. -/
def Taken (s : Store) (id : Str) : Prop :=
  ∀ r, s.db.tasks.find id = some r → r.status = .running ∨ r.status = .canceled

end Store

/-- In every state of a run, a task that waits is claimable, and it stays so until it is claimed,
canceled or deleted. -/
def StaysClaimable (calls : List Call) (w : Watched) : Prop :=
  ∀ n id r, (run Watched.step (calls.take n) w).2.store.db.tasks.find id = some r →
    (run Watched.step (calls.take n) w).2.Waits r →
      HoldsUntil Watched.step (fun w => w.store.Claimable id) (fun w => w.store.Taken id)
        (calls.drop n) (run Watched.step (calls.take n) w).2

/-! ### The condition -/

def Call.givenStatus (c : Call) : Option (Str × Status) :=
  match c.op with
  | .updateStatus taskId status _ _ _ => if status.valid then some (taskId, status) else none
  | .moveTask taskId status toReview _ _ =>
    if status.valid ∧ (toReview = .empty ∨ toReview.valid) then some (taskId, status) else none
  | .rerun taskId | .requeue taskId _ _ => some (taskId, .pending)
  | _ => none

namespace Store

variable (c : Call) (s : Store)

/-- The store of a submission after `reap_expired`. -/
def reapedFor : Store := (s.reapExpired (c.clock 2)).2

/-- The task that a submission adds, if it repeats none. -/
def added : Option Task :=
  match c.op with
  | .submit t =>
    if ((s.reapedFor c).db.duplicate (prepare t c.clock)).isNone then
      some ((s.reapedFor c).placed (prepare t c.clock) (c.clock 3))
    else none
  | _ => none

def removed : List Str :=
  match c.op with
  | .submit _ => s.db.expiredIds (c.clock 2)
  | .delete taskId => [taskId]
  | .reapExpired => s.db.expiredIds (c.clock 0)
  | _ => []

/-- The tasks that are not completed after the operation even if they were before: they are
removed, reopened, or replaced by a task that is not completed. -/
def undone : List Str :=
  s.removed c ++ ((s.added c).toList.filter fun t => t.status ≠ .completed).map Record.taskId ++
    (c.givenStatus.toList.filter fun x => x.2 ≠ .completed).map Prod.fst

/-- The tasks that the operation returns to the queue or adds to it. -/
def resumed : List Task :=
  ((s.added c).toList.filter fun t => t.status = .pending) ++
    (c.givenStatus.toList.filter fun x => x.2 = .pending).flatMap (fun x =>
      (s.db.tasks.find x.1).toList.map fromRow) ++
    match c.op with
    | .resetOrphans owner => (s.db.tasks.rows.filter (Database.orphan owner)).map fromRow
    | _ => []

def pendingTasks : List Task := (s.db.tasks.rows.filter fun r => r.status = .pending).map fromRow

/-- The operation completes or fails the task out of turn, or puts another one in its place. -/
def Diverts (id : Str) : Prop :=
  c.givenStatus = some (id, .completed) ∨ c.givenStatus = some (id, .failed) ∨
    (s.added c).any (fun t => t.taskId = id) = true

instance (id : Str) : Decidable (s.Diverts c id) := inferInstanceAs (Decidable (_ ∨ _ ∨ _))

end Store

/-- The condition on an operation. No dependency of a pending task, or of one that becomes pending,
is lost once it has been completed, and a task that waits is not diverted. -/
structure DepSafe (c : Call) (w : Watched) : Prop where
  keeps : ∀ t ∈ w.store.pendingTasks ++ w.store.resumed c, ∀ d ∈ t.dependsOn, d ∈ w.done →
    w.store.db.completed d = true ∧ d ∉ w.store.undone c
  diverts : ∀ r ∈ w.store.db.tasks.rows, w.Waits r → ¬ w.store.Diverts c r.taskId

instance (c : Call) (w : Watched) : Decidable (DepSafe c w) :=
  decidable_of_iff
    ((∀ t ∈ w.store.pendingTasks ++ w.store.resumed c, ∀ d ∈ t.dependsOn, d ∈ w.done →
        w.store.db.completed d = true ∧ d ∉ w.store.undone c) ∧
      ∀ r ∈ w.store.db.tasks.rows, w.Waits r → ¬ w.store.Diverts c r.taskId)
    ⟨fun h => ⟨h.1, h.2⟩, fun h => ⟨h.keeps, h.diverts⟩⟩

/-! ### What an operation does to a row -/

namespace Store

variable {c : Call} {s s' : Store} {k id : Str}

/-- A row is written again with its dependencies. It is completed if it was, pending if it was,
and claimable if it was, unless the operation says otherwise. -/
structure Turned (c : Call) (s : Store) (k : Str) (r r' : Row) : Prop where
  dependsOn : loadTexts r'.dependsOn = loadTexts r.dependsOn
  completed : r.status = .completed → r'.status = .completed ∨ k ∈ s.undone c
  pending : r'.status = .pending → r.status = .pending ∨ fromRow r ∈ s.resumed c
  claimable : claimable allTeams r = true → claimable allTeams r' = true ∨
    r'.status = .running ∨ r'.status = .canceled ∨ s.Diverts c k

inductive Outcome (c : Call) (s : Store) (k : Str) : Option Row → Option Row → Prop
  | same (x : Option Row) : Outcome c s k x x
  | removed (x : Option Row) : k ∈ s.removed c → Outcome c s k x none
  | turned {r r' : Row} : Turned c s k r r' → Outcome c s k (some r) (some r')
  | replaced {x : Option Row} {t : Task} : s.added c = some t → t.taskId = k →
      Outcome c s k x (some (toRow t))

theorem turned_refl (r : Row) : Turned c s k r r :=
  ⟨rfl, Or.inl, Or.inl, Or.inl⟩

theorem Alike.outcome (hs : Alike s s') (k : Str) :
    Outcome c s k (s.db.tasks.find k) (s'.db.tasks.find k) := by
  rw [hs.db]
  exact .same _

/-- A task with the columns of another that decide about dependencies and claims, but for the
status. -/
structure SameClaim (t u : Task) : Prop where
  taskId : u.taskId = t.taskId
  idempotencyKey : u.idempotencyKey = t.idempotencyKey
  dependsOn : u.dependsOn = t.dependsOn
  ownerAgent : u.ownerAgent = t.ownerAgent ∨ u.ownerAgent = []
  cronExpression : u.cronExpression = t.cronExpression
  runAt : u.runAt = t.runAt

variable {r : Row}

theorem outcome_put (hs : Alike s s') {t u : Task} (hsees : s.sees id = true)
    (hr : s.db.tasks.find id = some r) (hrt : norm t = fromRow r) (hsame : SameClaim t u)
    (hu : Turned c s id r (toRow u)) (k : Str) :
    Outcome c s k (s.db.tasks.find k) ((s'.put id u).db.tasks.find k) := by
  obtain ⟨-, hfind, -⟩ := hs.cached.put (hs.db ▸ hr) hrt hsame.taskId hsame.idempotencyKey
    ((hs.sees id).trans hsees)
  rw [hfind, hs.db]
  split_ifs with hk
  · subst hk
    rw [hr]
    exact .turned hu
  · exact .same _

theorem Cached.outcome_withTask (h : s.Cached) {α : Type} {missing : α}
    {f : Task → Store → α × Store}
    (hf : ∀ t r s', Alike s s' → s.sees id = true → s.db.tasks.find id = some r →
      norm t = fromRow r →
        ∀ k, Outcome c s k (s.db.tasks.find k) ((f t s').2.db.tasks.find k)) (k : Str) :
    Outcome c s k (s.db.tasks.find k) ((s.withTask id missing f).2.db.tasks.find k) := by
  rcases h.withTask_cases id missing f with ⟨-, heq⟩ | ⟨t, r, s', hsees, hr, hrt, hs, heq⟩ <;>
    rw [heq]
  · exact .same _
  · exact hf t r s' hs hsees hr hrt k

theorem Cached.outcome_write (h : s.Cached) {α : Type} {missing : α}
    {f : Task → Store → α × Store} (u : Task → Task)
    (hf : ∀ t s, (f t s).2.db.tasks = (s.put id (u t)).db.tasks) (hsame : ∀ t, SameClaim t (u t))
    (hu : ∀ t r, SameClaim t (u t) → s.db.tasks.find id = some r → norm t = fromRow r →
      Turned c s id r (toRow (u t))) (k : Str) :
    Outcome c s k (s.db.tasks.find k) ((s.withTask id missing f).2.db.tasks.find k) := by
  refine h.outcome_withTask (fun t r s' hs hsees hr hrt k => ?_) k
  rw [hf]
  exact outcome_put hs hsees hr hrt (hsame t) (hu t r (hsame t) hr hrt) k

theorem SameClaim.turned {t u : Task} (h : SameClaim t u) (hrt : norm t = fromRow r)
    (hcompleted : r.status = .completed → u.status = .completed ∨ k ∈ s.undone c)
    (hpending : u.status = .pending → r.status = .pending ∨ fromRow r ∈ s.resumed c)
    (hleft : r.status = .pending → u.status = .pending ∨ u.status = .running ∨
      u.status = .canceled ∨ s.Diverts c k) : Turned c s k r (toRow u) := by
  have hdeps : t.dependsOn = loadTexts r.dependsOn := congrArg Record.dependsOn hrt
  have howner : t.ownerAgent = r.ownerAgent := congrArg Record.ownerAgent hrt
  have hcron : t.cronExpression = r.cronExpression := congrArg Record.cronExpression hrt
  have hrunAt : t.runAt = r.runAt := congrArg Record.runAt hrt
  refine ⟨?_, hcompleted, hpending, fun hclaimable => ?_⟩
  · exact (loadTexts_dumpTexts u.dependsOn).trans (h.dependsOn.trans hdeps)
  · obtain ⟨hstatus, hfree, hnoCron, hnoRunAt⟩ := claimable_allTeams.mp hclaimable
    refine (hleft hstatus).imp_left fun hagain => claimable_allTeams.mpr ⟨hagain, ?_, ?_, ?_⟩
    · exact h.ownerAgent.elim (fun heq => heq.trans (howner.trans hfree)) fun heq => heq
    · exact h.cronExpression.trans (hcron.trans hnoCron)
    · exact h.runAt.trans (hrunAt.trans hnoRunAt)

theorem SameClaim.turned_same {t u : Task} (h : SameClaim t u) (hrt : norm t = fromRow r)
    (hstatus : u.status = t.status) : Turned c s k r (toRow u) := by
  have hsame : u.status = r.status := hstatus.trans (congrArg Record.status hrt)
  exact h.turned hrt (fun hr => Or.inl (hsame.trans hr)) (fun hu => Or.inl (hsame.symm.trans hu))
    fun hr => Or.inl (hsame.trans hr)

theorem mem_undone_of_given {status : Status} (h : c.givenStatus = some (k, status))
    (hne : status ≠ .completed) : k ∈ s.undone c := by
  simp [undone, h, hne]

theorem mem_resumed_of_given (h : c.givenStatus = some (k, .pending))
    (hr : s.db.tasks.find k = some r) : fromRow r ∈ s.resumed c := by
  simp [resumed, h, hr]

theorem SameClaim.turned_given {t u : Task} (h : SameClaim t u) (hrt : norm t = fromRow r)
    (hr : s.db.tasks.find k = some r) {status : Status} (hgiven : c.givenStatus = some (k, status))
    (hvalid : status.valid = true) (hu : u.status = status) : Turned c s k r (toRow u) := by
  refine h.turned hrt (fun _ => ?_) (fun hpending => Or.inr ?_) fun _ => ?_
  · by_cases hdone : status = .completed
    · exact Or.inl (hu.trans hdone)
    · exact Or.inr (mem_undone_of_given hgiven hdone)
  · exact mem_resumed_of_given (hgiven.trans (by rw [← hu, hpending])) hr
  · rw [hu]
    cases status with
    | pending => exact Or.inl rfl
    | running => exact Or.inr (Or.inl rfl)
    | canceled => exact Or.inr (Or.inr (Or.inl rfl))
    | completed => exact Or.inr (Or.inr (Or.inr (Or.inl hgiven)))
    | failed => exact Or.inr (Or.inr (Or.inr (Or.inr (Or.inl hgiven))))
    | other => exact absurd hvalid Bool.false_ne_true

theorem outcome_claim (hr : r ∈ s.db.tasks.rows) (hpending : r.status = .pending)
    (owner token : Str) (clock : ℕ → ℤ) (k : Str) :
    Outcome c s k (s.db.tasks.find k) ((s.claim r owner token clock).db.tasks.find k) := by
  rw [find_claim hr hpending]
  split_ifs with hk
  · subst hk
    rw [Table.find_of_mem hr]
    refine .turned ⟨rfl, fun hdone => ?_, fun hp => ?_, fun _ => Or.inr (Or.inl rfl)⟩
    · exact absurd (hpending.symm.trans hdone) (by simp)
    · exact Status.noConfusion hp
  · exact .same _

theorem outcome_revert (hr : r ∈ s.db.tasks.rows) (hpending : r.status = .pending)
    {owner token : Str} {clock : ℕ → ℤ} (hs : Alike (s.claim r owner token clock) s') (k : Str) :
    Outcome c s k (s.db.tasks.find k)
      ((s'.revert r.taskId (clock 2)).db.tasks.find k) := by
  rw [find_revert hr hpending hs]
  split_ifs with hk
  · subst hk
    rw [Table.find_of_mem hr]
    refine .turned ⟨rfl, fun hdone => ?_, fun _ => Or.inl hpending, fun hclaimable => Or.inl ?_⟩
    · exact absurd (hpending.symm.trans hdone) (by simp)
    · obtain ⟨-, -, hcron, hrunAt⟩ := claimable_allTeams.mp hclaimable
      exact claimable_allTeams.mpr ⟨rfl, rfl, hcron, hrunAt⟩
  · exact .same _

theorem Cached.outcome_dequeue (h : s.Cached) (team owner token : Str) (clock : ℕ → ℤ) (k : Str) :
    Outcome c s k (s.db.tasks.find k)
      ((s.dequeue team owner token clock).2.db.tasks.find k) := by
  rcases h.dequeue_cases team owner token clock with ⟨-, heq⟩ | ⟨r, -, hc, ⟨-, heq⟩ |
    ⟨-, t, s', hs, -, ⟨-, heq⟩ | ⟨-, heq⟩⟩⟩ <;> rw [heq]
  · exact .same _
  · obtain ⟨hr, hpending⟩ := pending_of_candidate hc
    exact outcome_claim hr hpending owner token clock k
  · obtain ⟨hr, hpending⟩ := pending_of_candidate hc
    rw [hs.db]
    exact outcome_claim hr hpending owner token clock k
  · obtain ⟨hr, hpending⟩ := pending_of_candidate hc
    exact outcome_revert hr hpending hs k

theorem outcome_resetOrphans (owner : Str) (clock : ℕ → ℤ) (k : Str) :
    Outcome ⟨.resetOrphans owner, clock⟩ s k (s.db.tasks.find k)
      ((s.resetOrphans owner clock).2.db.tasks.find k) := by
  unfold resetOrphans
  split_ifs with howner
  · exact .same _
  · dsimp only
    rw [Table.find_claimWhere]
    cases hr : s.db.tasks.find k with
    | none => exact .same _
    | some r =>
      refine .turned ?_
      dsimp only
      split_ifs with horphan
      · have hrunning : r.status = .running := by
          rw [Database.orphan, Bool.and_eq_true, decide_eq_true_eq] at horphan
          exact horphan.1
        refine ⟨rfl, fun hdone => ?_, fun _ => Or.inr ?_, fun hclaimable => ?_⟩
        · exact absurd (hrunning.symm.trans hdone) (by simp)
        · have hrow := (Table.mem_of_find hr).1
          simp only [resumed, List.mem_append]
          exact Or.inr (List.mem_map.mpr ⟨r, List.mem_filter.mpr ⟨hrow, horphan⟩, rfl⟩)
        · have hpending := (claimable_allTeams.mp hclaimable).1
          exact absurd (hrunning.symm.trans hpending) (by simp)
      · exact turned_refl r

theorem outcome_deleteIds {ids : List Str} (h : ∀ k ∈ ids, k ∈ s.removed c) (k : Str) :
    Outcome c s k (s.db.tasks.find k) ((s.db.deleteIds ids).tasks.find k) := by
  rw [Database.find_deleteIds]
  split_ifs with hk
  · exact .removed _ (h k hk)
  · exact .same _

theorem Cached.outcome_submit (h : s.Cached) (t : Task) (clock : ℕ → ℤ) (k : Str) :
    Outcome ⟨.submit t, clock⟩ s k (s.db.tasks.find k)
      ((s.submit t clock).2.db.tasks.find k) := by
  have hreaped : (s.reapedFor ⟨.submit t, clock⟩).Cached := h.deleteIds _
  have hreap : Outcome ⟨.submit t, clock⟩ s k (s.db.tasks.find k)
      ((s.reapedFor ⟨.submit t, clock⟩).db.tasks.find k) := outcome_deleteIds (fun _ hk => hk) k
  unfold Store.submit
  simp only
  split
  · exact hreap
  · next hnone =>
    obtain ⟨-, hfind, -⟩ := hreaped.insertNew hnone (clock 3)
    have hadded : s.added ⟨.submit t, clock⟩ =
        some ((s.reapedFor ⟨.submit t, clock⟩).placed (prepare t clock) (clock 3)) :=
      if_pos (Option.isNone_iff_eq_none.mpr hnone)
    refine (congrArg (Outcome _ _ _ _) (hfind k)).mpr ?_
    split_ifs with hk
    · exact .replaced hadded hk.symm
    · exact hreap

/-- **What an operation does to a row.** -/
theorem Cached.outcome (h : s.Cached) (c : Call) (k : Str) :
    Outcome c s k (s.db.tasks.find k) ((s.step c).2.db.tasks.find k) := by
  obtain ⟨op, clock⟩ := c
  cases op with
  | submit t => exact h.outcome_submit t clock k
  | get taskId =>
    rcases h.getTask_cases taskId with ⟨-, hg⟩ | ⟨t, r, -, -, -, -, hs⟩
    · rw [show (s.step ⟨.get taskId, clock⟩).2 = s from congrArg Prod.snd hg]
      exact .same _
    · exact hs.outcome k
  | updateStatus taskId status lastResult lastError retryCount =>
    change Outcome _ _ _ _ ((s.updateStatus taskId status lastResult lastError retryCount
      clock).2.db.tasks.find k)
    rcases h.updateStatus_cases taskId status lastResult lastError retryCount clock with
      ⟨-, heq⟩ | ⟨t, r, s', hsees, hr, hrt, hs, heq⟩ <;> rw [heq]
    · exact .same _
    · split_ifs with hvalid
      · have hgiven : (Call.mk (.updateStatus taskId status lastResult lastError retryCount)
            clock).givenStatus = some (taskId, status) := if_pos hvalid
        have hsame : SameClaim t (updated t status lastResult lastError retryCount (clock 0)) :=
          ⟨rfl, rfl, rfl, Or.inl rfl, rfl, rfl⟩
        exact outcome_put hs hsees hr hrt hsame (hsame.turned_given hrt hr hgiven hvalid rfl) k
      · exact hs.outcome k
  | cancel taskId =>
    refine h.outcome_withTask (fun t r s' hs hsees hr hrt k => ?_) k
    dsimp only
    split_ifs with hdone
    · exact hs.outcome k
    · have hstatus : t.status = r.status := congrArg Record.status hrt
      rw [hstatus, not_or] at hdone
      rcases hs.cached.updateStatus_cases taskId .canceled none [] none clock with
        ⟨-, heq⟩ | ⟨t', r', s'', -, hr', hrt', hs'', heq⟩ <;> rw [heq]
      · exact hs.outcome k
      · rw [hs.db, hr] at hr'
        obtain rfl := Option.some.inj hr'
        have hsame : SameClaim t' (updated t' .canceled none [] none (clock 0)) :=
          ⟨rfl, rfl, rfl, Or.inl rfl, rfl, rfl⟩
        refine outcome_put (hs.trans hs'') hsees hr hrt' hsame ?_ k
        exact hsame.turned hrt' (fun hc => absurd hc hdone.1) (fun hp => Status.noConfusion hp)
          fun _ => Or.inr (Or.inr (Or.inl rfl))
  | rerun taskId =>
    refine h.outcome_write (fun t => rerunning t (clock 0)) (fun _ _ => rfl)
      (fun _ => ⟨rfl, rfl, rfl, Or.inl rfl, rfl, rfl⟩) (fun t r hsame hr hrt => ?_) k
    have hgiven : (Call.mk (.rerun taskId) clock).givenStatus = some (taskId, .pending) := rfl
    exact hsame.turned_given hrt hr hgiven rfl rfl
  | addArtifacts taskId artifactIds =>
    refine h.outcome_write (fun t => { t with
      artifactIds := artifactIds.foldl
        (fun ids aid => if aid ≠ [] ∧ aid ∉ ids then ids ++ [aid] else ids) t.artifactIds
      updatedAt := clock 0 }) (fun _ _ => rfl)
      (fun _ => ⟨rfl, rfl, rfl, Or.inl rfl, rfl, rfl⟩) (fun t r hsame hr hrt => ?_) k
    exact hsame.turned_same hrt rfl
  | setEvidence taskId evidenceRef =>
    refine h.outcome_write (fun t => { t with evidenceRef, updatedAt := clock 0 }) (fun _ _ => rfl)
      (fun _ => ⟨rfl, rfl, rfl, Or.inl rfl, rfl, rfl⟩) (fun t r hsame hr hrt => ?_) k
    exact hsame.turned_same hrt rfl
  | setReviewState taskId state =>
    change Outcome _ _ _ _ ((s.setReviewState taskId state clock).2.db.tasks.find k)
    unfold setReviewState
    split_ifs
    · refine h.outcome_write (fun t => { t with reviewState := state, updatedAt := clock 0 })
        (fun _ _ => rfl) (fun _ => ⟨rfl, rfl, rfl, Or.inl rfl, rfl, rfl⟩)
        (fun t r hsame hr hrt => ?_) k
      exact hsame.turned_same hrt rfl
    · exact .same _
  | claimLease taskId leaseId =>
    refine h.outcome_write (fun t => { t with resourceLeaseId := leaseId, updatedAt := clock 0 })
      (fun _ _ => rfl) (fun _ => ⟨rfl, rfl, rfl, Or.inl rfl, rfl, rfl⟩)
      (fun t r hsame hr hrt => ?_) k
    exact hsame.turned_same hrt rfl
  | delete | reapExpired => exact outcome_deleteIds (fun _ hk => hk) k
  | dequeue team owner token => exact h.outcome_dequeue team owner token clock k
  | requeue taskId actor reason =>
    refine h.outcome_write (fun t => requeued t (clock 0)) (fun _ _ => rfl)
      (fun _ => ⟨rfl, rfl, rfl, Or.inr rfl, rfl, rfl⟩) (fun t r hsame hr hrt => ?_) k
    have hgiven : (Call.mk (.requeue taskId actor reason) clock).givenStatus =
        some (taskId, .pending) := rfl
    exact hsame.turned_given hrt hr hgiven rfl rfl
  | resetOrphans owner => exact outcome_resetOrphans owner clock k
  | moveTask taskId toStatus toReview actor reason =>
    change Outcome _ _ _ _ ((s.moveTask taskId toStatus toReview actor reason
      clock).2.db.tasks.find k)
    rcases h.moveTask_checks taskId toStatus toReview actor reason clock with
      ⟨-, heq⟩ | ⟨t, r, s', hsees, hr, hrt, hs, heq⟩ <;> rw [heq]
    · exact .same _
    · split_ifs with hstatus hreview
      · exact hs.outcome k
      · exact hs.outcome k
      · have hsame : SameClaim t (moved t toStatus toReview (clock 0)) :=
          ⟨rfl, rfl, rfl, Or.inl rfl, rfl, rfl⟩
        refine outcome_put hs hsees hr hrt hsame ?_ k
        by_cases hempty : toStatus = .empty
        · exact hsame.turned_same hrt (if_neg (not_not.mpr hempty))
        · have hvalid : toStatus.valid = true := by simpa [hempty] using hstatus
          have hreview' : toReview = .empty ∨ toReview.valid = true := by
            by_cases hnone : toReview = .empty
            · exact Or.inl hnone
            · exact Or.inr (by simpa [hnone] using hreview)
          have hgiven : (Call.mk (.moveTask taskId toStatus toReview actor reason)
              clock).givenStatus = some (taskId, toStatus) := if_pos ⟨hvalid, hreview'⟩
          exact hsame.turned_given hrt hr hgiven hvalid (if_pos hempty)

end Store

/-! ### Completed tasks are seen -/

namespace Store

variable {s s' : Store} {k : Str}

/-- A completed task is never lost from the cache of an eager store. -/
def SeesCompleted (s : Store) : Prop := ∀ k, s.db.completed k = true → s.sees k = true

theorem completed_iff_find {db : Database} :
    db.completed k = true ↔ ∃ r, db.tasks.find k = some r ∧ r.status = .completed := by
  unfold Database.completed
  cases db.tasks.find k <;> simp

namespace SeesCompleted

theorem deleteIds (h : s.SeesCompleted) (ids : List Str) :
    ({ s with db := s.db.deleteIds ids, cache := popAll ids s.cache } : Store).SeesCompleted := by
  intro k hk
  obtain ⟨r, hr, hdone⟩ := completed_iff_find.mp hk
  rw [Database.find_deleteIds] at hr
  split_ifs at hr with hmem
  rw [sees_deleteIds, h k (completed_iff_find.mpr ⟨r, hr, hdone⟩)]
  simp [hmem]

theorem claimWhere (h : s.SeesCompleted) {p : Row → Bool} {c : Claim} {ids : List Str}
    {db : Database} (hdb : db.tasks = s.db.tasks.claimWhere p c) (hc : c.status ≠ .completed)
    (hp : ∀ r ∈ s.db.tasks.rows, r.taskId ∈ ids → p r = true ∨ r.status ≠ .completed) :
    ({ s with db, cache := popAll ids s.cache } : Store).SeesCompleted := by
  intro k hk
  obtain ⟨x, hx, hdone⟩ := completed_iff_find.mp hk
  rw [hdb, Table.find_claimWhere, Option.map_eq_some_iff] at hx
  obtain ⟨r, hr, rfl⟩ := hx
  split_ifs at hdone with hpr
  · exact absurd hdone hc
  · obtain ⟨hmem, rfl⟩ := Table.mem_of_find hr
    have hout : r.taskId ∉ ids := fun hin => (hp r hmem hin).elim hpr fun hne => hne hdone
    rw [sees_claimWhere s ids hdb, h r.taskId (completed_iff_find.mpr ⟨r, hr, hdone⟩)]
    simp [hout]

theorem claim (h : s.SeesCompleted) {r : Row} (hr : r ∈ s.db.tasks.rows)
    (hpending : r.status = .pending) (owner token : Str) (clock : ℕ → ℤ) :
    (s.claim r owner token clock).SeesCompleted := by
  refine h.claimWhere rfl (fun hrunning => Status.noConfusion hrunning) fun x hx hid => Or.inr ?_
  obtain rfl := List.inj_on_of_nodup_map s.db.tasks.nodup hx hr (List.mem_singleton.mp hid)
  simp [hpending]

theorem alike (h : s.SeesCompleted) (hs : Alike s s') : s'.SeesCompleted := by
  intro k hk
  rw [hs.sees]
  exact h k (hs.db ▸ hk)

theorem revert {r : Row} (hr : r ∈ s.db.tasks.rows) (hpending : r.status = .pending)
    {owner token : Str} {clock : ℕ → ℤ} (hs : Alike (s.claim r owner token clock) s')
    (h : s'.SeesCompleted) : (s'.revert r.taskId (clock 2)).SeesCompleted := by
  refine h.claimWhere rfl (fun hp => Status.noConfusion hp) fun x hx hid => Or.inl ?_
  have hx : s'.db.tasks.find r.taskId = some x := by
    rw [← List.mem_singleton.mp hid]
    exact Table.find_of_mem hx
  rw [hs.db, find_claim hr hpending, if_pos rfl] at hx
  rw [← Option.some.inj hx]
  simp [claimed, Claim.set]

theorem dequeue (hs : s.Cached) (h : s.SeesCompleted) (team owner token : Str)
    (clock : ℕ → ℤ) : (s.dequeue team owner token clock).2.SeesCompleted := by
  rcases hs.dequeue_cases team owner token clock with ⟨-, heq⟩ | ⟨r, -, hc, ⟨-, heq⟩ |
    ⟨-, t, s', hs', -, ⟨-, heq⟩ | ⟨-, heq⟩⟩⟩ <;> rw [heq]
  · exact h
  · obtain ⟨hr, hpending⟩ := pending_of_candidate hc
    exact h.claim hr hpending owner token clock
  · obtain ⟨hr, hpending⟩ := pending_of_candidate hc
    exact (h.claim hr hpending owner token clock).alike hs'
  · obtain ⟨hr, hpending⟩ := pending_of_candidate hc
    exact revert hr hpending hs' ((h.claim hr hpending owner token clock).alike hs')

theorem resetOrphans (h : s.SeesCompleted) (owner : Str) (clock : ℕ → ℤ) :
    (s.resetOrphans owner clock).2.SeesCompleted := by
  unfold Store.resetOrphans
  split_ifs
  · exact h
  · refine h.claimWhere rfl (fun hp => Status.noConfusion hp) fun r hr hid => Or.inl ?_
    obtain ⟨x, hx, hxr⟩ := List.mem_map.mp hid
    obtain ⟨hmem, horphan⟩ := List.mem_filter.mp hx
    exact List.inj_on_of_nodup_map s.db.tasks.nodup hmem hr hxr ▸ horphan

theorem submit (hs : s.Cached) (h : s.SeesCompleted) (t : Task) (clock : ℕ → ℤ) :
    (s.submit t clock).2.SeesCompleted := by
  have hreaped : (s.reapExpired (clock 2)).2.Cached := hs.deleteIds _
  have hreap : (s.reapExpired (clock 2)).2.SeesCompleted := h.deleteIds _
  unfold Store.submit
  simp only
  split
  · next r hr =>
    have hmem : r ∈ (s.reapExpired (clock 2)).2.db.tasks.rows := by
      unfold Database.duplicate at hr
      split_ifs at hr
      exact List.mem_of_find?_eq_some hr
    intro k hk
    refine ((hreaped.fill hmem rfl).2 k).trans ?_
    rw [hreap k hk, Bool.or_true]
  · next hnone =>
    obtain ⟨-, hfind, hsees⟩ := hreaped.insertNew hnone (clock 3)
    intro k hk
    obtain ⟨r, hr, hdone⟩ := completed_iff_find.mp hk
    rw [hfind] at hr
    rw [hsees]
    split_ifs at hr with hnew
    · simp [hnew]
    · rw [hreap k (completed_iff_find.mpr ⟨r, hr, hdone⟩), Bool.or_true]

theorem step (hs : s.Cached) (h : s.SeesCompleted) (c : Call) : (s.step c).2.SeesCompleted := by
  cases hc : c.op.single with
  | true =>
    obtain ⟨id, hid⟩ := Option.isSome_iff_exists.mp hc
    have hchanged := hs.changed hid
    intro k hk
    obtain ⟨r', hr', hdone⟩ := completed_iff_find.mp hk
    rw [hchanged.sees]
    rcases hchanged.row with hsame | ⟨r, t, hsees, -, -, hrow⟩
    · exact h k (completed_iff_find.mpr ⟨r', hsame k ▸ hr', hdone⟩)
    · rw [hrow] at hr'
      split_ifs at hr' with hk
      · exact hk ▸ hsees
      · exact h k (completed_iff_find.mpr ⟨r', hr', hdone⟩)
  | false =>
    obtain ⟨op, clock⟩ := c
    cases op with
    | submit t => exact h.submit hs t clock
    | delete taskId => exact h.deleteIds [taskId]
    | reapExpired => exact h.deleteIds _
    | dequeue team owner token => exact h.dequeue hs team owner token clock
    | resetOrphans owner => exact h.resetOrphans owner clock
    | _ => exact Bool.noConfusion hc

end SeesCompleted

theorem depsLoop_of_completed (hs : s.Cached) (h : s.SeesCompleted) {ds : List Str}
    (hds : ∀ d ∈ ds, s.db.completed d = true) : (depsLoop ds s).1 = true := by
  induction ds generalizing s with
  | nil => rfl
  | cons d ds ih =>
    have hd := hds d List.mem_cons_self
    rw [depsLoop]
    rcases hs.getTask_cases d with ⟨hsees, -⟩ | ⟨t, r, -, hr, hrt, hg, hs'⟩
    · rw [h d hd] at hsees
      exact Bool.noConfusion hsees
    · rw [show s.getTask d = (some t, (s.getTask d).2) from Prod.ext hg rfl]
      obtain ⟨x, hx, hdone⟩ := completed_iff_find.mp hd
      obtain rfl := Option.some.inj (hr.symm.trans hx)
      have hstatus : t.status = .completed := (congrArg Record.status hrt).trans hdone
      simp only [hstatus, if_true]
      refine ih hs'.cached (h.alike hs') fun e he => ?_
      rw [hs'.db]
      exact hds e (List.mem_cons_of_mem d he)

theorem depsMet_of_completed (hs : s.Cached) (h : s.SeesCompleted) {r : Row}
    (hr : s.db.tasks.find k = some r)
    (hdeps : ∀ d ∈ loadTexts r.dependsOn, s.db.completed d = true) : (s.depsMet k).1 = true := by
  unfold depsMet
  rcases hs.withTask_cases k true fun t s => depsLoop t.dependsOn s with
    ⟨-, heq⟩ | ⟨t, x, s', -, hx, htx, hs', heq⟩ <;> rw [heq]
  obtain rfl := Option.some.inj (hr.symm.trans hx)
  have hsame : t.dependsOn = loadTexts r.dependsOn := congrArg Record.dependsOn htx
  refine depsLoop_of_completed hs'.cached (h.alike hs') fun d hd => ?_
  rw [hs'.db]
  exact hdeps d (hsame ▸ hd)

end Store

/-! ### Runs -/

namespace Watched

/-- The invariant: a dependency of a pending task is completed if it has been. -/
structure Invariant (w : Watched) : Prop where
  cached : w.store.Cached
  seesCompleted : w.store.SeesCompleted
  recorded : ∀ d, w.store.db.completed d = true → d ∈ w.done
  met : ∀ k r, w.store.db.tasks.find k = some r → r.status = .pending →
    ∀ d ∈ loadTexts r.dependsOn, d ∈ w.done → w.store.db.completed d = true

variable {c : Call} {w : Watched} {k : Str}

theorem mem_completedIds {db : Database} {d : Str} :
    d ∈ db.completedIds ↔ db.completed d = true := by
  rw [Database.completed_iff, Database.completedIds, List.mem_map]
  simp only [List.mem_filter, decide_eq_true_eq]
  exact ⟨fun ⟨r, ⟨hr, hdone⟩, hid⟩ => ⟨r, hr, hid, hdone⟩,
    fun ⟨r, hr, hid, hdone⟩ => ⟨r, ⟨hr, hdone⟩, hid⟩⟩

theorem completed_step (h : w.store.Cached) {d : Str} (hd : w.store.db.completed d = true)
    (hnot : d ∉ w.store.undone c) : (w.step c).2.store.db.completed d = true := by
  obtain ⟨r, hr, hdone⟩ := Store.completed_iff_find.mp hd
  have houtcome := h.outcome c d
  rw [hr] at houtcome
  refine Store.completed_iff_find.mpr ?_
  change ∃ r', (w.store.step c).2.db.tasks.find d = some r' ∧ _
  generalize (w.store.step c).2.db.tasks.find d = y at houtcome
  cases houtcome with
  | same => exact ⟨r, rfl, hdone⟩
  | removed _ hmem => exact absurd (List.mem_append_left _ (List.mem_append_left _ hmem)) hnot
  | turned hturned => exact ⟨_, rfl, (hturned.completed hdone).resolve_right hnot⟩
  | @replaced _ t hadded hid =>
    refine ⟨_, rfl, ?_⟩
    by_contra hne
    have hne : t.status ≠ .completed := hne
    refine hnot (List.mem_append_left _ (List.mem_append_right _ ?_))
    exact List.mem_map.mpr ⟨t, List.mem_filter.mpr ⟨by simp [hadded], by simpa using hne⟩, hid⟩

theorem pending_step (h : w.store.Cached) {r' : Row}
    (hr' : (w.step c).2.store.db.tasks.find k = some r') (hpending : r'.status = .pending) :
    ∃ t ∈ w.store.pendingTasks ++ w.store.resumed c, t.dependsOn = loadTexts r'.dependsOn := by
  have hwas (r : Row) (hr : w.store.db.tasks.find k = some r) (hp : r.status = .pending) :
      fromRow r ∈ w.store.pendingTasks ++ w.store.resumed c :=
    List.mem_append_left _ (List.mem_map.mpr
      ⟨r, List.mem_filter.mpr ⟨(Table.mem_of_find hr).1, by simpa using hp⟩, rfl⟩)
  have houtcome := h.outcome c k
  rw [show (w.store.step c).2.db.tasks.find k = some r' from hr'] at houtcome
  generalize hx : w.store.db.tasks.find k = x at houtcome
  cases houtcome with
  | same => exact ⟨_, hwas r' hx hpending, rfl⟩
  | @turned r _ hturned =>
    refine ⟨fromRow r, ?_, hturned.dependsOn.symm⟩
    exact (hturned.pending hpending).elim (hwas r hx) (List.mem_append_right _)
  | @replaced _ t hadded hid =>
    have hpending : t.status = .pending := hpending
    refine ⟨t, List.mem_append_right _ ?_, (loadTexts_dumpTexts _).symm⟩
    refine List.mem_append_left _ (List.mem_append_left _ ?_)
    exact List.mem_filter.mpr ⟨by simp [hadded], by simpa using hpending⟩

/-- **One operation** that is safe keeps the invariant. -/
theorem Invariant.step (h : w.Invariant) (hsafe : DepSafe c w) : (w.step c).2.Invariant := by
  refine ⟨h.cached.step c, h.seesCompleted.step h.cached c, fun d hd => ?_,
    fun k r' hr' hpending d hd hdone => ?_⟩
  · exact List.mem_append_right _ (mem_completedIds.mpr hd)
  · rcases List.mem_append.mp hdone with hdone | hdone
    · obtain ⟨t, ht, hdeps⟩ := pending_step h.cached hr' hpending
      obtain ⟨hcompleted, hnot⟩ := hsafe.keeps t ht d (hdeps ▸ hd) hdone
      exact completed_step h.cached hcompleted hnot
    · exact mem_completedIds.mp hdone

theorem waits_step (h : w.Invariant) (hsafe : DepSafe c w)
    (hw : ∃ r, w.store.db.tasks.find k = some r ∧ w.Waits r) :
    (w.step c).2.store.Taken k ∨
      ∃ r, (w.step c).2.store.db.tasks.find k = some r ∧ (w.step c).2.Waits r := by
  obtain ⟨r, hr, hwaits⟩ := hw
  obtain ⟨hmem, rfl⟩ := Table.mem_of_find hr
  have hdiverts := hsafe.diverts r hmem hwaits
  have houtcome := h.cached.outcome c r.taskId
  rw [hr] at houtcome
  unfold Store.Taken
  change (∀ x, (w.store.step c).2.db.tasks.find r.taskId = some x → _) ∨
    ∃ x, (w.store.step c).2.db.tasks.find r.taskId = some x ∧ _
  generalize (w.store.step c).2.db.tasks.find r.taskId = y at houtcome
  have hdone (x : Row) (hx : loadTexts x.dependsOn = loadTexts r.dependsOn) :
      ∀ d ∈ loadTexts x.dependsOn, d ∈ (w.step c).2.done := fun d hd =>
    List.mem_append_left _ (hwaits.2 d (hx ▸ hd))
  cases houtcome with
  | same => exact Or.inr ⟨r, rfl, hwaits.1, hdone r rfl⟩
  | removed => exact Or.inl fun x hx => absurd hx.symm (Option.some_ne_none x)
  | @turned _ r' hturned =>
    rcases hturned.claimable hwaits.1 with hagain | hrunning | hcanceled | hdiverted
    · exact Or.inr ⟨r', rfl, hagain, hdone r' hturned.dependsOn⟩
    · exact Or.inl fun x hx => Or.inl (Option.some.inj hx ▸ hrunning)
    · exact Or.inl fun x hx => Or.inr (Option.some.inj hx ▸ hcanceled)
    · exact absurd hdiverted hdiverts
  | replaced hadded hid =>
    exact absurd (Or.inr (Or.inr (by simp [hadded, hid]))) hdiverts

theorem claimable_of_waits (h : w.Invariant)
    (hw : ∃ r, w.store.db.tasks.find k = some r ∧ w.Waits r) : w.store.Claimable k := by
  obtain ⟨r, hr, hclaimable, hdone⟩ := hw
  have hpending := (claimable_allTeams.mp hclaimable).1
  refine ⟨by simp [hr, hclaimable], ?_⟩
  exact Store.depsMet_of_completed h.cached h.seesCompleted hr fun d hd =>
    h.met k r hr hpending d hd (hdone d hd)

end Watched

namespace Watched

theorem invariant_open (m : Bool) (T : Table) (history : List HistoryRow) (index : List IndexRow)
    (ttl : ℤ) : (Watched.open m T history index ttl).Invariant where
  cached := Store.cached_open m T history index ttl
  seesCompleted := fun k hk => by
    obtain ⟨r, hr, -⟩ := Store.completed_iff_find.mp hk
    exact Store.sees_open m T history index ttl hr
  recorded := fun _ hd => mem_completedIds.mpr hd
  met := fun _ _ _ _ _ _ hdone => mem_completedIds.mp hdone

theorem staysClaimable_of_invariant {calls : List Call} {w : Watched} (h : w.Invariant)
    (hsafe : Along Watched.step DepSafe calls w) : StaysClaimable calls w := by
  intro n id r hr hwaits
  rw [← List.take_append_drop n calls, along_append] at hsafe
  have hn := run_invariant (fun _ _ hw hs => Invariant.step hw hs) (calls.take n) h hsafe.1
  exact holdsUntil_of_invariant (fun _ _ hw hs => Invariant.step hw hs)
    (fun _ _ hw hs => waits_step hw hs) (fun _ hw => claimable_of_waits hw) (calls.drop n) hn
    hsafe.2 ⟨r, hr, hwaits⟩

end Watched

/-- **A task that waits stays claimable** until it is claimed, canceled or deleted, in every run
whose operations are safe. -/
theorem claimable_until_taken (m : Bool) (T : Table) (history : List HistoryRow)
    (index : List IndexRow) (ttl : ℤ) (calls : List Call)
    (h : Along Watched.step DepSafe calls (Watched.open m T history index ttl)) :
    StaysClaimable calls (Watched.open m T history index ttl) :=
  Watched.staysClaimable_of_invariant (Watched.invariant_open m T history index ttl) h

namespace Watched

/-- A task `b` that depends on a task `a`: both are submitted, and `a` is done. -/
def twoTasks : List Call :=
  [⟨.submit { Task.default with taskId := "a" }, fun _ => 1⟩,
    ⟨.submit { Task.default with taskId := "b", dependsOn := ["a"] }, fun _ => 2⟩,
    ⟨.dequeue [] "w" "x", fun _ => 3⟩,
    ⟨.updateStatus "a" .completed none [] none, fun _ => 4⟩]

end Watched

/-- Two tasks are done one after the other. -/
theorem claimable_until_taken_twoTasks :
    StaysClaimable (Watched.twoTasks ++ [⟨.reapExpired, fun _ => 5⟩,
        ⟨.dequeue [] "w".toList "y".toList, fun _ => 6⟩])
      (Watched.open true Table.empty [] [] 10) :=
  claimable_until_taken true Table.empty [] [] 10 _ (by decide)

/-- Tasks do not stay claimable in every run: the task `a` is reaped before `b` is claimed. -/
theorem not_claimable_until_taken :
    ¬ ∀ (m : Bool) (T : Table) (history : List HistoryRow) (index : List IndexRow) (ttl : ℤ)
        (calls : List Call), StaysClaimable calls (Watched.open m T history index ttl) := by
  intro h
  let w := (run Watched.step Watched.twoTasks (Watched.open true Table.empty [] [] 10)).2
  let reap : Call := ⟨.reapExpired, fun _ => 100⟩
  have hwaiting : (w.store.db.tasks.find "b").any (fun r => w.Waits r) = true := by decide
  obtain ⟨r, hr, hwaits⟩ := (Option.any_eq_true _ _).mp hwaiting
  have hstays : HoldsUntil Watched.step (fun w => w.store.Claimable "b")
      (fun w => w.store.Taken "b") [reap] w :=
    h true Table.empty [] [] 10 (Watched.twoTasks ++ [reap]) 4 "b" r hr
      (of_decide_eq_true hwaits)
  have hnot : ¬ (w.step reap).2.store.Claimable "b" := by decide
  have hpending : ((w.step reap).2.store.db.tasks.find "b").any
      (fun r => r.status = .pending) = true := by decide
  obtain ⟨x, hx, hp⟩ := (Option.any_eq_true _ _).mp hpending
  rcases (hstays.2.resolve_right hnot) x hx with hrunning | hcanceled
  · simp [hrunning] at hp
  · simp [hcanceled] at hp

end AgentStudio.Tasks

import AgentStudio.Tasks.View

/-!
# The history of a task

`task_history` has a row for each change of a task's status and review state that `dequeue`,
`requeue`, `move_task` or `reset_orphans` makes. Its rows should lead from the state in which a
task was submitted to the state in which it is (`Linked`, `Chained`).

Only `move_task` writes the state that it found. The other operations write a review state `none`,
and `requeue` a status `failed`, whatever they find; and the revert of a claim changes the status
without a row. `chained_throughout_iff` says of a whole run when the rows are linked nevertheless
(`HistorySafe`), and `not_chained` is a claim that is taken back.

The state of a task is the one that is read from its row, where an empty review state is `none`.
-/

namespace AgentStudio.Tasks

open PyText PyDict PyJson Machine

/-! ### Rows of the history -/

abbrev Moment := Status × ReviewState

def ReviewState.read (r : ReviewState) : ReviewState := if r = .empty then .none else r

def Row.moment (r : Row) : Moment := (r.status, r.reviewState.read)

def HistoryRow.start (h : HistoryRow) : Moment := (h.fromStatus, h.fromReview.read)

def HistoryRow.target (h : HistoryRow) : Moment := (h.toStatus, h.toReview.read)

/-- The rows lead from one state to another. -/
def Linked : Moment → List HistoryRow → Moment → Prop
  | m, [], m' => m = m'
  | m, h :: hs, m' => h.start = m ∧ Linked h.target hs m'

instance : ∀ m hs m', Decidable (Linked m hs m')
  | m, [], m' => inferInstanceAs (Decidable (m = m'))
  | _, h :: hs, m' =>
    have : Decidable (Linked h.target hs m') := instDecidableLinked h.target hs m'
    inferInstanceAs (Decidable (_ ∧ _))

theorem linked_snoc {m m' : Moment} {hs : List HistoryRow} (h : Linked m hs m') (row : HistoryRow)
    (m'' : Moment) : Linked m (hs ++ [row]) m'' ↔ row.start = m' ∧ row.target = m'' := by
  induction hs generalizing m with
  | nil =>
    obtain rfl : m = m' := h
    rfl
  | cons a hs ih => exact (and_iff_right h.1).trans (ih h.2)

def Database.historyOf (db : Database) (id : Str) : List HistoryRow :=
  db.history.filter (·.taskId = id)

/-! ### Runs of the audited operations -/

/-- The operations that keep a history, and those that create and read tasks. -/
def Op.audited : Op → Bool
  | .submit _ | .get _ | .dequeue _ _ _ | .requeue _ _ _ | .moveTask _ _ _ _ _
  | .resetOrphans _ => true
  | _ => false

/-- An audited operation with the readings of the clock that it makes. -/
abbrev AuditedCall := { c : Call // c.op.audited = true }

/-- A store, and the state in which each task was submitted. -/
structure Audit where
  store : Store
  submitted : Str → Moment

namespace Audit

variable (a : Audit)

def submittedBy (c : Call) : Str → Moment :=
  match c.op with
  | .submit t =>
    let s := (a.store.reapExpired (c.clock 2)).2
    let t := Store.prepare t c.clock
    if (s.db.duplicate t).isNone then
      Function.update a.submitted (s.givenId t (c.clock 3)) (Row.moment (toRow t))
    else a.submitted
  | _ => a.submitted

def step (c : AuditedCall) (a : Audit) : Result × Audit :=
  ((a.store.step c).1, ⟨(a.store.step c).2, a.submittedBy c⟩)

/-- The history of every stored task leads from the state in which it was submitted to the one
in which it is. -/
def Chained : Prop :=
  ∀ id r, a.store.db.tasks.find id = some r →
    Linked (a.submitted id) (a.store.db.historyOf id) r.moment

/-- The condition on an operation: a new task has no history that its own state does not
continue, a claimed or reset task has no review state and is not taken back, and a task that is
queued again has failed. -/
def HistorySafe (c : AuditedCall) (a : Audit) : Prop :=
  match c.1.op with
  | .submit t =>
    let s := (a.store.reapExpired (c.1.clock 2)).2
    let t := Store.prepare t c.1.clock
    s.db.duplicate t = none →
      Linked (Row.moment (toRow t)) (s.db.historyOf (s.givenId t (c.1.clock 3)))
        (Row.moment (toRow t))
  | .dequeue team owner _ =>
    owner = [] ∨ ∀ r, a.store.db.candidate (orDefault "default" team) = some r →
      r.reviewState.read = .none ∧ (a.store.lazyLoad = true → a.store.db.depsCompleted r = true)
  | .requeue taskId _ _ =>
    a.store.sees taskId = true → ∀ r, a.store.db.tasks.find taskId = some r →
      r.moment = (.failed, .none)
  | .resetOrphans owner =>
    owner = [] ∨ ∀ r ∈ a.store.db.tasks.rows, Database.orphan owner r = true →
      r.reviewState.read = .none
  | _ => True

namespace Chained

variable {a b : Audit}

theorem snoc_iff (h : a.Chained) {r r' : Row} {row : HistoryRow}
    (hr : a.store.db.tasks.find row.taskId = some r)
    (hfind : ∀ k, b.store.db.tasks.find k =
      if k = row.taskId then some r' else a.store.db.tasks.find k)
    (hhist : b.store.db.history = a.store.db.history ++ [row])
    (hsub : b.submitted = a.submitted) :
    b.Chained ↔ row.start = r.moment ∧ row.target = r'.moment := by
  have hother : ∀ id, id ≠ row.taskId →
      b.store.db.historyOf id = a.store.db.historyOf id := fun id hid => by
    simp [Database.historyOf, hhist, Ne.symm hid]
  have hown : b.store.db.historyOf row.taskId =
      a.store.db.historyOf row.taskId ++ [row] := by
    simp [Database.historyOf, hhist]
  have hlinked := linked_snoc (h row.taskId r hr) row r'.moment
  rw [← hown, ← hsub] at hlinked
  rw [← hlinked]
  refine ⟨fun h' => h' row.taskId r' (by rw [hfind, if_pos rfl]), fun hnew id x hx => ?_⟩
  rw [hfind] at hx
  split_ifs at hx with hid
  · obtain rfl := Option.some.inj hx
    exact hid ▸ hnew
  · rw [hsub, hother id hid]
    exact h id x hx

theorem deleteIds (h : a.Chained) (ids : List Str) :
    Chained ⟨{ a.store with
      db := a.store.db.deleteIds ids, cache := Store.popAll ids a.store.cache }, a.submitted⟩ := by
  intro id r hr
  rw [Database.deleteIds, Table.find_deleteWhere, Option.filter_eq_some_iff] at hr
  exact h id r hr.1

/-! ### One operation -/

theorem congr_db {s s' : Store} (hdb : s'.db = s.db) (sub : Str → Moment) :
    Chained ⟨s', sub⟩ ↔ Chained ⟨s, sub⟩ := by
  simp only [Chained, hdb]

theorem dequeue_iff (hs : a.store.Cached) (h : a.Chained) (team owner token : Str)
    (clock : ℕ → ℤ) :
    Chained ⟨(a.store.dequeue team owner token clock).2, a.submitted⟩ ↔
      (owner = [] ∨ ∀ r, a.store.db.candidate (orDefault "default" team) = some r →
        r.reviewState.read = .none ∧
          (a.store.lazyLoad = true → a.store.db.depsCompleted r = true)) := by
  rcases hs.dequeue_cases team owner token clock with ⟨hnone, heq⟩ | ⟨r, howner, hc, hcases⟩
  · rw [heq]
    refine iff_of_true h (hnone.imp_right fun hc r hr => ?_)
    rw [hc] at hr
    exact absurd hr (by simp)
  · obtain ⟨hr, hpending⟩ := Store.pending_of_candidate hc
    have hrow := Table.find_of_mem hr
    have hclaim : Chained ⟨a.store.claim r owner token clock, a.submitted⟩ ↔
        r.reviewState.read = .none := by
      refine (h.snoc_iff (b := ⟨a.store.claim r owner token clock, a.submitted⟩) hrow
        (Store.find_claim hr hpending owner token clock) rfl rfl).trans ?_
      simp [HistoryRow.start, HistoryRow.target, Row.moment, Store.claimed, Claim.set, hpending,
        ReviewState.read, eq_comm]
    have hsafe : (owner = [] ∨ ∀ x, some r = some x → x.reviewState.read = .none ∧
        (a.store.lazyLoad = true → a.store.db.depsCompleted x = true)) ↔
        r.reviewState.read = .none ∧
          (a.store.lazyLoad = true → a.store.db.depsCompleted r = true) := by
      simp [howner]
    rw [hc, hsafe]
    rcases hcases with ⟨heager, heq⟩ | ⟨hlazy, t, s', hs', -, ⟨hdeps, heq⟩ | ⟨hdeps, heq⟩⟩ <;>
      rw [heq]
    · simp [hclaim, heager]
    · rw [congr_db hs'.db]
      simp [hclaim, hdeps]
    · -- the claim has left a row that ends in `running`
      refine iff_of_false (fun hchained => ?_) fun hx => by simp [hdeps, hlazy] at hx
      have hlast := (h.snoc_iff (b := ⟨s'.revert r.taskId (clock 2), a.submitted⟩) hrow
        (Store.find_revert hr hpending hs') (congrArg (fun db : Database => db.history) hs'.db)
        rfl).mp hchained
      exact Status.noConfusion (congrArg Prod.fst hlast.2)

theorem putWith_iff (h : a.Chained) {taskId : Str} {s' : Store} (hs : Store.Alike a.store s')
    {t u : Task} {r : Row} (hsees : a.store.sees taskId = true)
    (hr : a.store.db.tasks.find taskId = some r) (hrt : norm t = fromRow r)
    (hid : u.taskId = t.taskId) (hkey : u.idempotencyKey = t.idempotencyKey) {row : HistoryRow}
    (hrow : row.taskId = taskId) :
    Chained ⟨s'.putWith taskId u row, a.submitted⟩ ↔
      row.start = r.moment ∧ row.target = Row.moment (toRow u) := by
  subst hrow
  obtain ⟨-, hfind, -⟩ := hs.cached.put (hs.db ▸ hr) hrt hid hkey ((hs.sees _).trans hsees)
  rw [hs.db] at hfind
  exact h.snoc_iff (b := ⟨s'.putWith row.taskId u row, a.submitted⟩) hr hfind
    (by rw [← hs.db]; rfl) rfl

theorem requeue_iff (hs : a.store.Cached) (h : a.Chained) (taskId actor reason : Str)
    (clock : ℕ → ℤ) :
    Chained ⟨(a.store.requeue taskId actor reason clock).2, a.submitted⟩ ↔
      (a.store.sees taskId = true → ∀ r, a.store.db.tasks.find taskId = some r →
        r.moment = (.failed, .none)) := by
  rcases hs.requeue_cases taskId actor reason clock with
    ⟨hsees, heq⟩ | ⟨t, r, s', hsees, hr, hrt, hs', heq⟩ <;> rw [heq]
  · exact iff_of_true h fun hseen => by simp [hsees] at hseen
  · have hreview : t.reviewState.read = r.reviewState.read := congrArg Record.reviewState hrt
    rw [h.putWith_iff (u := Store.requeued t (clock 0)) hs' hsees hr hrt rfl rfl rfl]
    simp only [hsees, hr, Option.some.injEq, forall_const, forall_eq']
    change (Status.failed, ReviewState.none) = r.moment ∧
      (Status.pending, ReviewState.none) = (Status.pending, t.reviewState.read) ↔ _
    rw [hreview, Row.moment, Prod.mk.injEq, Prod.mk.injEq, Prod.mk.injEq]
    grind

theorem moveTask (hs : a.store.Cached) (h : a.Chained) (taskId : Str) (toStatus : Status)
    (toReview : ReviewState) (actor reason : Str) (clock : ℕ → ℤ) :
    Chained ⟨(a.store.moveTask taskId toStatus toReview actor reason clock).2, a.submitted⟩ := by
  rcases hs.moveTask_cases taskId toStatus toReview actor reason clock with
    ⟨s', hs', heq⟩ | ⟨t, r, s', hsees, hr, hrt, hs', heq⟩ <;> rw [heq]
  · exact (congr_db hs'.db _).mpr h
  · rw [h.putWith_iff (u := Store.moved t toStatus toReview (clock 0)) hs' hsees hr hrt rfl rfl rfl]
    exact ⟨Prod.ext (congrArg Record.status hrt) (congrArg Record.reviewState hrt), rfl⟩

private theorem filter_mapIdx {ids : List Str} (hids : ids.Nodup) (f : ℕ → Str → HistoryRow)
    (hf : ∀ i id, (f i id).taskId = id) (id : Str) :
    (ids.mapIdx f).filter (·.taskId = id) = if id ∈ ids then [f (ids.idxOf id) id] else [] := by
  induction ids generalizing f with
  | nil => rfl
  | cons x ids ih =>
    rw [List.nodup_cons] at hids
    rw [List.mapIdx_cons, List.filter_cons, ih hids.2 (fun i => f (i + 1)) fun i => hf (i + 1)]
    by_cases hx : x = id
    · subst hx
      simp [hf, hids.1]
    · simp [hf, hx, Ne.symm hx, List.idxOf_cons_ne]

theorem resetOrphans_iff (h : a.Chained) (owner : Str) (clock : ℕ → ℤ) :
    Chained ⟨(a.store.resetOrphans owner clock).2, a.submitted⟩ ↔
      (owner = [] ∨ ∀ r ∈ a.store.db.tasks.rows, Database.orphan owner r = true →
        r.reviewState.read = .none) := by
  by_cases howner : owner = []
  · rw [Store.resetOrphans, if_pos howner]
    exact iff_of_true h (Or.inl howner)
  rw [Store.resetOrphans, if_neg howner, or_iff_right howner]
  have hids : (a.store.db.orphanIds owner).Nodup :=
    a.store.db.tasks.nodup.sublist (List.filter_sublist.map _)
  have hmem : ∀ r ∈ a.store.db.tasks.rows,
      (r.taskId ∈ a.store.db.orphanIds owner ↔ Database.orphan owner r = true) := fun r hr => by
    rw [Database.orphanIds, List.mem_map]
    constructor
    · rintro ⟨x, hx, hid⟩
      obtain ⟨hxr, ho⟩ := List.mem_filter.mp hx
      exact List.inj_on_of_nodup_map a.store.db.tasks.nodup hxr hr hid ▸ ho
    · exact fun ho => ⟨r, List.mem_filter.mpr ⟨hr, ho⟩, rfl⟩
  generalize hs' : (Prod.snd _ : Store) = s'
  have hfind : ∀ k, s'.db.tasks.find k = (a.store.db.tasks.find k).map fun r =>
      if Database.orphan owner r then (⟨.pending, [], [], clock 0, none⟩ : Claim).set r else r :=
    fun k => hs' ▸ Table.find_claimWhere _ _ k
  have hhist : ∀ id, s'.db.historyOf id = a.store.db.historyOf id ++
      if id ∈ a.store.db.orphanIds owner then [⟨id, .running, .pending, .none, .none, owner,
        "orphan reset", clock ((a.store.db.orphanIds owner).idxOf id + 1)⟩] else [] :=
    fun id => by
      rw [← hs', Database.historyOf, List.filter_append, filter_mapIdx hids _ fun _ _ => rfl]
      rfl
  have hlinked : ∀ r ∈ a.store.db.tasks.rows,
      (∀ x, s'.db.tasks.find r.taskId = some x →
        Linked (a.submitted r.taskId) (s'.db.historyOf r.taskId) x.moment) ↔
      (Database.orphan owner r = true → r.reviewState.read = .none) := fun r hr => by
    have hrow := Table.find_of_mem hr
    rw [hfind, hrow, hhist]
    cases ho : Database.orphan owner r with
    | false =>
      have hnot : r.taskId ∉ a.store.db.orphanIds owner :=
        fun hin => by simp [(hmem r hr).mp hin] at ho
      simpa [ho, hnot] using h r.taskId r hrow
    | true =>
      have hrunning : r.status = .running := by
        simp only [Database.orphan, Bool.and_eq_true, decide_eq_true_eq] at ho
        exact ho.1
      simp only [ho, if_true, (hmem r hr).mpr ho, Option.map_some, Option.some.injEq, forall_eq',
        linked_snoc (h r.taskId r hrow), forall_const]
      simp [HistoryRow.start, HistoryRow.target, Row.moment, Claim.set, hrunning, ReviewState.read,
        eq_comm]
  constructor
  · exact fun hchained r hr => (hlinked r hr).mp fun x hx => hchained r.taskId x hx
  · intro hsafe id x hx
    have hx' := hx
    rw [hfind] at hx'
    obtain ⟨r, hr, -⟩ := Option.map_eq_some_iff.mp hx'
    obtain ⟨hmem, rfl⟩ := Table.mem_of_find hr
    exact (hlinked r hmem).mpr (hsafe r hmem) x hx

theorem insert_iff {s : Store} (hs : s.Cached) {sub : Str → Moment} (h : Chained ⟨s, sub⟩)
    {t : Task} (hfresh : s.db.duplicate t = none) (now : ℤ) :
    Chained ⟨(s.insert t now).2,
        Function.update sub (s.givenId t now) (Row.moment (toRow t))⟩ ↔
      Linked (Row.moment (toRow t)) (s.db.historyOf (s.givenId t now)) (Row.moment (toRow t)) := by
  obtain ⟨-, hfind, -⟩ := hs.insertNew hfresh now
  have hhist : (s.insert t now).2.db.history = s.db.history := by
    rw [Store.insert_eq, Store.indexTask_history]
    rfl
  simp only [Chained, Database.historyOf, hhist] at h ⊢
  constructor
  · intro hchained
    have hnew := hchained (s.givenId t now) _ ((hfind _).trans (if_pos rfl))
    rw [Function.update_self] at hnew
    exact hnew
  · intro hlinked id x hx
    rw [hfind] at hx
    split_ifs at hx with hid
    · obtain rfl := Option.some.inj hx
      rw [hid, Function.update_self]
      exact hlinked
    · rw [Function.update_of_ne hid]
      exact h id x hx

/-- **One operation.** The histories stay linked exactly if it is safe. -/
theorem step_iff (hs : a.store.Cached) (h : a.Chained) (c : AuditedCall) :
    (Audit.step c a).2.Chained ↔ HistorySafe c a := by
  obtain ⟨⟨op, clock⟩, hc⟩ := c
  cases op with
  | submit t =>
    have hreap : Chained ⟨(a.store.reapExpired (clock 2)).2, a.submitted⟩ := h.deleteIds _
    have hreaped : (a.store.reapExpired (clock 2)).2.Cached := hs.deleteIds _
    change Chained ⟨(a.store.submit t clock).2, _⟩ ↔ (_ → _)
    unfold Store.submit submittedBy
    simp only
    generalize (a.store.reapExpired (clock 2)).2 = s at hreap hreaped
    generalize Store.prepare t clock = t
    cases hd : s.db.duplicate t with
    | some r => exact iff_of_true hreap fun hnone => by simp at hnone
    | none => simpa using hreap.insert_iff hreaped hd (clock 3)
  | get taskId =>
    refine iff_of_true ?_ trivial
    rcases hs.getTask_cases taskId with ⟨-, hg⟩ | ⟨t, r, -, -, -, -, hs'⟩
    · exact (congr_db (congrArg (Store.db ∘ Prod.snd) hg) _).mpr h
    · exact (congr_db hs'.db _).mpr h
  | dequeue team owner token => exact h.dequeue_iff hs team owner token clock
  | requeue taskId actor reason => exact h.requeue_iff hs taskId actor reason clock
  | moveTask taskId toStatus toReview actor reason =>
    exact iff_of_true (h.moveTask hs taskId toStatus toReview actor reason clock) trivial
  | resetOrphans owner => exact h.resetOrphans_iff owner clock
  | _ => exact Bool.noConfusion hc

end Chained

end Audit

/-! ### Every run -/

/-- **The audit trail.** In a run of the audited operations over any database, the histories of
all stored tasks are linked in every state exactly if they are so at the start and every operation
is safe. -/
theorem chained_throughout_iff (m : Bool) (T : Table) (history : List HistoryRow)
    (index : List IndexRow) (ttl : ℤ) (submitted : Str → Moment) (calls : List AuditedCall) :
    let a : Audit := ⟨Store.open m T history index ttl, submitted⟩
    (∀ n, (run Audit.step (calls.take n) a).2.Chained) ↔
      a.Chained ∧ Along Audit.step Audit.HistorySafe calls a :=
  run_throughout_iff (J := fun a => a.store.Cached) (fun c _ hs => hs.step c)
    (fun c _ hs h => h.step_iff hs c) calls (Store.cached_open m T history index ttl)

/-- A claim that is taken back leaves a history that ends in `running`. -/
theorem not_chained :
    ¬ ∀ (m : Bool) (submitted : Str → Moment) (calls : List AuditedCall),
      (run Audit.step calls ⟨Store.open m Table.empty [] [] 0, submitted⟩).2.Chained := by
  intro hall
  let t : Task := { Task.default with taskId := "b", dependsOn := ["a"] }
  let calls : List AuditedCall := [⟨⟨.submit t, fun _ => 1⟩, rfl⟩,
    ⟨⟨.dequeue [] "w" "x", fun _ => 2⟩, rfl⟩]
  have hchained := hall true (fun _ => (.pending, .none)) calls
  have hbroken : ((run Audit.step calls ⟨Store.open true Table.empty [] [] 0,
      fun _ => (.pending, .none)⟩).2.store.db.tasks.find "b").any fun r =>
        !decide (Linked (.pending, .none)
          ((run Audit.step calls ⟨Store.open true Table.empty [] [] 0,
          fun _ => (.pending, .none)⟩).2.store.db.historyOf "b") r.moment) := by decide
  obtain ⟨r, hr, hnot⟩ := (Option.any_eq_true _ _).mp hbroken
  have hsub : (run Audit.step calls ⟨Store.open true Table.empty [] [] 0,
      fun _ => (.pending, .none)⟩).2.submitted "b" = (.pending, .none) := by decide
  have hlinked := hchained _ r hr
  rw [hsub] at hlinked
  rw [Bool.not_eq_true', decide_eq_false_iff_not] at hnot
  exact hnot hlinked

end AgentStudio.Tasks

import AgentStudio.Tasks.Record
import Mathlib.Data.List.Pairwise

/-!
# The task database

The tables behind a task store, with the SQL statements of `agent_runtime/task_store.py` as
operations on them. `Table` is the table `tasks` with its primary key and its unique index on
the non-empty idempotency keys as fields, so that no statement can break them: `upsert` is
`INSERT OR REPLACE`, `claimWhere` the `UPDATE` of the claim columns, `deleteWhere` a `DELETE`.
Rows stand in the order of their row ids.

`selectFirst` is `ORDER BY priority DESC, created_at ASC LIMIT 1`.
-/

namespace AgentStudio.Tasks

open PyText PyJson

/-! ### The table `tasks` -/

/-- Two rows do not share a non-empty idempotency key. -/
def KeysDiffer (a b : Row) : Prop := a.idempotencyKey = [] ∨ a.idempotencyKey ≠ b.idempotencyKey

instance (a b : Row) : Decidable (KeysDiffer a b) := inferInstanceAs (Decidable (_ ∨ _))

theorem KeysDiffer.symm {a b : Row} (h : KeysDiffer a b) : KeysDiffer b a := by
  rcases h with h | h
  · rcases eq_or_ne b.idempotencyKey [] with hb | hb
    · exact Or.inl hb
    · exact Or.inr fun heq => hb (heq.trans h)
  · exact Or.inr (Ne.symm h)

/-- The table `tasks`: task ids are distinct, and so are non-empty idempotency keys. -/
structure Table where
  rows : List Row
  nodup : (rows.map Record.taskId).Nodup
  unique : rows.Pairwise KeysDiffer

structure Claim where
  status : Status
  ownerAgent : Str
  attemptToken : Str
  updatedAt : ℤ
  lastRunAt : Option ℤ

def Claim.set (c : Claim) (r : Row) : Row :=
  { r with
    status := c.status
    ownerAgent := c.ownerAgent
    attemptToken := c.attemptToken
    updatedAt := c.updatedAt
    lastRunAt := c.lastRunAt.getD r.lastRunAt }

namespace Table

variable (T : Table)

def empty : Table := ⟨[], List.nodup_nil, List.Pairwise.nil⟩

/-- `SELECT ... WHERE task_id = ?`. -/
def find (taskId : Str) : Option Row := T.rows.find? (·.taskId = taskId)

/-- `DELETE FROM tasks WHERE ...`. -/
def deleteWhere (p : Row → Bool) : Table where
  rows := T.rows.filter fun r => !p r
  nodup := T.nodup.sublist (List.filter_sublist.map _)
  unique := T.unique.sublist List.filter_sublist

/-- `UPDATE tasks SET ... WHERE ...` on the claim columns. -/
def claimWhere (p : Row → Bool) (c : Claim) : Table where
  rows := T.rows.map fun r => if p r then c.set r else r
  nodup := by
    have hid : (Record.taskId ∘ fun r => if p r then c.set r else r) = Record.taskId := by
      funext r
      simp only [Function.comp]
      split_ifs <;> rfl
    rw [List.map_map, hid]
    exact T.nodup
  unique := by
    refine List.pairwise_map.mpr (T.unique.imp fun {a b} h => ?_)
    simp only [KeysDiffer] at h ⊢
    split_ifs <;> exact h

/-- The rows that `INSERT OR REPLACE` keeps. -/
def keeps (r x : Row) : Bool := x.taskId ≠ r.taskId && decide (KeysDiffer r x)

/-- `INSERT OR REPLACE INTO tasks`. -/
def upsert (r : Row) : Table where
  rows := T.rows.filter (keeps r) ++ [r]
  nodup := by
    rw [List.map_append, List.nodup_append]
    refine ⟨T.nodup.sublist (List.filter_sublist.map _), by simp, ?_⟩
    rintro k hk k' hk' rfl
    obtain ⟨x, hx, rfl⟩ := List.mem_map.mp hk
    have hkeep := (List.mem_filter.mp hx).2
    simp only [keeps, Bool.and_eq_true, decide_eq_true_eq] at hkeep
    exact hkeep.1 (by simpa using hk')
  unique := by
    rw [List.pairwise_append]
    refine ⟨T.unique.sublist List.filter_sublist, List.pairwise_singleton _ _, ?_⟩
    intro x hx y hy
    obtain rfl := List.mem_singleton.mp hy
    have hkeep := (List.mem_filter.mp hx).2
    simp only [keeps, Bool.and_eq_true, decide_eq_true_eq] at hkeep
    exact hkeep.2.symm

variable {T}

/-! ### What the statements do to a row -/

theorem mem_of_find {k : Str} {r : Row} (h : T.find k = some r) : r ∈ T.rows ∧ r.taskId = k :=
  ⟨List.mem_of_find?_eq_some h, by simpa using List.find?_some h⟩

theorem find_of_mem {r : Row} (h : r ∈ T.rows) : T.find r.taskId = some r := by
  have hinj := List.inj_on_of_nodup_map T.nodup
  cases hf : T.find r.taskId with
  | none => simpa using List.find?_eq_none.mp hf r h
  | some x => rw [hinj (mem_of_find hf).1 h (mem_of_find hf).2]

theorem find_eq_some_iff {k : Str} {r : Row} : T.find k = some r ↔ r ∈ T.rows ∧ r.taskId = k :=
  ⟨mem_of_find, fun h => h.2 ▸ find_of_mem h.1⟩

theorem find_eq_none_iff {k : Str} : T.find k = none ↔ ∀ r ∈ T.rows, r.taskId ≠ k := by
  simp [find]

theorem eq_of_idempotencyKey {a b : Row} (ha : a ∈ T.rows) (hb : b ∈ T.rows)
    (hkey : a.idempotencyKey ≠ []) (h : a.idempotencyKey = b.idempotencyKey) : a = b := by
  by_contra hne
  have : Std.Symm KeysDiffer := ⟨fun _ _ => KeysDiffer.symm⟩
  rcases T.unique.forall ha hb hne with h' | h'
  · exact hkey h'
  · exact h' h

@[simp] theorem find_deleteWhere (p : Row → Bool) (k : Str) :
    (T.deleteWhere p).find k = (T.find k).filter fun r => !p r := by
  cases hf : T.find k with
  | none =>
    refine find_eq_none_iff.mpr fun r hr => ?_
    exact find_eq_none_iff.mp hf r (List.mem_filter.mp hr).1
  | some r =>
    obtain ⟨hr, rfl⟩ := mem_of_find hf
    cases hp : p r with
    | true =>
      simp only [Option.filter_some, hp, Bool.not_true, Bool.false_eq_true, if_false]
      refine find_eq_none_iff.mpr fun x hx heq => ?_
      obtain ⟨hx, hpx⟩ := List.mem_filter.mp hx
      rw [List.inj_on_of_nodup_map T.nodup hx hr heq, hp] at hpx
      exact Bool.noConfusion hpx
    | false =>
      simp only [Option.filter_some, hp, Bool.not_false, if_true]
      exact find_eq_some_iff.mpr ⟨List.mem_filter.mpr ⟨hr, by simp [hp]⟩, rfl⟩

@[simp] theorem find_claimWhere (p : Row → Bool) (c : Claim) (k : Str) :
    (T.claimWhere p c).find k = (T.find k).map fun r => if p r then c.set r else r := by
  have hid : ∀ r : Row, (if p r then c.set r else r).taskId = r.taskId := fun r => by
    split_ifs <;> rfl
  cases hf : T.find k with
  | none =>
    refine find_eq_none_iff.mpr fun r hr => ?_
    obtain ⟨x, hx, rfl⟩ := List.mem_map.mp hr
    rw [hid]
    exact find_eq_none_iff.mp hf x hx
  | some r =>
    obtain ⟨hr, rfl⟩ := mem_of_find hf
    exact find_eq_some_iff.mpr ⟨List.mem_map.mpr ⟨r, hr, rfl⟩, hid r⟩

theorem find_upsert {r : Row} (hkey : ∀ x ∈ T.rows, x.taskId ≠ r.taskId → KeysDiffer r x)
    (k : Str) : (T.upsert r).find k = if k = r.taskId then some r else T.find k := by
  split_ifs with h
  · exact find_eq_some_iff.mpr ⟨by simp [upsert], h.symm⟩
  · cases hf : T.find k with
    | none =>
      refine find_eq_none_iff.mpr fun x hx => ?_
      rcases mem_snoc.mp hx with hx | rfl
      · exact find_eq_none_iff.mp hf x (List.mem_filter.mp hx).1
      · exact Ne.symm h
    | some x =>
      obtain ⟨hx, rfl⟩ := mem_of_find hf
      refine find_eq_some_iff.mpr ⟨List.mem_append_left _ (List.mem_filter.mpr ⟨hx, ?_⟩), rfl⟩
      simp [keeps, h, hkey x hx h]

end Table

/-! ### Selecting a row to claim -/

/-- The order `priority DESC, created_at ASC`. -/
def Before (a b : Row) : Prop :=
  b.priority < a.priority ∨ a.priority = b.priority ∧ a.createdAt < b.createdAt

instance (a b : Row) : Decidable (Before a b) := inferInstanceAs (Decidable (_ ∨ _))

/-- `ORDER BY priority DESC, created_at ASC LIMIT 1`. -/
def selectFirst : List Row → Option Row
  | [] => none
  | r :: rs =>
    match selectFirst rs with
    | none => some r
    | some x => if Before x r then some x else some r

/-- The rows that a worker of a team may claim: pending, without owner, and not scheduled. -/
def claimable (team : Str) (r : Row) : Bool :=
  (team = "*" || r.team = team) && r.status = .pending && r.ownerAgent = []
    && r.cronExpression = [] && r.runAt = 0

theorem selectFirst_eq_none_iff {rs : List Row} : selectFirst rs = none ↔ rs = [] := by
  cases rs with
  | nil => simp [selectFirst]
  | cons r rs =>
    rw [selectFirst]
    split
    · simp
    · split_ifs <;> simp

theorem selectFirst_spec {rs : List Row} {r : Row} (h : selectFirst rs = some r) :
    r ∈ rs ∧ ∀ x ∈ rs, ¬ Before x r := by
  have htrans : ∀ a b c : Row, ¬ Before a b → ¬ Before b c → ¬ Before a c := by
    intro a b c hab hbc
    simp only [Before] at hab hbc ⊢
    omega
  induction rs generalizing r with
  | nil => simp [selectFirst] at h
  | cons a rs ih =>
    rw [selectFirst] at h
    cases hs : selectFirst rs with
    | none =>
      rw [hs] at h
      obtain rfl := Option.some.inj h
      rw [selectFirst_eq_none_iff.mp hs]
      simp [Before]
    | some x =>
      rw [hs] at h
      obtain ⟨hx, hleast⟩ := ih hs
      simp only at h
      split_ifs at h with hb <;> obtain rfl := Option.some.inj h
      · refine ⟨List.mem_cons_of_mem _ hx, fun y hy => ?_⟩
        rcases List.mem_cons.mp hy with rfl | hy
        · simp only [Before] at hb ⊢
          omega
        · exact hleast y hy
      · refine ⟨List.mem_cons_self, fun y hy => ?_⟩
        rcases List.mem_cons.mp hy with rfl | hy
        · simp [Before]
        · exact htrans y x _ (hleast y hy) hb

/-! ### The other tables -/

/-- A row of `task_history`. -/
structure HistoryRow where
  taskId : Str
  fromStatus : Status
  toStatus : Status
  fromReview : ReviewState
  toReview : ReviewState
  actor : Str
  reason : Str
  ts : ℤ

/-- A row of `idempotency_index`. -/
structure IndexRow where
  idempotencyKey : Str
  taskId : Str
  createdAt : ℤ

/-- The database, with the counter of generated ids, the flag of the last submit and the
lifetime of finished tasks. -/
structure Database where
  tasks : Table
  history : List HistoryRow
  index : List IndexRow
  idSeq : ℕ
  lastSubmitDeduped : Bool
  ttl : ℤ

namespace Database

variable (db : Database)

/-- `_append_history`. -/
def appendHistory (h : HistoryRow) : Database := { db with history := db.history ++ [h] }

/-- `_save_task`. -/
def saveTask (t : Task) : Database := { db with tasks := db.tasks.upsert (toRow t) }

/-- The row that `_find_by_idempotency_key` reads. -/
def findByIdempotencyKey (key : Str) : Option Row :=
  db.tasks.rows.find? (·.idempotencyKey = key)

/-- `INSERT OR IGNORE INTO idempotency_index`. -/
def indexInsert (r : IndexRow) : Database :=
  if db.index.any (·.idempotencyKey = r.idempotencyKey) then db
  else { db with index := db.index ++ [r] }

/-- The finished rows older than the lifetime. -/
def expired (now : ℤ) (r : Row) : Bool :=
  (r.status = .completed || r.status = .failed || r.status = .canceled)
    && decide (0 < r.createdAt) && decide (r.createdAt < now - db.ttl)

/-- The tasks that `reap_expired` deletes; none without a lifetime. -/
def expiredIds (now : ℤ) : List Str :=
  if db.ttl ≤ 0 then [] else (db.tasks.rows.filter (db.expired now)).map Record.taskId

/-- `DELETE FROM tasks WHERE task_id = ?`, for some ids. -/
def deleteIds (ids : List Str) : Database :=
  { db with tasks := db.tasks.deleteWhere (·.taskId ∈ ids) }

/-- The stored row that a submitted task repeats. -/
def duplicate (t : Task) : Option Row :=
  if t.idempotencyKey = [] then none else db.findByIdempotencyKey t.idempotencyKey

/-- The candidate of a claim: the first claimable row. -/
def candidate (team : Str) : Option Row := selectFirst (db.tasks.rows.filter (claimable team))

def orphan (owner : Str) (r : Row) : Bool := r.status = .running && r.ownerAgent = owner

/-- The tasks that `reset_orphans` resets. -/
def orphanIds (owner : Str) : List Str := (db.tasks.rows.filter (orphan owner)).map Record.taskId

end Database

end AgentStudio.Tasks

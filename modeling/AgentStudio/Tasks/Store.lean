import AgentStudio.Tasks.Database
import AgentStudio.Library.Machine

/-!
# The task store

`TaskStore` of `agent_runtime/task_store.py` over a database: the tables, a cache of tasks and
the mode. In lazy mode a task that is not in the cache is read from its row (`getTask`); in
eager mode the cache is filled when the store is opened, and a task that is not in it does not
exist for the store.

Every operation that changes a task reads it with `getTask`, changes the cached object and
saves it (`put`); `withTask` is the common first half. `dequeue`, `resetOrphans` and
`reapExpired` change rows by SQL and drop the cached tasks.

An operation takes the readings of the clock that it makes, in order. `Op` collects the
operations, and `Store.step` runs one.
-/

namespace AgentStudio.Tasks

open PyText PyDict PyJson

structure Store where
  db : Database
  cache : List (Str × Task)
  lazyLoad : Bool

namespace Store

variable (s : Store)

/-- `TaskStore(db_path)`, on a database with a table of tasks. -/
def «open» (lazyLoad : Bool) (T : Table) (history : List HistoryRow) (index : List IndexRow)
    (ttl : ℤ) : Store where
  db := ⟨T, history, index, T.rows.length, false, ttl⟩
  cache := if lazyLoad then [] else T.rows.map fun r => (r.taskId, fromRow r)
  lazyLoad := lazyLoad

/-! ### Reading and writing one task -/

/-- `_get_task`, and `get`. -/
def getTask (taskId : Str) : Option Task × Store :=
  match s.cache.lookup taskId with
  | some t => (some t, s)
  | none =>
    if s.lazyLoad then
      match s.db.tasks.find taskId with
      | some r => (some (fromRow r), { s with cache := setItem taskId (fromRow r) s.cache })
      | none => (none, s)
    else (none, s)

/-- The cached task changes and is saved. -/
def put (taskId : Str) (t : Task) : Store :=
  { s with cache := setItem taskId t s.cache, db := s.db.saveTask t }

/-- The operations on one task: nothing happens if it is missing. -/
def withTask {α : Type} (taskId : Str) (missing : α) (f : Task → Store → α × Store) : α × Store :=
  match s.getTask taskId with
  | (none, s) => (missing, s)
  | (some t, s) => f t s

/-- `update_status`. -/
def updateStatus (taskId : Str) (status : Status) (lastResult : Option Dict) (lastError : Str)
    (retryCount : Option ℤ) (clock : ℕ → ℤ) : Bool × Store :=
  s.withTask taskId false fun t s =>
    if status.valid then
      (true, s.put taskId
        { t with
          status := status
          updatedAt := clock 0
          lastRunAt := if status = .running then clock 0 else t.lastRunAt
          lastResult := lastResult.getD t.lastResult
          lastError := if lastError ≠ [] then lastError else t.lastError
          retryCount := retryCount.getD t.retryCount })
    else (false, s)

/-- `cancel`: a completed or canceled task is left alone. -/
def cancel (taskId : Str) (clock : ℕ → ℤ) : Bool × Store :=
  s.withTask taskId false fun t s =>
    if t.status = .completed ∨ t.status = .canceled then (false, s)
    else s.updateStatus taskId .canceled none [] none clock

/-- `rerun`. -/
def rerun (taskId : Str) (clock : ℕ → ℤ) : Option Task × Store :=
  s.withTask taskId none fun t s =>
    let t := { t with
      status := .pending, retryCount := t.retryCount + 1, lastError := [], updatedAt := clock 0 }
    (some t, s.put taskId t)

/-- `add_artifacts`: the new ids that are not empty, once each. -/
def addArtifacts (taskId : Str) (artifactIds : List Str) (clock : ℕ → ℤ) : Bool × Store :=
  s.withTask taskId false fun t s =>
    let ids := artifactIds.foldl
      (fun ids aid => if aid ≠ [] ∧ aid ∉ ids then ids ++ [aid] else ids) t.artifactIds
    (true, s.put taskId { t with artifactIds := ids, updatedAt := clock 0 })

/-- `set_evidence`. -/
def setEvidence (taskId evidenceRef : Str) (clock : ℕ → ℤ) : Bool × Store :=
  s.withTask taskId false fun t s =>
    (true, s.put taskId { t with evidenceRef, updatedAt := clock 0 })

/-- `set_review_state`. -/
def setReviewState (taskId : Str) (state : ReviewState) (clock : ℕ → ℤ) : Bool × Store :=
  if state.valid then
    s.withTask taskId false fun t s =>
      (true, s.put taskId { t with reviewState := state, updatedAt := clock 0 })
  else (false, s)

/-- `claim_lease`. -/
def claimLease (taskId leaseId : Str) (clock : ℕ → ℤ) : Bool × Store :=
  s.withTask taskId false fun t s =>
    (true, s.put taskId { t with resourceLeaseId := leaseId, updatedAt := clock 0 })

/-- `requeue`. -/
def requeue (taskId actor reason : Str) (clock : ℕ → ℤ) : Option Task × Store :=
  s.withTask taskId none fun t s =>
    let t := { t with
      status := .pending, ownerAgent := [], attemptToken := []
      retryCount := t.retryCount + 1, updatedAt := clock 0 }
    let s := s.put taskId t
    let row : HistoryRow := ⟨taskId, .failed, .pending, .none, .none,
      orDefault "task-executor" actor, orDefault "retry re-enqueue" reason, clock 1⟩
    (some t, { s with db := s.db.appendHistory row })

/-- `move_task`: an empty status or review state stays as it is. -/
def moveTask (taskId : Str) (toStatus : Status) (toReview : ReviewState) (actor reason : Str)
    (clock : ℕ → ℤ) : Option Task × Store :=
  s.withTask taskId none fun t s =>
    if toStatus ≠ .empty ∧ toStatus.valid = false then (none, s)
    else if toReview ≠ .empty ∧ toReview.valid = false then (none, s)
    else
      let t' := { t with
        status := if toStatus ≠ .empty then toStatus else t.status
        reviewState := if toReview ≠ .empty then toReview else t.reviewState
        updatedAt := clock 0
        lastRunAt := if toStatus = .running then clock 0 else t.lastRunAt }
      let s := s.put taskId t'
      let row : HistoryRow := ⟨taskId, t.status, t'.status, t.reviewState, t'.reviewState,
        orDefault "system" actor, reason, clock 1⟩
      (some t', { s with db := s.db.appendHistory row })

/-! ### Removing and adding tasks -/

def popAll (ids : List Str) (cache : List (Str × Task)) : List (Str × Task) :=
  ids.foldl (fun c id => pop id c) cache

/-- `delete`. -/
def delete (taskId : Str) : Bool × Store :=
  (s.db.tasks.rows.any (·.taskId = taskId),
    { s with cache := popAll [taskId] s.cache, db := s.db.deleteIds [taskId] })

/-- `reap_expired`. -/
def reapExpired (now : ℤ) : ℕ × Store :=
  let ids := s.db.expiredIds now
  (ids.length, { s with cache := popAll ids s.cache, db := s.db.deleteIds ids })

def newId (now : ℤ) (seq : ℕ) : Str :=
  "task_" ++ Nat.toDigits 10 (now.toNat / 1000) ++ '_' :: Nat.toDigits 10 seq

/-- A submitted task with its times, and with defaults for an invalid trigger or status. -/
def prepare (t : Task) (clock : ℕ → ℤ) : Task :=
  { t with
    createdAt := if t.createdAt = 0 then clock 0 else t.createdAt
    updatedAt := clock 1
    trigger := if t.trigger.valid then t.trigger else .immediate
    status := if t.status.valid then t.status else .pending }

def insert (t : Task) (now : ℤ) : Task × Store :=
  let seq := if t.taskId = [] then s.db.idSeq + 1 else s.db.idSeq
  let t := { t with taskId := if t.taskId = [] then newId now seq else t.taskId }
  let s := { s with db := { s.db with lastSubmitDeduped := false, idSeq := seq } }
  let s := s.put t.taskId t
  (t, if t.idempotencyKey = [] then s
    else { s with db := s.db.indexInsert ⟨t.idempotencyKey, t.taskId, t.createdAt⟩ })

/-- `submit`. -/
def submit (t : Task) (clock : ℕ → ℤ) : Task × Store :=
  let t := prepare t clock
  let s := (s.reapExpired (clock 2)).2
  match s.db.duplicate t with
  | some r =>
    (fromRow r,
      { s with
        cache := setItem r.taskId (fromRow r) s.cache
        db := { s.db with lastSubmitDeduped := true } })
  | none => s.insert t (clock 3)

/-! ### Claiming tasks -/

/-- The loop of `deps_met`. -/
def depsLoop : List Str → Store → Bool × Store
  | [], s => (true, s)
  | d :: ds, s =>
    match s.getTask d with
    | (some dep, s) => if dep.status = .completed then depsLoop ds s else (false, s)
    | (none, s) => (false, s)

/-- `deps_met`. -/
def depsMet (taskId : Str) : Bool × Store :=
  s.withTask taskId true fun t s => depsLoop t.dependsOn s

/-- The claim of a row: an `UPDATE`, a history row, and the cached task is dropped. -/
def claim (r : Row) (owner token : Str) (clock : ℕ → ℤ) : Store :=
  let tasks := s.db.tasks.claimWhere (fun x => x.taskId = r.taskId && x.status = .pending)
    ⟨.running, owner, token, clock 0, some (clock 0)⟩
  { s with
    db := { s.db with tasks }.appendHistory
      ⟨r.taskId, .pending, .running, .none, .none, owner, "dequeue claim", clock 1⟩
    cache := popAll [r.taskId] s.cache }

def revert (taskId : Str) (now : ℤ) : Store :=
  { s with
    db := { s.db with
      tasks := s.db.tasks.claimWhere (fun x => x.taskId = taskId && x.status = .running)
        ⟨.pending, [], [], now, none⟩ }
    cache := popAll [taskId] s.cache }

/-- `dequeue`: claim the first candidate, read it again, and revert the claim if a task that it
depends on is not completed. -/
def dequeue (team owner token : Str) (clock : ℕ → ℤ) : Option Task × Store :=
  if owner = [] then (none, s)
  else
    match s.db.candidate (orDefault "default" team) with
    | none => (none, s)
    | some r =>
      (s.claim r owner token clock).withTask r.taskId none fun t s =>
        match s.depsMet t.taskId with
        | (true, s) => (some t, s)
        | (false, s) => (none, s.revert r.taskId (clock 2))

/-- `reset_orphans`. -/
def resetOrphans (owner : Str) (clock : ℕ → ℤ) : ℕ × Store :=
  if owner = [] then (0, s)
  else
    let ids := s.db.orphanIds owner
    let rows := ids.mapIdx fun i id =>
      ⟨id, .running, .pending, .none, .none, owner, "orphan reset", clock (i + 1)⟩
    (ids.length,
      { s with
        cache := popAll ids s.cache
        db := { s.db with
          tasks := s.db.tasks.claimWhere (Database.orphan owner) ⟨.pending, [], [], clock 0, none⟩
          history := s.db.history ++ rows } })

end Store

/-! ### Operations -/

inductive Op where
  | submit (t : Task)
  | get (taskId : Str)
  | updateStatus (taskId : Str) (status : Status) (lastResult : Option Dict) (lastError : Str)
      (retryCount : Option ℤ)
  | cancel (taskId : Str)
  | rerun (taskId : Str)
  | addArtifacts (taskId : Str) (artifactIds : List Str)
  | setEvidence (taskId evidenceRef : Str)
  | setReviewState (taskId : Str) (state : ReviewState)
  | claimLease (taskId leaseId : Str)
  | delete (taskId : Str)
  | reapExpired
  | dequeue (team owner token : Str)
  | requeue (taskId actor reason : Str)
  | resetOrphans (owner : Str)
  | moveTask (taskId : Str) (toStatus : Status) (toReview : ReviewState) (actor reason : Str)

inductive Result where
  | task (t : Option Task)
  | flag (b : Bool)
  | count (n : ℕ)

/-- An operation with the readings of the clock that it makes. -/
structure Call where
  op : Op
  clock : ℕ → ℤ

def Store.step (c : Call) (s : Store) : Result × Store :=
  match c.op with
  | .submit t => (s.submit t c.clock).map (.task ∘ some) id
  | .get taskId => (s.getTask taskId).map .task id
  | .updateStatus taskId status lastResult lastError retryCount =>
    (s.updateStatus taskId status lastResult lastError retryCount c.clock).map .flag id
  | .cancel taskId => (s.cancel taskId c.clock).map .flag id
  | .rerun taskId => (s.rerun taskId c.clock).map .task id
  | .addArtifacts taskId artifactIds => (s.addArtifacts taskId artifactIds c.clock).map .flag id
  | .setEvidence taskId evidenceRef => (s.setEvidence taskId evidenceRef c.clock).map .flag id
  | .setReviewState taskId state => (s.setReviewState taskId state c.clock).map .flag id
  | .claimLease taskId leaseId => (s.claimLease taskId leaseId c.clock).map .flag id
  | .delete taskId => (s.delete taskId).map .flag id
  | .reapExpired => (s.reapExpired (c.clock 0)).map .count id
  | .dequeue team owner token => (s.dequeue team owner token c.clock).map .task id
  | .requeue taskId actor reason => (s.requeue taskId actor reason c.clock).map .task id
  | .resetOrphans owner => (s.resetOrphans owner c.clock).map .count id
  | .moveTask taskId toStatus toReview actor reason =>
    (s.moveTask taskId toStatus toReview actor reason c.clock).map .task id

end AgentStudio.Tasks

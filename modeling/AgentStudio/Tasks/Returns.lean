import AgentStudio.Tasks.Claimability

/-!
# Tasks that return to `pending`

`rerun`, `requeue`, `reset_orphans` and `move_task` return a task to `pending`, and a worker that
polls should get it in the end (`ReturnContract`). A task that is pending but has an owner is
never claimed; there should be none (`NoneStuck`).

`requeue` and `reset_orphans` clear the owner of a task, `rerun` and `move_task` leave it, and so
does an `update_status` to `pending`; `submit` stores whatever owner it is given.
`noneStuck_throughout_iff` says when none of them leaves a task stuck (`StuckSafe`).

A task without owner is claimed in the end if it is not scheduled, depends on no task that returns
with it, and no task that waits for another one is claimed before it (`Database.Foremost`).
`returns_throughout_iff` puts both together for a whole run, and `not_returnContract` is a failed
task that is rerun.
-/

namespace AgentStudio.Tasks

open PyText PyDict PyJson Machine

/-- The task that `rerun` writes. -/
def Store.rerunning (t : Task) (now : ℤ) : Task :=
  { t with
    status := .pending, retryCount := t.retryCount + 1, lastError := [], updatedAt := now }

/-! ### Pending tasks with an owner -/

def NoneStuck (s : Store) : Prop :=
  ∀ id r, s.db.tasks.find id = some r → r.status = .pending → r.ownerAgent = []

/-- If the store finds the task, its row has the property. -/
def Store.Row? (s : Store) (id : Str) (p : Row → Prop) : Prop :=
  s.sees id = true → ∀ r, s.db.tasks.find id = some r → p r

/-- The condition on an operation: it does not make a task pending that has an owner. -/
def StuckSafe (c : Call) (s : Store) : Prop :=
  match c.op with
  | .submit t =>
    let s := (s.reapExpired (c.clock 2)).2
    let t := Store.prepare t c.clock
    s.db.duplicate t = none → t.status = .pending → t.ownerAgent = []
  | .updateStatus taskId .pending _ _ _ => s.Row? taskId fun r => r.ownerAgent = []
  | .rerun taskId => s.Row? taskId fun r => r.ownerAgent = []
  | .moveTask taskId .pending toReview _ _ =>
    (toReview = .empty ∨ toReview.valid = true) → s.Row? taskId fun r => r.ownerAgent = []
  | _ => True

namespace NoneStuck

variable {s s' : Store}

theorem congr_find (h : ∀ id, s'.db.tasks.find id = s.db.tasks.find id) :
    NoneStuck s' ↔ NoneStuck s := by
  simp only [NoneStuck, h]

theorem alike (hs : Store.Alike s s') : NoneStuck s' ↔ NoneStuck s :=
  congr_find fun _ => by rw [hs.db]

theorem update_iff (h : NoneStuck s) {id : Str} {r : Row}
    (hfind : ∀ k, s'.db.tasks.find k = if k = id then some r else s.db.tasks.find k) :
    NoneStuck s' ↔ (r.status = .pending → r.ownerAgent = []) := by
  constructor
  · exact fun h' => h' id r (by rw [hfind, if_pos rfl])
  · intro hr k x hx
    rw [hfind] at hx
    split_ifs at hx with hk
    · exact Option.some.inj hx ▸ hr
    · exact h k x hx

theorem put_iff (h : NoneStuck s) (hs : Store.Alike s s') {id : Str} {t u : Task} {r : Row}
    (hsees : s.sees id = true) (hr : s.db.tasks.find id = some r) (hrt : norm t = fromRow r)
    (hid : u.taskId = t.taskId) (hkey : u.idempotencyKey = t.idempotencyKey) :
    NoneStuck (s'.put id u) ↔ (u.status = .pending → u.ownerAgent = []) := by
  obtain ⟨-, hfind, -⟩ := hs.cached.put (hs.db ▸ hr) hrt hid hkey ((hs.sees id).trans hsees)
  rw [hs.db] at hfind
  exact h.update_iff (r := toRow u) hfind

theorem put_same (h : NoneStuck s) (hs : Store.Alike s s') {id : Str} {t u : Task} {r : Row}
    (hsees : s.sees id = true) (hr : s.db.tasks.find id = some r) (hrt : norm t = fromRow r)
    (hid : u.taskId = t.taskId) (hkey : u.idempotencyKey = t.idempotencyKey)
    (hstatus : u.status = t.status) (howner : u.ownerAgent = t.ownerAgent) :
    NoneStuck (s'.put id u) := by
  refine (h.put_iff hs hsees hr hrt hid hkey).mpr fun hpending => ?_
  have htr : t.status = r.status := congrArg Record.status hrt
  have hto : t.ownerAgent = r.ownerAgent := congrArg Record.ownerAgent hrt
  rw [howner, hto]
  exact h id r hr (htr.symm.trans (hstatus.symm.trans hpending))

theorem withTask_iff (hs : s.Cached) (h : NoneStuck s) {α : Type} {id : Str} {missing : α}
    {f : Task → Store → α × Store} {p : Row → Prop}
    (hf : ∀ t r s', Store.Alike s s' → s.sees id = true → s.db.tasks.find id = some r →
      norm t = fromRow r → (NoneStuck (f t s').2 ↔ p r)) :
    NoneStuck (s.withTask id missing f).2 ↔ s.Row? id p := by
  rcases hs.withTask_cases id missing f with ⟨hsees, heq⟩ | ⟨t, r, s', hsees, hr, hrt, hs', heq⟩ <;>
    rw [heq]
  · exact iff_of_true h fun hseen => by simp [hsees] at hseen
  · rw [hf t r s' hs' hsees hr hrt]
    exact ⟨fun hp _ x hx => Option.some.inj (hr.symm.trans hx) ▸ hp, fun hp => hp hsees r hr⟩

theorem withTask (hs : s.Cached) (h : NoneStuck s) {α : Type} {id : Str} {missing : α}
    {f : Task → Store → α × Store}
    (hf : ∀ t r s', Store.Alike s s' → s.sees id = true → s.db.tasks.find id = some r →
      norm t = fromRow r → NoneStuck (f t s').2) :
    NoneStuck (s.withTask id missing f).2 :=
  (h.withTask_iff hs (p := fun _ => True) fun t r s' hs' hsees hr hrt =>
    iff_of_true (hf t r s' hs' hsees hr hrt) trivial).mpr fun _ _ _ => trivial

theorem claimWhere (h : NoneStuck s) {p : Row → Bool} {c : Claim}
    (hdb : s'.db.tasks = s.db.tasks.claimWhere p c) (hc : c.status = .pending → c.ownerAgent = []) :
    NoneStuck s' := fun id x hx => by
  rw [hdb, Table.find_claimWhere, Option.map_eq_some_iff] at hx
  obtain ⟨r, hr, rfl⟩ := hx
  split_ifs
  · exact hc
  · exact h id r hr

theorem submit_iff (hs : s.Cached) (h : NoneStuck s) (t : Task) (clock : ℕ → ℤ) :
    NoneStuck (s.submit t clock).2 ↔ StuckSafe ⟨.submit t, clock⟩ s := by
  have hreaped : (s.reapExpired (clock 2)).2.Cached := hs.deleteIds _
  have hreap : NoneStuck (s.reapExpired (clock 2)).2 := fun id r hr =>
    h id r (Option.filter_eq_some_iff.mp ((Table.find_deleteWhere _ _).symm.trans hr)).1
  simp only [StuckSafe, Store.submit]
  generalize (s.reapExpired (clock 2)).2 = s at hreap hreaped
  generalize Store.prepare t clock = t
  cases hd : s.db.duplicate t with
  | some r => exact iff_of_true hreap fun hnone => by simp at hnone
  | none =>
    obtain ⟨-, hfind, -⟩ := hreaped.insertNew hd (clock 3)
    exact (hreap.update_iff hfind).trans ⟨fun hp _ => hp, fun hp => hp rfl⟩

theorem updateStatus_iff (hs : s.Cached) (h : NoneStuck s) (taskId : Str) (status : Status)
    (lastResult : Option Dict) (lastError : Str) (retryCount : Option ℤ) (clock : ℕ → ℤ) :
    NoneStuck (s.updateStatus taskId status lastResult lastError retryCount clock).2 ↔
      s.Row? taskId fun r => status = .pending → r.ownerAgent = [] := by
  refine h.withTask_iff hs fun t r s' hs' hsees hr hrt => ?_
  have howner : t.ownerAgent = r.ownerAgent := congrArg Record.ownerAgent hrt
  by_cases hvalid : status.valid = true
  · rw [if_pos hvalid, ← howner]
    exact h.put_iff hs' hsees hr hrt rfl rfl
  · rw [if_neg hvalid]
    refine iff_of_true ((alike hs').mpr h) fun hpending => ?_
    exact absurd (hpending ▸ rfl) hvalid

theorem dequeue (hs : s.Cached) (h : NoneStuck s) (team owner token : Str) (clock : ℕ → ℤ) :
    NoneStuck (s.dequeue team owner token clock).2 := by
  rcases hs.dequeue_cases team owner token clock with ⟨-, heq⟩ | ⟨r, -, -, ⟨-, heq⟩ |
    ⟨-, t, s', hs', -, ⟨-, heq⟩ | ⟨-, heq⟩⟩⟩ <;> rw [heq]
  · exact h
  · exact h.claimWhere rfl fun hrunning => Status.noConfusion hrunning
  · exact (alike hs').mpr (h.claimWhere rfl fun hrunning => Status.noConfusion hrunning)
  · have hclaimed := (alike hs').mpr
      (h.claimWhere rfl fun hrunning => Status.noConfusion hrunning)
    exact hclaimed.claimWhere rfl fun _ => rfl

theorem moveTask_iff (hs : s.Cached) (h : NoneStuck s) (taskId : Str) (toStatus : Status)
    (toReview : ReviewState) (actor reason : Str) (clock : ℕ → ℤ) :
    NoneStuck (s.moveTask taskId toStatus toReview actor reason clock).2 ↔
      StuckSafe ⟨.moveTask taskId toStatus toReview actor reason, clock⟩ s := by
  have hmove : NoneStuck (s.moveTask taskId toStatus toReview actor reason clock).2 ↔
      s.Row? taskId fun r => toStatus = .pending → (toReview = .empty ∨ toReview.valid = true) →
        r.ownerAgent = [] := by
    refine h.withTask_iff hs fun t r s' hs' hsees hr hrt => ?_
    have howner : t.ownerAgent = r.ownerAgent := congrArg Record.ownerAgent hrt
    have hstatus : t.status = r.status := congrArg Record.status hrt
    have hold : t.status = .pending → t.ownerAgent = [] := by
      rw [howner, hstatus]
      exact h taskId r hr
    by_cases hinvalid : toStatus ≠ .empty ∧ toStatus.valid = false
    · rw [if_pos hinvalid]
      refine iff_of_true ((alike hs').mpr h) fun hpending _ => ?_
      exact absurd hinvalid.2 (by simp [hpending, Status.valid])
    by_cases hreview : toReview ≠ .empty ∧ toReview.valid = false
    · rw [if_neg hinvalid, if_pos hreview]
      refine iff_of_true ((alike hs').mpr h) fun _ hvalid => ?_
      simp [hreview] at hvalid
    · rw [if_neg hinvalid, if_neg hreview, ← howner]
      have hvalid : toReview = .empty ∨ toReview.valid = true := by
        rcases Decidable.em (toReview = .empty) with hempty | hempty
        · exact Or.inl hempty
        · exact Or.inr (by simpa [hempty] using hreview)
      refine (h.put_iff (u := Store.moved t toStatus toReview (clock 0)) hs' hsees hr hrt
        rfl rfl).trans ?_
      simp only [Store.moved, hvalid, forall_const]
      by_cases hempty : toStatus = .empty
      · simpa [hempty, Status.empty] using hold
      · simp [hempty]
  refine hmove.trans ?_
  cases toStatus with
  | pending => simp [StuckSafe, Store.Row?, forall_comm (α := _ ∨ _)]
  | _ => simp [StuckSafe, Store.Row?]

/-- **One operation.** It leaves no task stuck exactly if it is safe. -/
theorem step_iff (hs : s.Cached) (h : NoneStuck s) (c : Call) :
    NoneStuck (s.step c).2 ↔ StuckSafe c s := by
  obtain ⟨op, clock⟩ := c
  cases op with
  | submit t => exact h.submit_iff hs t clock
  | get taskId =>
    refine iff_of_true ?_ trivial
    rcases hs.getTask_cases taskId with ⟨-, hg⟩ | ⟨t, r, -, -, -, -, hs'⟩
    · rw [show (s.step ⟨.get taskId, clock⟩).2 = s from congrArg Prod.snd hg]
      exact h
    · exact (alike hs').mpr h
  | updateStatus taskId status lastResult lastError retryCount =>
    refine (h.updateStatus_iff hs taskId status lastResult lastError retryCount clock).trans ?_
    cases status with
    | pending => simp [StuckSafe]
    | _ => simp [StuckSafe, Store.Row?]
  | cancel taskId =>
    refine iff_of_true (h.withTask hs fun t r s' hs' _ _ _ => ?_) trivial
    split_ifs
    · exact (alike hs').mpr h
    · refine (((alike hs').mpr h).updateStatus_iff hs'.cached taskId .canceled none [] none
        clock).mpr fun _ _ _ hpending => Status.noConfusion hpending
  | rerun taskId =>
    refine h.withTask_iff hs fun t r s' hs' hsees hr hrt => ?_
    have howner : t.ownerAgent = r.ownerAgent := congrArg Record.ownerAgent hrt
    rw [← howner]
    exact (h.put_iff (u := Store.rerunning t (clock 0)) hs' hsees hr hrt rfl rfl).trans
      ⟨fun hp => hp rfl, fun hp _ => hp⟩
  | addArtifacts | setEvidence | claimLease =>
    exact iff_of_true (h.withTask hs fun t r s' hs' hsees hr hrt =>
      h.put_same hs' hsees hr hrt rfl rfl rfl rfl) trivial
  | setReviewState taskId state =>
    refine iff_of_true ?_ trivial
    simp only [Store.step, Store.setReviewState, Prod.map_snd, id]
    split_ifs
    · exact h.withTask hs fun t r s' hs' hsees hr hrt =>
        h.put_same hs' hsees hr hrt rfl rfl rfl rfl
    · exact h
  | delete | reapExpired =>
    exact iff_of_true (fun id r hr => h id r
      (Option.filter_eq_some_iff.mp ((Table.find_deleteWhere _ _).symm.trans hr)).1) trivial
  | dequeue team owner token => exact iff_of_true (h.dequeue hs team owner token clock) trivial
  | requeue taskId actor reason =>
    refine iff_of_true (h.withTask hs fun t r s' hs' hsees hr hrt => ?_) trivial
    exact (h.put_iff (u := Store.requeued t (clock 0)) hs' hsees hr hrt rfl rfl).mpr fun _ => rfl
  | resetOrphans owner =>
    refine iff_of_true ?_ trivial
    simp only [Store.step, Store.resetOrphans, Prod.map_snd, id]
    split_ifs
    · exact h
    · exact h.claimWhere rfl fun _ => rfl
  | moveTask taskId toStatus toReview actor reason =>
    exact h.moveTask_iff hs taskId toStatus toReview actor reason clock

end NoneStuck

/-! ### The queue after a return -/

namespace Database

variable (db : Database) (ids : List Str) (rows : List Row) (r : Row)

/-- A worker of all teams can claim the row once some tasks have returned. -/
def waits : Bool :=
  (r.taskId ∈ ids || r.status = .pending && r.ownerAgent = []) && r.cronExpression = []
    && r.runAt = 0

/-- All tasks that a row depends on are completed, and none of them returns. -/
def readyBesides : Bool := (loadTexts r.dependsOn).all fun d => d ∉ ids && db.completed d

/-- The rows that wait and are not ready, and a row besides. -/
def rivals : List Row :=
  rows.filter fun x => x.taskId = r.taskId || waits ids x && !db.readyBesides ids x

/-- When some tasks return, the row is not scheduled, is ready, and is claimed before every row
that is not. -/
def Foremost : Prop :=
  r.cronExpression = [] ∧ r.runAt = 0 ∧ db.readyBesides ids r = true ∧
    selectFirst (db.rivals ids rows r) = some r

theorem completed_iff {db : Database} {d : Str} :
    db.completed d = true ↔ ∃ r ∈ db.tasks.rows, r.taskId = d ∧ r.status = .completed := by
  rw [completed]
  cases hf : db.tasks.find d with
  | none =>
    refine iff_of_false Bool.false_ne_true ?_
    rintro ⟨r, hr, hid, -⟩
    exact Table.find_eq_none_iff.mp hf r hr hid
  | some r =>
    obtain ⟨hr, rfl⟩ := Table.mem_of_find hf
    rw [decide_eq_true_eq]
    refine ⟨fun hdone => ⟨r, hr, rfl, hdone⟩, ?_⟩
    rintro ⟨x, hx, hid, hdone⟩
    obtain rfl := List.inj_on_of_nodup_map db.tasks.nodup hx hr hid
    exact hdone

end Database

/-- A row, and the row after some tasks have returned. -/
structure Returned (ids : List Str) (x y : Row) : Prop where
  taskId : y.taskId = x.taskId
  status : y.status = if x.taskId ∈ ids then .pending else x.status
  ownerAgent : y.ownerAgent = if x.taskId ∈ ids then [] else x.ownerAgent
  cronExpression : y.cronExpression = x.cronExpression
  runAt : y.runAt = x.runAt
  priority : y.priority = x.priority
  createdAt : y.createdAt = x.createdAt
  dependsOn : loadTexts y.dependsOn = loadTexts x.dependsOn

/-- The rows of a store are those of another one after some tasks have returned. -/
structure Store.Return (ids : List Str) (rows : List Row) (g : Row → Row) (s s' : Store) :
    Prop where
  mem : ∀ x, x ∈ rows ↔ x ∈ s.db.tasks.rows
  map : s'.db.tasks.rows = rows.map g
  returned : ∀ x ∈ rows, Returned ids x (g x)

namespace Store.Return

variable {ids : List Str} {rows : List Row} {g : Row → Row} {s s' : Store} {r x : Row}
  {owner : Str}

theorem eq_of_taskId (h : Store.Return ids rows g s s') (hx : x ∈ rows) (hr : r ∈ rows)
    (hid : x.taskId = r.taskId) : x = r :=
  List.inj_on_of_nodup_map s.db.tasks.nodup ((h.mem x).mp hx) ((h.mem r).mp hr) hid

theorem completed (h : Store.Return ids rows g s s') (d : Str) :
    s'.db.completed d = (decide (d ∉ ids) && s.db.completed d) := by
  rw [Bool.eq_iff_iff, Bool.and_eq_true, decide_eq_true_eq, Database.completed_iff,
    Database.completed_iff, h.map]
  constructor
  · rintro ⟨y, hy, rfl, hdone⟩
    obtain ⟨x, hx, rfl⟩ := List.mem_map.mp hy
    have hret := h.returned x hx
    rw [hret.status] at hdone
    rw [hret.taskId]
    split_ifs at hdone with hin
    exact ⟨hin, x, (h.mem x).mp hx, rfl, hdone⟩
  · rintro ⟨hin, x, hx, rfl, hdone⟩
    have hx := (h.mem x).mpr hx
    have hret := h.returned x hx
    exact ⟨g x, List.mem_map_of_mem hx, hret.taskId, by rw [hret.status, if_neg hin, hdone]⟩

theorem depsCompleted (h : Store.Return ids rows g s s') (hx : x ∈ rows) :
    s'.db.depsCompleted (g x) = s.db.readyBesides ids x := by
  rw [Database.depsCompleted, (h.returned x hx).dependsOn, Database.readyBesides]
  exact congrArg _ (funext h.completed)

theorem claimable (h : Store.Return ids rows g s s') (hx : x ∈ rows) :
    claimable allTeams (g x) = Database.waits ids x := by
  have hret := h.returned x hx
  rw [Bool.eq_iff_iff, claimable_allTeams, hret.status, hret.ownerAgent, hret.cronExpression,
    hret.runAt]
  by_cases hin : x.taskId ∈ ids <;> simp [Database.waits, hin, and_assoc]

theorem rivals (h : Store.Return ids rows g s s') (hr : r ∈ rows)
    (hwaits : Database.waits ids r = true) :
    PollQueue.rivals Entry.ready (s'.db.entry (g r)) s'.db.queue =
      (s.db.rivals ids rows r).map fun x => s'.db.entry (g x) := by
  rw [PollQueue.rivals, Database.queue, h.map, List.filterMap_map, List.filter_filterMap,
    Database.rivals, ← List.filterMap_eq_map, List.filterMap_filter]
  refine List.filterMap_congr fun x hx => ?_
  have hentry : s'.db.entry (g x) = s'.db.entry (g r) ↔ x.taskId = r.taskId := by
    constructor
    · intro heq
      rw [← (h.returned x hx).taskId, ← (h.returned r hr).taskId]
      exact congrArg Entry.taskId heq
    · exact fun hid => by rw [h.eq_of_taskId hx hr hid]
  have hready : (s'.db.entry (g x)).ready = s.db.readyBesides ids x := h.depsCompleted hx
  simp only [Function.comp, Database.entry?, h.claimable hx]
  by_cases hid : x.taskId = r.taskId
  · obtain rfl := h.eq_of_taskId hx hr hid
    simp [hwaits, Option.filter]
  · cases hw : Database.waits ids x <;> cases hd : s.db.readyBesides ids x <;>
      simp [Option.filter, hready, hd, hentry, hid]

theorem unblocked_iff (h : Store.Return ids rows g s s') (hr : r ∈ rows)
    (hwaits : Database.waits ids r = true) :
    s'.db.Unblocked (g r) ↔ selectFirst (s.db.rivals ids rows r) = some r := by
  have hrow {x : Row} (hx : x ∈ s.db.rivals ids rows r) : x ∈ rows := (List.mem_filter.mp hx).1
  have hbefore : ∀ a ∈ s.db.rivals ids rows r, ∀ b ∈ s.db.rivals ids rows r,
      (Entry.Before (s'.db.entry (g a)) (s'.db.entry (g b)) ↔ Before a b) := fun a ha b hb => by
    have hra := h.returned a (hrow ha)
    have hrb := h.returned b (hrow hb)
    simp only [Entry.Before, Before, Database.entry, hra.priority, hra.createdAt, hrb.priority,
      hrb.createdAt]
  rw [Database.Unblocked, h.rivals hr hwaits, Database.selectFirst_eq,
    PollQueue.select_map (fun x => s'.db.entry (g x)) hbefore, Option.map_eq_some_iff]
  constructor
  · rintro ⟨x, hx, heq⟩
    have hid := congrArg Entry.taskId heq
    have hxr := hrow (PollQueue.mem_of_select hx)
    rw [Database.entry, Database.entry, (h.returned x hxr).taskId,
      (h.returned r hr).taskId] at hid
    exact h.eq_of_taskId hxr hr hid ▸ hx
  · exact fun hx => ⟨r, hx, rfl⟩

/-- **Which returned tasks are claimed in the end**: in a lazy store, the foremost. -/
theorem eventuallyClaimed_iff (h : Store.Return ids rows g s s') (hs' : s'.Cached)
    (howner : owner ≠ []) (hr : r ∈ s.db.tasks.rows) (hid : r.taskId ∈ ids) :
    s'.EventuallyClaimed owner r.taskId ↔ s'.lazyLoad = true ∧ s.db.Foremost ids rows r := by
  have hr := (h.mem r).mpr hr
  have hmem : g r ∈ s'.db.tasks.rows := h.map ▸ List.mem_map_of_mem hr
  rw [← (h.returned r hr).taskId, Store.eventuallyClaimed_iff hs' howner hmem, h.claimable hr,
    h.depsCompleted hr, Database.Foremost]
  refine and_congr_right fun _ => ?_
  by_cases hfree : r.cronExpression = [] ∧ r.runAt = 0
  · have hwaits : Database.waits ids r = true := by simp [Database.waits, hid, hfree]
    rw [h.unblocked_iff hr hwaits]
    simp [hwaits, hfree]
  · refine iff_of_false (fun hx => hfree ?_) fun hx => hfree ⟨hx.1, hx.2.1⟩
    simpa [Database.waits, hid] using hx.1

end Store.Return

/-! ### The operations that return tasks -/

/-- The rows with one of them behind the others, where it is written anew. -/
def Database.writtenLast (db : Database) (r : Row) : List Row :=
  db.tasks.rows.filter (·.taskId ≠ r.taskId) ++ [r]

/-- A task, and the task when it is pending again. -/
structure Resumed (t u : Task) : Prop where
  status : u.status = .pending
  taskId : u.taskId = t.taskId
  idempotencyKey : u.idempotencyKey = t.idempotencyKey
  cronExpression : u.cronExpression = t.cronExpression
  runAt : u.runAt = t.runAt
  priority : u.priority = t.priority
  createdAt : u.createdAt = t.createdAt
  dependsOn : u.dependsOn = t.dependsOn

namespace Store

variable {s s' v : Store} {t u : Task} {r : Row} {id : Str}

theorem rows_put (hs : Alike s s') (hr : s.db.tasks.find id = some r) (hrt : norm t = fromRow r)
    (hid : u.taskId = t.taskId) (hkey : u.idempotencyKey = t.idempotencyKey) :
    (s'.put id u).db.tasks.rows =
      (s.db.writtenLast r).map fun x => if x.taskId = id then toRow u else x := by
  obtain ⟨hmem, rfl⟩ := Table.mem_of_find hr
  have hid' : u.taskId = r.taskId := hid.trans (congrArg Record.taskId hrt)
  have hkey' : u.idempotencyKey = r.idempotencyKey :=
    hkey.trans (congrArg Record.idempotencyKey hrt)
  have hrows : (s'.put r.taskId u).db.tasks.rows =
      s.db.tasks.rows.filter (Table.keeps (toRow u)) ++ [toRow u] := by rw [← hs.db]; rfl
  have hkeeps : ∀ x ∈ s.db.tasks.rows,
      Table.keeps (toRow u) x = decide (x.taskId ≠ r.taskId) := fun x hx => by
    rw [Table.keeps, toRow_taskId, hid', Bool.and_eq_left_iff_imp, decide_eq_true_eq,
      decide_eq_true_eq]
    intro hne
    by_contra hshare
    simp only [KeysDiffer, toRow_idempotencyKey, not_or, not_not, hkey'] at hshare
    exact hne (by rw [Table.eq_of_idempotencyKey hmem hx hshare.1 hshare.2])
  rw [hrows, List.filter_congr hkeeps, Database.writtenLast, List.map_append]
  refine congrArg₂ _ ?_ (by simp)
  refine (List.map_id _).symm.trans (List.map_congr_left fun x hx => ?_)
  have hne : x.taskId ≠ r.taskId := by simpa using (List.mem_filter.mp hx).2
  rw [if_neg hne, id]

theorem return_put (hs : Alike s s') (hr : s.db.tasks.find id = some r) (hrt : norm t = fromRow r)
    (hu : Resumed t u) (howner : u.ownerAgent = []) (hv : v.db.tasks = (s'.put id u).db.tasks) :
    Return [id] (s.db.writtenLast r) (fun x => if x.taskId = id then toRow u else x) s v := by
  obtain ⟨hmem, rfl⟩ := Table.mem_of_find hr
  refine ⟨fun x => ?_, by rw [hv]; exact rows_put hs hr hrt hu.taskId hu.idempotencyKey, ?_⟩
  · rw [Database.writtenLast, List.mem_append, List.mem_filter, List.mem_singleton]
    constructor
    · rintro (hx | rfl)
      · exact hx.1
      · exact hmem
    · intro hx
      by_cases hid : x.taskId = r.taskId
      · exact Or.inr (List.inj_on_of_nodup_map s.db.tasks.nodup hx hmem hid)
      · exact Or.inl ⟨hx, by simpa using hid⟩
  · intro x hx
    split_ifs with hid
    · have hxr : x = r := by
        rcases List.mem_append.mp hx with hx | hx
        · exact absurd hid (by simpa using (List.mem_filter.mp hx).2)
        · exact List.mem_singleton.mp hx
      subst hxr
      exact {
        taskId := hu.taskId.trans (congrArg Record.taskId hrt)
        status := hu.status.trans (if_pos List.mem_cons_self).symm
        ownerAgent := howner.trans (if_pos List.mem_cons_self).symm
        cronExpression := hu.cronExpression.trans (congrArg Record.cronExpression hrt)
        runAt := hu.runAt.trans (congrArg Record.runAt hrt)
        priority := hu.priority.trans (congrArg Record.priority hrt)
        createdAt := hu.createdAt.trans (congrArg Record.createdAt hrt)
        dependsOn := (loadTexts_dumpTexts u.dependsOn).trans
          (hu.dependsOn.trans (congrArg Record.dependsOn hrt)) }
    · have hnot : x.taskId ∉ [r.taskId] := by simpa using hid
      exact ⟨rfl, (if_neg hnot).symm, (if_neg hnot).symm, rfl, rfl, rfl, rfl, rfl⟩

/-- A task that is pending again is claimed in the end, in a lazy store, if it has no owner and is
the foremost. -/
theorem eventuallyClaimed_put (hs : Alike s s') (hr : s.db.tasks.find id = some r)
    (hrt : norm t = fromRow r) (hu : Resumed t u) (hcached : v.Cached)
    (hv : v.db.tasks = (s'.put id u).db.tasks) (hlazy : v.lazyLoad = s.lazyLoad) {owner : Str}
    (howner : owner ≠ []) :
    v.EventuallyClaimed owner id ↔
      s.lazyLoad = true ∧ u.ownerAgent = [] ∧ s.db.Foremost [id] (s.db.writtenLast r) r := by
  obtain ⟨hmem, rfl⟩ := Table.mem_of_find hr
  by_cases hfree : u.ownerAgent = []
  · have hreturn := return_put hs hr hrt hu hfree hv
    rw [hreturn.eventuallyClaimed_iff hcached howner hmem List.mem_cons_self, hlazy]
    exact and_congr_right fun _ => (and_iff_right hfree).symm
  · have hid : (toRow u).taskId = r.taskId := hu.taskId.trans (congrArg Record.taskId hrt)
    have hrow : toRow u ∈ v.db.tasks.rows := by
      rw [hv, rows_put hs hr hrt hu.taskId hu.idempotencyKey]
      exact List.mem_map.mpr ⟨r, by simp [Database.writtenLast], if_pos rfl⟩
    have hiff := eventuallyClaimed_iff hcached howner hrow
    rw [hid] at hiff
    exact iff_of_false (fun hclaimed => hfree (claimable_allTeams.mp (hiff.mp hclaimed).2.1).2.1)
      fun hx => hfree hx.2.1

end Store

/-! ### The contract -/

/-- The operation has returned the task to `pending`. -/
def Returns (c : Call) (s : Store) (id : Str) : Prop :=
  match c.op with
  | .rerun taskId | .requeue taskId _ _ | .moveTask taskId .pending _ _ _ =>
    id = taskId ∧ ∃ t, (s.step c).1 = .task (some t)
  | .resetOrphans owner => owner ≠ [] ∧ id ∈ s.db.orphanIds owner
  | _ => False

/-- Every immediate task with completed dependencies that the operation has returned is claimed in
the end. -/
def ReturnContract (c : Call) (s : Store) : Prop :=
  ∀ id r, Returns c s id → s.db.tasks.find id = some r → r.trigger = .immediate →
    s.db.depsCompleted r = true → ∀ owner, owner ≠ [] → (s.step c).2.EventuallyClaimed owner id

/-- The condition on an operation: the store is lazy, a task that it returns is the foremost, and
one that keeps its owner has none. -/
def ReturnSafe (c : Call) (s : Store) : Prop :=
  match c.op with
  | .rerun taskId =>
    s.Row? taskId fun r => r.trigger = .immediate → s.db.depsCompleted r = true →
      s.lazyLoad = true ∧ r.ownerAgent = [] ∧ s.db.Foremost [taskId] (s.db.writtenLast r) r
  | .requeue taskId _ _ =>
    s.Row? taskId fun r => r.trigger = .immediate → s.db.depsCompleted r = true →
      s.lazyLoad = true ∧ s.db.Foremost [taskId] (s.db.writtenLast r) r
  | .moveTask taskId .pending toReview _ _ =>
    (toReview = .empty ∨ toReview.valid = true) →
      s.Row? taskId fun r => r.trigger = .immediate → s.db.depsCompleted r = true →
        s.lazyLoad = true ∧ r.ownerAgent = [] ∧ s.db.Foremost [taskId] (s.db.writtenLast r) r
  | .resetOrphans owner =>
    owner ≠ [] → ∀ r ∈ s.db.tasks.rows, Database.orphan owner r = true →
      r.trigger = .immediate → s.db.depsCompleted r = true →
        s.lazyLoad = true ∧ s.db.Foremost (s.db.orphanIds owner) s.db.tasks.rows r
  | _ => True

namespace Store.Cached

variable {s : Store}

theorem rerun_cases (h : s.Cached) (taskId : Str) (clock : ℕ → ℤ) :
    s.sees taskId = false ∧ s.rerun taskId clock = (none, s) ∨
      ∃ t r s', s.sees taskId = true ∧ s.db.tasks.find taskId = some r ∧ norm t = fromRow r ∧
        Alike s s' ∧ s.rerun taskId clock =
          (some (rerunning t (clock 0)), s'.put taskId (rerunning t (clock 0))) :=
  h.withTask_cases taskId none _

theorem contract_iff {c : Call} (id : Str) (out : Option Task) (p : Row → Prop)
    (hreturns : ∀ k, Returns c s k ↔ k = id ∧ out.isSome)
    (hcases : s.sees id = false ∧ out = none ∨
      ∃ t u r s', s.sees id = true ∧ s.db.tasks.find id = some r ∧ norm t = fromRow r ∧
        Alike s s' ∧ out = some u ∧ Resumed t u ∧ (u.ownerAgent = [] ↔ p r) ∧
          (s.step c).2.db.tasks = (s'.put id u).db.tasks) (h : s.Cached) :
    ReturnContract c s ↔ s.Row? id fun r => r.trigger = .immediate →
      s.db.depsCompleted r = true →
        s.lazyLoad = true ∧ p r ∧ s.db.Foremost [id] (s.db.writtenLast r) r := by
  rcases hcases with ⟨hsees, hout⟩ | ⟨t, u, r, s', hsees, hr, hrt, hs, hout, hu, hp, hv⟩
  · refine iff_of_true (fun k r hk => ?_) fun hseen => by simp [hsees] at hseen
    simp [hreturns, hout] at hk
  · have hclaimed : ∀ owner, owner ≠ [] → ((s.step c).2.EventuallyClaimed owner id ↔ _) :=
      fun owner howner => eventuallyClaimed_put hs hr hrt hu (h.step c) hv (step_lazyLoad c s)
        howner
    rw [hp] at hclaimed
    constructor
    · intro hcontract _ x hx himmediate hdeps
      obtain rfl := Option.some.inj (hr.symm.trans hx)
      refine (hclaimed "w" (by decide)).mp ?_
      exact hcontract id r ((hreturns id).mpr ⟨rfl, by rw [hout]; rfl⟩) hr himmediate hdeps _
        (by decide)
    · intro hsafe k x hk hx himmediate hdeps owner howner
      obtain ⟨rfl, -⟩ := (hreturns k).mp hk
      obtain rfl := Option.some.inj (hr.symm.trans hx)
      exact (hclaimed owner howner).mpr (hsafe hsees r hr himmediate hdeps)

theorem resetOrphans_contract_iff (h : s.Cached) (owner : Str) (clock : ℕ → ℤ) :
    ReturnContract ⟨.resetOrphans owner, clock⟩ s ↔ ReturnSafe ⟨.resetOrphans owner, clock⟩ s := by
  by_cases howner : owner = []
  · exact iff_of_true (fun _ _ hid => absurd howner hid.1) fun hne => absurd howner hne
  have hids : ∀ x ∈ s.db.tasks.rows,
      (x.taskId ∈ s.db.orphanIds owner ↔ Database.orphan owner x = true) := fun x hx => by
    rw [Database.orphanIds, List.mem_map]
    constructor
    · rintro ⟨y, hy, hid⟩
      obtain ⟨hyr, ho⟩ := List.mem_filter.mp hy
      exact List.inj_on_of_nodup_map s.db.tasks.nodup hyr hx hid ▸ ho
    · exact fun ho => ⟨x, List.mem_filter.mpr ⟨hx, ho⟩, rfl⟩
  have hreturn : Return (s.db.orphanIds owner) s.db.tasks.rows
      (fun x => if Database.orphan owner x then
        (⟨.pending, [], [], clock 0, none⟩ : Claim).set x else x)
      s (s.step ⟨.resetOrphans owner, clock⟩).2 := by
    refine ⟨fun _ => Iff.rfl, ?_, fun x hx => ?_⟩
    · simp only [Store.step, Store.resetOrphans, if_neg howner]
      rfl
    · split_ifs with ho
      · have hin := (hids x hx).mpr ho
        exact ⟨rfl, (if_pos hin).symm, (if_pos hin).symm, rfl, rfl, rfl, rfl, rfl⟩
      · have hnot := mt (hids x hx).mp ho
        exact ⟨rfl, (if_neg hnot).symm, (if_neg hnot).symm, rfl, rfl, rfl, rfl, rfl⟩
  have hcached := h.step ⟨.resetOrphans owner, clock⟩
  have hmode := step_lazyLoad ⟨.resetOrphans owner, clock⟩ s
  constructor
  · intro hcontract _ r hr ho himmediate hdeps
    have hid := (hids r hr).mpr ho
    rw [← hmode]
    refine (hreturn.eventuallyClaimed_iff hcached howner hr hid).mp ?_
    exact hcontract r.taskId r ⟨howner, hid⟩ (Table.find_of_mem hr) himmediate hdeps owner howner
  · rintro hsafe id r ⟨-, hid⟩ hfind himmediate hdeps worker hworker
    obtain ⟨hr, rfl⟩ := Table.mem_of_find hfind
    refine (hreturn.eventuallyClaimed_iff hcached hworker hr hid).mpr ?_
    rw [hmode]
    exact hsafe howner r hr ((hids r hr).mp hid) himmediate hdeps

theorem moveTask_contract_iff (h : s.Cached) (taskId : Str) (toReview : ReviewState)
    (actor reason : Str) (clock : ℕ → ℤ) :
    ReturnContract ⟨.moveTask taskId .pending toReview actor reason, clock⟩ s ↔
      ReturnSafe ⟨.moveTask taskId .pending toReview actor reason, clock⟩ s := by
  have hstatus : ¬ (Status.pending ≠ .empty ∧ Status.pending.valid = false) := fun hx =>
    Bool.noConfusion hx.2
  have hchecks := h.moveTask_checks taskId .pending toReview actor reason clock
  simp only [if_neg hstatus] at hchecks
  have hreturns : ∀ k, Returns ⟨.moveTask taskId .pending toReview actor reason, clock⟩ s k ↔
      k = taskId ∧ (s.moveTask taskId .pending toReview actor reason clock).1.isSome :=
    fun k => and_congr_right fun _ => by simp [Store.step, Option.isSome_iff_exists]
  by_cases hreview : toReview ≠ .empty ∧ toReview.valid = false
  · simp only [if_pos hreview] at hchecks
    refine iff_of_true (fun id r hid => ?_) fun hvalid => ?_
    · obtain ⟨-, hsome⟩ := (hreturns id).mp hid
      rcases hchecks with ⟨-, heq⟩ | ⟨_, _, s', -, -, -, -, heq⟩
      · simp [heq] at hsome
      · simp [heq] at hsome
    · simp [hreview] at hvalid
  · have hvalid : toReview = .empty ∨ toReview.valid = true := by
      by_cases hempty : toReview = .empty
      · exact Or.inl hempty
      · exact Or.inr (by simpa [hempty] using hreview)
    simp only [if_neg hreview] at hchecks
    refine (contract_iff taskId _ (fun r => r.ownerAgent = []) hreturns ?_ h).trans
      ⟨fun hx _ => hx, fun hx => hx hvalid⟩
    rcases hchecks with ⟨hsees, heq⟩ | ⟨t, r, s', hsees, hr, hrt, hs, heq⟩
    · exact Or.inl ⟨hsees, congrArg Prod.fst heq⟩
    · refine Or.inr ⟨t, moved t .pending toReview (clock 0), r, s', hsees, hr, hrt, hs,
        congrArg Prod.fst heq, ⟨rfl, rfl, rfl, rfl, rfl, rfl, rfl, rfl⟩, ?_,
        congrArg (fun x => x.2.db.tasks) heq⟩
      have howner : t.ownerAgent = r.ownerAgent := congrArg Record.ownerAgent hrt
      rw [← howner]
      rfl

/-- **One operation.** The tasks that it returns are claimed in the end exactly if it is safe. -/
theorem returnContract_iff (h : s.Cached) (c : Call) : ReturnContract c s ↔ ReturnSafe c s := by
  obtain ⟨op, clock⟩ := c
  have hnone {c : Call} (hc : ∀ id, ¬ Returns c s id) : ReturnContract c s :=
    fun id r hid => absurd hid (hc id)
  cases op with
  | rerun taskId =>
    refine contract_iff taskId (s.rerun taskId clock).1 (fun r => r.ownerAgent = [])
      (fun k => ?_) ?_ h
    · refine and_congr_right fun _ => ?_
      simp [Store.step, Option.isSome_iff_exists]
    · rcases h.rerun_cases taskId clock with ⟨hsees, heq⟩ | ⟨t, r, s', hsees, hr, hrt, hs, heq⟩
      · exact Or.inl ⟨hsees, congrArg Prod.fst heq⟩
      · refine Or.inr ⟨t, rerunning t (clock 0), r, s', hsees, hr, hrt, hs, congrArg Prod.fst heq,
          ⟨rfl, rfl, rfl, rfl, rfl, rfl, rfl, rfl⟩, ?_,
          congrArg (fun x => x.2.db.tasks) heq⟩
        have howner : t.ownerAgent = r.ownerAgent := congrArg Record.ownerAgent hrt
        rw [← howner]
        rfl
  | requeue taskId actor reason =>
    refine (contract_iff taskId (s.requeue taskId actor reason clock).1 (fun _ => True)
      (fun k => ?_) ?_ h).trans ?_
    · refine and_congr_right fun _ => ?_
      simp [Store.step, Option.isSome_iff_exists]
    · rcases h.requeue_cases taskId actor reason clock with
        ⟨hsees, heq⟩ | ⟨t, r, s', hsees, hr, hrt, hs, heq⟩
      · exact Or.inl ⟨hsees, congrArg Prod.fst heq⟩
      · exact Or.inr ⟨t, requeued t (clock 0), r, s', hsees, hr, hrt, hs, congrArg Prod.fst heq,
          ⟨rfl, rfl, rfl, rfl, rfl, rfl, rfl, rfl⟩, iff_of_true rfl trivial,
          congrArg (fun x => x.2.db.tasks) heq⟩
    · simp only [true_and]
      rfl
  | moveTask taskId toStatus toReview actor reason =>
    cases toStatus with
    | pending => exact h.moveTask_contract_iff taskId toReview actor reason clock
    | _ => exact iff_of_true (hnone fun _ hid => hid) trivial
  | resetOrphans owner => exact h.resetOrphans_contract_iff owner clock
  | _ => exact iff_of_true (hnone fun _ hid => hid) trivial

end Store.Cached

/-! ### Every run -/

/-- **Returned tasks are claimable.** In a run of a store over any database, no task is ever
pending with an owner, and every immediate task with completed dependencies that an operation
returns is claimed in the end, exactly if the first is so when the store is opened and every
operation is safe. -/
theorem returns_throughout_iff (m : Bool) (T : Table) (history : List HistoryRow)
    (index : List IndexRow) (ttl : ℤ) (calls : List Call) :
    (∀ n, NoneStuck (reached m T history index ttl (calls.take n))) ∧
        Along Store.step ReturnContract calls (Store.open m T history index ttl) ↔
      NoneStuck (Store.open m T history index ttl) ∧
        Along Store.step (fun c s => StuckSafe c s ∧ ReturnSafe c s) calls
          (Store.open m T history index ttl) := by
  have hopen := Store.cached_open m T history index ttl
  have hstuck := run_throughout_iff (I := NoneStuck) (J := Store.Cached)
    (fun c _ hs => hs.step c) (fun c _ hs h => h.step_iff hs c) calls hopen
  have hcontract := along_congr (J := Store.Cached) (fun c _ hs => hs.step c)
    (fun c _ hs => hs.returnContract_iff c) calls hopen
  rw [along_and, ← and_assoc, ← hstuck, ← hcontract]
  rfl

/-- A failed task that is rerun is pending and owned, and no worker gets it. -/
theorem not_returnContract :
    (¬ ∀ (m : Bool) (calls : List Call), NoneStuck (reached m Table.empty [] [] 0 calls)) ∧
      ¬ ∀ (m : Bool) (calls : List Call),
        Along Store.step ReturnContract calls (Store.open m Table.empty [] [] 0) := by
  let t : Task := { Task.default with taskId := "a".toList }
  let before : List Call := [⟨.submit t, fun _ => 1⟩,
    ⟨.dequeue [] "w".toList "x".toList, fun _ => 2⟩,
    ⟨.updateStatus "a".toList .failed none [] none, fun _ => 3⟩]
  let again : Call := ⟨.rerun "a".toList, fun _ => 4⟩
  have hstuck : ((reached true Table.empty [] [] 0 (before ++ [again])).db.tasks.find
      "a".toList).any (fun r => r.status = .pending && !decide (r.ownerAgent = [])) = true := by
    decide
  obtain ⟨r', hr', howned⟩ := (Option.any_eq_true _ _).mp hstuck
  simp only [Bool.and_eq_true, decide_eq_true_eq, Bool.not_eq_true', decide_eq_false_iff_not]
    at howned
  refine ⟨fun hall => howned.2 (hall true (before ++ [again]) _ r' hr' howned.1), fun hall => ?_⟩
  have hcontract := (along_append.mp (hall true (before ++ [again]))).2.1
  have hfailed : ((reached true Table.empty [] [] 0 before).db.tasks.find "a".toList).any
      (fun r => r.trigger = .immediate &&
        (reached true Table.empty [] [] 0 before).db.depsCompleted r) = true := by decide
  obtain ⟨r, hr, himmediate⟩ := (Option.any_eq_true _ _).mp hfailed
  rw [Bool.and_eq_true, decide_eq_true_eq] at himmediate
  have hworker : "w".toList ≠ [] := by decide
  have hclaimed := hcontract "a".toList r ⟨rfl, _, rfl⟩ hr himmediate.1 himmediate.2 _ hworker
  obtain ⟨hmem, hid⟩ := Table.mem_of_find hr'
  have hiff := Store.eventuallyClaimed_iff (reached_cached true Table.empty [] [] 0
    (before ++ [again])) hworker hmem
  rw [hid] at hiff
  exact howned.2 (claimable_allTeams.mp (hiff.mp hclaimed).2.1).2.1

end AgentStudio.Tasks

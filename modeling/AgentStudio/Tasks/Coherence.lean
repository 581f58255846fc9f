import AgentStudio.Tasks.Store

/-!
# The cache of a task store

`Coherent` is the invariant of the cache: a cached task is the task of its row, up to the
defaults that reading a row puts in, and in eager mode every row is cached. `Kind` is a
property of tasks that the cached ones have besides: any task, or a task that reads back
unchanged (`Kind.normal`).

`Coherent.step` says that every operation keeps the invariant, on one condition in eager
mode, where the operations that change rows by SQL drop cached tasks for good
(`Undisturbed`). The operations on one task go through `Coherent.put`, those that drop cached
tasks through `Coherent.drop`.
-/

namespace AgentStudio.Tasks

open PyText PyDict PyJson

def Database.read (db : Database) (taskId : Str) : Option Task :=
  (db.tasks.find taskId).map fromRow

/-! ### The invariant -/

/-- The changes that keep a task normal. -/
structure SameDefaults (t t' : Task) : Prop where
  team : t'.team = t.team
  sandbox : t'.sandbox = t.sandbox
  reviewState : t'.reviewState = t.reviewState ∨ t'.reviewState.valid = true

/-- A property of cached tasks: tasks that are read have it, and changes keep it. -/
structure Kind where
  holds : Task → Prop
  read : ∀ r, holds (fromRow r)
  keep : ∀ {t t'}, SameDefaults t t' → holds t → holds t'

def Kind.any : Kind := ⟨fun _ => True, fun _ => trivial, fun _ _ => trivial⟩

/-- The tasks that read back unchanged. -/
def Kind.normal : Kind where
  holds := Normal
  read := normal_fromRow
  keep h ht := by
    refine ⟨?_, h.team ▸ ht.team, h.sandbox ▸ ht.sandbox⟩
    rcases h.reviewState with hr | hr
    · exact hr ▸ ht.reviewState
    · rintro heq
      rw [heq] at hr
      exact absurd hr (by decide)

structure Coherent (P : Kind) (lazyLoad : Bool) (s : Store) : Prop where
  mode : s.lazyLoad = lazyLoad
  cached : ∀ id t, s.cache.lookup id = some t → P.holds t ∧ s.db.read id = some (norm t)
  full : lazyLoad = false → ∀ id, s.cache.lookup id = none → s.db.read id = none

variable {P : Kind} {m : Bool} {s : Store}

namespace Coherent

/-! ### Reading -/

theorem getTask (h : Coherent P m s) (id : Str) :
    (s.getTask id).1.map norm = s.db.read id ∧ (∀ t, (s.getTask id).1 = some t → P.holds t) ∧
      (s.getTask id).2.db = s.db ∧ Coherent P m (s.getTask id).2 := by
  unfold Store.getTask
  cases hc : s.cache.lookup id with
  | some t =>
    obtain ⟨hP, hread⟩ := h.cached id t hc
    exact ⟨hread.symm, fun t' ht' => Option.some.inj ht' ▸ hP, rfl, h⟩
  | none =>
    cases hm : s.lazyLoad with
    | false =>
      refine ⟨?_, by simp, rfl, h⟩
      exact (h.full (h.mode ▸ hm) id hc).symm
    | true =>
      simp only [if_true]
      cases hf : s.db.tasks.find id with
      | none => exact ⟨by simp [Database.read, hf], by simp, rfl, h⟩
      | some r =>
        have hread : s.db.read id = some (fromRow r) := by simp [Database.read, hf]
        refine ⟨by simp [hread, norm_fromRow], ?_, rfl, hm ▸ h.mode, ?_, ?_⟩
        · rintro t ht
          rw [← Option.some.inj ht]
          exact P.read r
        · intro k t ht
          rw [lookup_setItem] at ht
          split_ifs at ht with hk
          · rw [← Option.some.inj ht, hk, norm_fromRow]
            exact ⟨P.read r, hread⟩
          · exact h.cached k t ht
        · intro hfalse
          rw [← h.mode, hm] at hfalse
          exact Bool.noConfusion hfalse

theorem withTask {α : Type} (h : Coherent P m s) {id : Str} {missing : α}
    {f : Task → Store → α × Store}
    (hf : ∀ t s', s'.db = s.db → Coherent P m s' → P.holds t → s'.db.read id = some (norm t) →
      Coherent P m (f t s').2) :
    Coherent P m (s.withTask id missing f).2 := by
  obtain ⟨hread, hP, hdb, hs⟩ := h.getTask id
  unfold Store.withTask
  cases hg : s.getTask id with
  | mk t s' =>
    rw [hg] at hread hP hdb hs
    cases t with
    | none => exact hs
    | some t => exact hf t s' hdb hs (hP t rfl) (hdb ▸ hread.symm)

/-! ### Writing -/

theorem setDb (h : Coherent P m s) (db : Database) (hdb : db.tasks = s.db.tasks) :
    Coherent P m { s with db } := by
  have hread : ∀ id, db.read id = s.db.read id := fun id => by rw [Database.read, hdb]; rfl
  exact ⟨h.mode, fun id t ht => (hread id).symm ▸ h.cached id t ht,
    fun hm id ht => (hread id).symm ▸ h.full hm id ht⟩

theorem insert (h : Coherent P m s) {t : Task} (hP : P.holds t)
    (hkey : ∀ x ∈ s.db.tasks.rows, x.taskId ≠ t.taskId → KeysDiffer (toRow t) x) :
    Coherent P m (s.put t.taskId t) := by
  have hread : ∀ k, (s.db.saveTask t).read k
      = if k = t.taskId then some (norm t) else s.db.read k := fun k => by
    rw [Database.read, Database.saveTask, Table.find_upsert (r := toRow t) hkey, toRow_taskId]
    split_ifs
    · rw [Option.map_some, fromRow_toRow]
    · rfl
  refine ⟨h.mode, fun k u hu => ?_, fun hm k hk => ?_⟩ <;>
    simp only [Store.put, lookup_setItem, hread] at *
  · split_ifs at hu ⊢ with hk
    · rw [← Option.some.inj hu]
      exact ⟨hP, rfl⟩
    · exact h.cached k u hu
  · split_ifs at hk ⊢
    exact h.full hm k hk

end Coherent

theorem keysDiffer_of_same {T : Table} {r x : Row} {t : Task} (hr : r ∈ T.rows) (hx : x ∈ T.rows)
    (hkey : t.idempotencyKey = r.idempotencyKey) (hne : x.taskId ≠ r.taskId) :
    KeysDiffer (toRow t) x := by
  by_contra hshare
  simp only [KeysDiffer, toRow_idempotencyKey, not_or, not_not, hkey] at hshare
  exact hne (by rw [Table.eq_of_idempotencyKey hr hx hshare.1 hshare.2])

namespace Coherent

theorem put (h : Coherent P m s) {id : Str} {t t' : Task} (hread : s.db.read id = some (norm t))
    (hP : P.holds t) (hsame : SameDefaults t t') (hid : t'.taskId = t.taskId)
    (hkey : t'.idempotencyKey = t.idempotencyKey) : Coherent P m (s.put id t') := by
  obtain ⟨r, hr, hrt⟩ := Option.map_eq_some_iff.mp hread
  obtain ⟨hmem, rfl⟩ := Table.mem_of_find hr
  have hid' : t'.taskId = r.taskId := hid.trans (congrArg Record.taskId hrt).symm
  have hkey' : t'.idempotencyKey = r.idempotencyKey :=
    hkey.trans (congrArg Record.idempotencyKey hrt).symm
  rw [← hid']
  exact h.insert (P.keep hsame hP) fun x hx hne =>
    keysDiffer_of_same hmem hx hkey' (hid' ▸ hne)

end Coherent

/-! ### Dropping -/

theorem lookup_popAll (ids : List Str) (c : List (Str × Task)) (k : Str) :
    (Store.popAll ids c).lookup k = if k ∈ ids then none else c.lookup k := by
  induction ids generalizing c with
  | nil => simp [Store.popAll]
  | cons id ids ih =>
    have hstep : Store.popAll (id :: ids) c = Store.popAll ids (pop id c) := rfl
    rw [hstep, ih, lookup_pop]
    by_cases h1 : k ∈ ids <;> by_cases h2 : k = id <;> simp [h1, h2]

namespace Coherent

/-- Dropping cached tasks whose rows change; in eager mode their rows have to go. -/
theorem drop (h : Coherent P m s) {db : Database} {ids : List Str}
    (hread : ∀ k, k ∉ ids → db.read k = s.db.read k)
    (hgone : m = false → ∀ k ∈ ids, db.read k = none) :
    Coherent P m { s with db, cache := Store.popAll ids s.cache } := by
  refine ⟨h.mode, fun k t ht => ?_, fun hm k hk => ?_⟩ <;> simp only [lookup_popAll] at *
  · split_ifs at ht with hmem
    rw [hread k hmem]
    exact h.cached k t ht
  · by_cases hmem : k ∈ ids
    · exact hgone hm k hmem
    · rw [if_neg hmem] at hk
      rw [hread k hmem]
      exact h.full hm k hk

end Coherent

theorem Database.find_deleteIds (db : Database) (ids : List Str) (k : Str) :
    (db.deleteIds ids).tasks.find k = if k ∈ ids then none else db.tasks.find k := by
  rw [Database.deleteIds, Table.find_deleteWhere]
  cases hf : db.tasks.find k with
  | none => simp
  | some r =>
    obtain ⟨-, rfl⟩ := Table.mem_of_find hf
    by_cases hmem : r.taskId ∈ ids <;> simp [Option.filter, hmem]

theorem Database.read_deleteIds (db : Database) (ids : List Str) (k : Str) :
    (db.deleteIds ids).read k = if k ∈ ids then none else db.read k := by
  rw [Database.read, Database.find_deleteIds, Database.read]
  split_ifs <;> rfl

namespace Coherent

theorem delete (h : Coherent P m s) (id : Str) : Coherent P m (s.delete id).2 :=
  h.drop (fun k hk => by rw [Database.read_deleteIds, if_neg hk])
    fun _ k hk => by rw [Database.read_deleteIds, if_pos hk]

theorem reapExpired (h : Coherent P m s) (now : ℤ) : Coherent P m (s.reapExpired now).2 :=
  h.drop (fun k hk => by rw [Database.read_deleteIds, if_neg hk])
    fun _ k hk => by rw [Database.read_deleteIds, if_pos hk]

theorem claimWhere (h : Coherent P true s) {p : Row → Bool} {c : Claim} {ids : List Str}
    {db : Database} (hdb : db.tasks = s.db.tasks.claimWhere p c)
    (hp : ∀ r ∈ s.db.tasks.rows, p r = true → r.taskId ∈ ids) :
    Coherent P true { s with db, cache := Store.popAll ids s.cache } := by
  refine h.drop (fun k hk => ?_) fun hm => Bool.noConfusion hm
  rw [Database.read, hdb, Table.find_claimWhere, Database.read]
  cases hf : s.db.tasks.find k with
  | none => rfl
  | some r =>
    obtain ⟨hr, rfl⟩ := Table.mem_of_find hf
    have hpr : ¬ p r = true := fun hpr => hk (hp r hr hpr)
    simp [hpr]

end Coherent

/-! ### Claiming -/

/-- The condition on an operation in eager mode: no row is claimed or reset. -/
def Undisturbed (op : Op) (db : Database) : Prop :=
  match op with
  | .dequeue team owner _ => owner = [] ∨ db.candidate (orDefault "default" team) = none
  | .resetOrphans owner => owner = [] ∨ db.orphanIds owner = []
  | _ => True

namespace Coherent

theorem claim (h : Coherent P true s) (r : Row) (owner token : Str) (clock : ℕ → ℤ) :
    Coherent P true (s.claim r owner token clock) :=
  h.claimWhere rfl fun x _ hx => by
    rw [Bool.and_eq_true, decide_eq_true_eq] at hx
    exact List.mem_singleton.mpr hx.1

theorem revert (h : Coherent P true s) (id : Str) (now : ℤ) :
    Coherent P true (s.revert id now) :=
  h.claimWhere rfl fun x _ hx => by
    rw [Bool.and_eq_true, decide_eq_true_eq] at hx
    exact List.mem_singleton.mpr hx.1

theorem depsLoop (h : Coherent P m s) (ds : List Str) :
    (Store.depsLoop ds s).2.db = s.db ∧ Coherent P m (Store.depsLoop ds s).2 := by
  induction ds generalizing s with
  | nil => exact ⟨rfl, h⟩
  | cons d ds ih =>
    obtain ⟨-, -, hdb, hs⟩ := h.getTask d
    rw [Store.depsLoop]
    cases hg : s.getTask d with
    | mk t s' =>
      rw [hg] at hdb hs
      cases t with
      | none => exact ⟨hdb, hs⟩
      | some t =>
        simp only
        split_ifs
        · exact ⟨(ih hs).1.trans hdb, (ih hs).2⟩
        · exact ⟨hdb, hs⟩

theorem depsMet (h : Coherent P m s) (id : Str) : Coherent P m (s.depsMet id).2 :=
  h.withTask fun t _ _ hs _ _ => (hs.depsLoop t.dependsOn).2

theorem dequeue (h : Coherent P m s) {team owner token : Str} {clock : ℕ → ℤ}
    (hm : m = false → Undisturbed (.dequeue team owner token) s.db) :
    Coherent P m (s.dequeue team owner token clock).2 := by
  unfold Store.dequeue
  split_ifs with howner
  · exact h
  · cases hc : s.db.candidate (orDefault "default" team) with
    | none => exact h
    | some r =>
      cases m with
      | false =>
        rcases hm rfl with hu | hu
        · exact absurd hu howner
        · rw [hc] at hu
          exact absurd hu (by simp)
      | true =>
        refine (h.claim r owner token clock).withTask fun t s' _ hs _ _ => ?_
        have hdeps := hs.depsMet t.taskId
        cases hd : s'.depsMet t.taskId with
        | mk b s'' =>
          rw [hd] at hdeps
          cases b with
          | true => exact hdeps
          | false => exact hdeps.revert r.taskId (clock 2)

theorem resetOrphans (h : Coherent P m s) {owner : Str} {clock : ℕ → ℤ}
    (hm : m = false → Undisturbed (.resetOrphans owner) s.db) :
    Coherent P m (s.resetOrphans owner clock).2 := by
  unfold Store.resetOrphans
  split_ifs with howner
  · exact h
  · have hids : ∀ r ∈ s.db.tasks.rows, Database.orphan owner r = true →
        r.taskId ∈ s.db.orphanIds owner := fun r hr ho =>
      List.mem_map.mpr ⟨r, List.mem_filter.mpr ⟨hr, ho⟩, rfl⟩
    cases m with
    | true => exact h.claimWhere rfl hids
    | false =>
      have hnil : s.db.orphanIds owner = [] := (hm rfl).resolve_left howner
      -- no row is reset, so no row changes and no task is dropped
      refine h.drop (fun k _ => ?_) fun _ k hk => absurd (hnil ▸ hk) List.not_mem_nil
      rw [Database.read, Table.find_claimWhere, Database.read]
      cases hf : s.db.tasks.find k with
      | none => rfl
      | some r =>
        have ho : ¬ Database.orphan owner r = true := fun ho => by
          have := hids r (Table.mem_of_find hf).1 ho
          rw [hnil] at this
          exact List.not_mem_nil this
        simp [ho]

/-! ### Submitting -/

theorem fill (h : Coherent P m s) {r : Row} (hr : r ∈ s.db.tasks.rows) {db : Database}
    (hdb : db.tasks = s.db.tasks) :
    Coherent P m { s with cache := setItem r.taskId (fromRow r) s.cache, db } := by
  have hs := h.setDb db hdb
  have hread : db.read r.taskId = some (fromRow r) := by
    rw [Database.read, hdb, Table.find_of_mem hr, Option.map_some]
  refine ⟨hs.mode, fun k t ht => ?_, fun hm k hk => ?_⟩ <;> simp only [lookup_setItem] at *
  · split_ifs at ht with hk
    · rw [← Option.some.inj ht, hk, norm_fromRow]
      exact ⟨P.read r, hread⟩
    · exact hs.cached k t ht
  · split_ifs at hk
    exact hs.full hm k hk

theorem insertNew (h : Coherent P m s) {t : Task} (hP : P.holds t)
    (hfresh : s.db.duplicate t = none) (now : ℤ) : Coherent P m (s.insert t now).2 := by
  have hkey : ∀ x ∈ s.db.tasks.rows, t.idempotencyKey = [] ∨ t.idempotencyKey ≠ x.idempotencyKey :=
    fun x hx => by
      by_cases hnil : t.idempotencyKey = []
      · exact Or.inl hnil
      · rw [Database.duplicate, if_neg hnil, Database.findByIdempotencyKey,
          List.find?_eq_none] at hfresh
        exact Or.inr fun heq => hfresh x hx (by simp [heq])
  have hput : ∀ seq id, Coherent P m
      (({ s with db := { s.db with lastSubmitDeduped := false, idSeq := seq } } : Store).put id
        { t with taskId := id }) := fun seq id => by
    have hsame : SameDefaults t { t with taskId := id } := ⟨rfl, rfl, Or.inl rfl⟩
    exact (h.setDb { s.db with lastSubmitDeduped := false, idSeq := seq } rfl).insert
      (P.keep hsame hP) fun x hx _ => hkey x hx
  unfold Store.insert
  simp only
  split_ifs
  all_goals first
    | exact hput _ _
    | exact (hput _ _).setDb _ (by unfold Database.indexInsert; split_ifs <;> rfl)

theorem submit (h : Coherent P m s) {t : Task} {clock : ℕ → ℤ}
    (hP : (s.reapExpired (clock 2)).2.db.duplicate (Store.prepare t clock) = none → P.holds t) :
    Coherent P m (s.submit t clock).2 := by
  have hreap := h.reapExpired (clock 2)
  unfold Store.submit
  simp only
  split
  · next r hr =>
    have hmem : r ∈ (s.reapExpired (clock 2)).2.db.tasks.rows := by
      unfold Database.duplicate at hr
      split_ifs at hr
      exact List.mem_of_find?_eq_some hr
    exact hreap.fill hmem rfl
  · next hnone =>
    have hsame : SameDefaults t (Store.prepare t clock) := ⟨rfl, rfl, Or.inl rfl⟩
    exact hreap.insertNew (P.keep hsame (hP hnone)) hnone (clock 3)

/-! ### Every operation -/

theorem updateStatus (h : Coherent P m s) (id : Str) (status : Status) (lastResult : Option Dict)
    (lastError : Str) (retryCount : Option ℤ) (clock : ℕ → ℤ) :
    Coherent P m (s.updateStatus id status lastResult lastError retryCount clock).2 := by
  refine h.withTask fun t s' _ hs hP hread => ?_
  by_cases hvalid : status.valid = true
  · rw [if_pos hvalid]
    exact hs.put hread hP ⟨rfl, rfl, Or.inl rfl⟩ rfl rfl
  · rw [if_neg hvalid]
    exact hs

theorem cancel (h : Coherent P m s) (id : Str) (clock : ℕ → ℤ) :
    Coherent P m (s.cancel id clock).2 := by
  refine h.withTask fun t s' _ hs _ _ => ?_
  split_ifs
  · exact hs
  · exact hs.updateStatus id .canceled none [] none clock

theorem setReviewState (h : Coherent P m s) (id : Str) (state : ReviewState) (clock : ℕ → ℤ) :
    Coherent P m (s.setReviewState id state clock).2 := by
  unfold Store.setReviewState
  split_ifs with hvalid
  · exact h.withTask fun _ _ _ hs hP hread => hs.put hread hP ⟨rfl, rfl, Or.inr hvalid⟩ rfl rfl
  · exact h

theorem requeue (h : Coherent P m s) (id actor reason : Str) (clock : ℕ → ℤ) :
    Coherent P m (s.requeue id actor reason clock).2 := by
  refine h.withTask fun t s' _ hs hP hread => ?_
  have hput : Coherent P m (s'.put id { t with
      status := .pending, ownerAgent := [], attemptToken := []
      retryCount := t.retryCount + 1, updatedAt := clock 0 }) :=
    hs.put hread hP ⟨rfl, rfl, Or.inl rfl⟩ rfl rfl
  exact hput.setDb (Database.appendHistory _ _) rfl

theorem moveTask (h : Coherent P m s) (id : Str) (toStatus : Status) (toReview : ReviewState)
    (actor reason : Str) (clock : ℕ → ℤ) :
    Coherent P m (s.moveTask id toStatus toReview actor reason clock).2 := by
  refine h.withTask fun t s' _ hs hP hread => ?_
  by_cases hstatus : toStatus ≠ .empty ∧ toStatus.valid = false
  · rw [if_pos hstatus]
    exact hs
  by_cases hreview : toReview ≠ .empty ∧ toReview.valid = false
  · rw [if_neg hstatus, if_pos hreview]
    exact hs
  rw [if_neg hstatus, if_neg hreview]
  have hsame : SameDefaults t { t with
      status := if toStatus ≠ .empty then toStatus else t.status
      reviewState := if toReview ≠ .empty then toReview else t.reviewState
      updatedAt := clock 0
      lastRunAt := if toStatus = .running then clock 0 else t.lastRunAt } := by
    refine ⟨rfl, rfl, ?_⟩
    by_cases hempty : toReview = .empty
    · exact Or.inl (if_neg (not_not.mpr hempty))
    · refine Or.inr ?_
      simp only [if_pos hempty]
      exact Bool.eq_true_of_not_eq_false fun hfalse => hreview ⟨hempty, hfalse⟩
  exact (hs.put hread hP hsame rfl rfl).setDb (Database.appendHistory _ _) rfl

/-- **The invariant.** Every operation keeps the cache coherent; in eager mode, as long as no
row is claimed or reset. -/
theorem step (h : Coherent P m s) (c : Call)
    (hsubmit : ∀ t, c.op = .submit t →
      (s.reapExpired (c.clock 2)).2.db.duplicate (Store.prepare t c.clock) = none → P.holds t)
    (hm : m = false → Undisturbed c.op s.db) : Coherent P m (s.step c).2 := by
  obtain ⟨op, clock⟩ := c
  cases op with
  | submit t => exact h.submit (hsubmit t rfl)
  | get taskId => exact (h.getTask taskId).2.2.2
  | updateStatus taskId status lastResult lastError retryCount =>
    exact h.updateStatus taskId status lastResult lastError retryCount clock
  | cancel taskId => exact h.cancel taskId clock
  | rerun | addArtifacts | setEvidence | claimLease =>
    simp only [Store.step, Prod.map_snd, id]
    exact h.withTask fun _ _ _ hs hP hread => hs.put hread hP ⟨rfl, rfl, Or.inl rfl⟩ rfl rfl
  | setReviewState taskId state => exact h.setReviewState taskId state clock
  | delete taskId => exact h.delete taskId
  | reapExpired => exact h.reapExpired (clock 0)
  | dequeue team owner token => exact h.dequeue hm
  | requeue taskId actor reason => exact h.requeue taskId actor reason clock
  | resetOrphans owner => exact h.resetOrphans hm
  | moveTask taskId toStatus toReview actor reason =>
    exact h.moveTask taskId toStatus toReview actor reason clock

protected theorem «open» (P : Kind) (m : Bool) (T : Table) (history : List HistoryRow)
    (index : List IndexRow)
    (ttl : ℤ) : Coherent P m (Store.open m T history index ttl) := by
  have hlookup : ∀ id, (T.rows.map fun r => (r.taskId, fromRow r)).lookup id
      = (T.find id).map fromRow := fun id => by
    unfold Table.find
    induction T.rows with
    | nil => rfl
    | cons r rows ih =>
      by_cases hr : r.taskId = id
      · simp [hr]
      · have hr' : (id == r.taskId) = false := beq_eq_false_iff_ne.mpr (Ne.symm hr)
        simp [List.lookup_cons, hr, hr', ih]
  cases m with
  | true => exact ⟨rfl, fun _ _ ht => by simp [Store.open] at ht, fun hm => Bool.noConfusion hm⟩
  | false =>
    refine ⟨rfl, fun id t ht => ?_, fun _ id ht => (hlookup id).symm.trans ht⟩
    have hread : (T.find id).map fromRow = some t := (hlookup id).symm.trans ht
    obtain ⟨r, -, rfl⟩ := Option.map_eq_some_iff.mp hread
    rw [norm_fromRow]
    exact ⟨P.read r, hread⟩

end Coherent

end AgentStudio.Tasks

import AgentStudio.Tasks.Dequeue

/-!
# What a store sees

A store sees a task if the task has a row and, in eager mode, is still cached (`Store.sees`).
`Store.Cached` is the part of the cache's invariant that no operation breaks, whatever the mode:
a cached task is the task of its row.

The rules say what the parts of an operation do to the rows, to the cache and to the tasks that
are seen: `Store.withTask_cases` for the operations on one task, `Cached.put` and `Cached.insert`
for a written row, `Cached.drop` and `Cached.claimWhere` for deleted and claimed rows, and
`Cached.dequeue_cases` for a claim that is taken back or not.

`Changed` is what the operations on one task do: it is written with its id and its idempotency
key, or nothing is. They are the operations other than `submit`, `delete`, `reap_expired`,
`dequeue` and `reset_orphans` (`Cached.changed`).
-/

namespace AgentStudio.Tasks

open PyText PyDict PyJson

def Op.target : Op → Option Str
  | .submit _ | .delete _ | .reapExpired | .dequeue _ _ _ | .resetOrphans _ => none
  | .get taskId | .updateStatus taskId _ _ _ _ | .cancel taskId | .rerun taskId
  | .addArtifacts taskId _ | .setEvidence taskId _ | .setReviewState taskId _
  | .claimLease taskId _ | .requeue taskId _ _ | .moveTask taskId _ _ _ _ => some taskId

def Op.single (op : Op) : Bool := op.target.isSome

namespace Store

/-- Cached tasks are the tasks of their rows. -/
def Cached (s : Store) : Prop := ∀ id t, s.cache.lookup id = some t → s.db.read id = some (norm t)

/-- The store finds the task: it has a row and, in eager mode, it is cached. -/
def sees (s : Store) (id : Str) : Bool :=
  (s.db.tasks.find id).isSome && (s.lazyLoad || (s.cache.lookup id).isSome)

structure Alike (s s' : Store) : Prop where
  db : s'.db = s.db
  cached : s'.Cached
  lazyLoad : s'.lazyLoad = s.lazyLoad
  sees : ∀ id, s'.sees id = s.sees id

variable {s s' : Store}

theorem Alike.refl (h : s.Cached) : Alike s s := ⟨rfl, h, rfl, fun _ => rfl⟩

theorem Alike.trans {s'' : Store} (h : Alike s s') (h' : Alike s' s'') : Alike s s'' :=
  ⟨h'.db.trans h.db, h'.cached, h'.lazyLoad.trans h.lazyLoad, fun id =>
    (h'.sees id).trans (h.sees id)⟩

variable {id : Str} {r : Row}

theorem row_of_sees (h : s.sees id = true) : ∃ r, s.db.tasks.find id = some r :=
  Option.isSome_iff_exists.mp (Bool.and_eq_true _ _ ▸ h).1

theorem sees_of_lazy (hlazy : s.lazyLoad = true) (hr : s.db.tasks.find id = some r) :
    s.sees id = true := by
  simp [sees, hlazy, hr]

namespace Cached

theorem sees_of_lookup (h : s.Cached) {id : Str} {t : Task} (ht : s.cache.lookup id = some t) :
    s.sees id = true := by
  obtain ⟨r, hr, -⟩ := Option.map_eq_some_iff.mp (h id t ht)
  simp [sees, hr, ht]

/-! ### Reading -/

theorem getTask_cases (h : s.Cached) (id : Str) :
    s.sees id = false ∧ s.getTask id = (none, s) ∨
      ∃ t r, s.sees id = true ∧ s.db.tasks.find id = some r ∧ norm t = fromRow r ∧
        (s.getTask id).1 = some t ∧ Alike s (s.getTask id).2 := by
  unfold getTask
  cases hc : s.cache.lookup id with
  | some t =>
    obtain ⟨r, hr, hrt⟩ := Option.map_eq_some_iff.mp (h id t hc)
    exact Or.inr ⟨t, r, h.sees_of_lookup hc, hr, hrt.symm, rfl, .refl h⟩
  | none =>
    cases hm : s.lazyLoad with
    | false => exact Or.inl ⟨by simp [sees, hm, hc], rfl⟩
    | true =>
      simp only [if_true]
      cases hf : s.db.tasks.find id with
      | none => exact Or.inl ⟨by simp [sees, hf], rfl⟩
      | some r =>
        refine Or.inr ⟨fromRow r, r, sees_of_lazy hm hf, rfl, norm_fromRow r, rfl, rfl, ?_,
          hm.symm, fun k => by simp [sees, hm]⟩
        intro k t ht
        rw [lookup_setItem] at ht
        split_ifs at ht with hk
        · rw [← Option.some.inj ht, hk, norm_fromRow]
          exact congrArg (Option.map fromRow) hf
        · exact h k t ht

theorem withTask_cases (h : s.Cached) {α : Type} (id : Str) (missing : α)
    (f : Task → Store → α × Store) :
    s.sees id = false ∧ s.withTask id missing f = (missing, s) ∨
      ∃ t r s', s.sees id = true ∧ s.db.tasks.find id = some r ∧ norm t = fromRow r ∧
        Alike s s' ∧ s.withTask id missing f = f t s' := by
  unfold withTask
  rcases h.getTask_cases id with ⟨hsees, hg⟩ | ⟨t, r, hsees, hr, hrt, hg, hs⟩
  · exact Or.inl ⟨hsees, by rw [hg]⟩
  · refine Or.inr ⟨t, r, (s.getTask id).2, hsees, hr, hrt, hs, ?_⟩
    rw [show s.getTask id = (some t, (s.getTask id).2) from Prod.ext hg rfl]

/-! ### Writing -/

theorem iff_coherent : s.Cached ↔ Coherent .any true { s with lazyLoad := true } :=
  ⟨fun h => ⟨rfl, fun id t ht => ⟨trivial, h id t ht⟩, fun hm => Bool.noConfusion hm⟩,
    fun h id t ht => (h.cached id t ht).2⟩

theorem setDb (h : s.Cached) {db : Database} (hdb : db.tasks = s.db.tasks) :
    ({ s with db } : Store).Cached :=
  iff_coherent.mpr ((iff_coherent.mp h).setDb db hdb)

theorem insert (h : s.Cached) {t : Task}
    (hkey : ∀ x ∈ s.db.tasks.rows, x.taskId ≠ t.taskId → KeysDiffer (toRow t) x) :
    (s.put t.taskId t).Cached ∧
      (∀ k, (s.put t.taskId t).db.tasks.find k =
        if k = t.taskId then some (toRow t) else s.db.tasks.find k) ∧
      ∀ k, (s.put t.taskId t).sees k = (decide (k = t.taskId) || s.sees k) := by
  have hfind (k : Str) : (s.put t.taskId t).db.tasks.find k =
      if k = t.taskId then some (toRow t) else s.db.tasks.find k := Table.find_upsert hkey k
  have hcache (k : Str) : (s.put t.taskId t).cache.lookup k =
      if k = t.taskId then some t else s.cache.lookup k := lookup_setItem _ _ _ _
  refine ⟨fun k u hu => ?_, hfind, fun k => ?_⟩
  · rw [Database.read, hfind]
    rw [hcache] at hu
    split_ifs at hu ⊢ with hk
    · rw [← Option.some.inj hu, Option.map_some, fromRow_toRow]
    · exact h k u hu
  · rw [sees, sees, hfind, hcache]
    by_cases hk : k = t.taskId <;> simp [hk, put]

theorem put (h : s.Cached) {id : Str} {t t' : Task} {r : Row} (hr : s.db.tasks.find id = some r)
    (hrt : norm t = fromRow r) (hid : t'.taskId = t.taskId)
    (hkey : t'.idempotencyKey = t.idempotencyKey) (hsees : s.sees id = true) :
    (s.put id t').Cached ∧
      (∀ k, (s.put id t').db.tasks.find k =
        if k = id then some (toRow t') else s.db.tasks.find k) ∧
      ∀ k, (s.put id t').sees k = s.sees k := by
  obtain ⟨hmem, rfl⟩ := Table.mem_of_find hr
  have hid' : t'.taskId = r.taskId := hid.trans (congrArg Record.taskId hrt)
  have hkey' : t'.idempotencyKey = r.idempotencyKey :=
    hkey.trans (congrArg Record.idempotencyKey hrt)
  rw [← hid'] at hsees ⊢
  obtain ⟨hcached, hfind, hsees'⟩ := h.insert (t := t') fun x hx hne =>
    keysDiffer_of_same hmem hx hkey' (hid' ▸ hne)
  refine ⟨hcached, hfind, fun k => ?_⟩
  rw [hsees' k]
  by_cases hk : k = t'.taskId <;> simp [hk, hsees]

/-! ### Dropping -/

theorem drop (h : s.Cached) {db : Database} {ids : List Str}
    (hread : ∀ k, k ∉ ids → db.read k = s.db.read k) :
    ({ s with db, cache := popAll ids s.cache } : Store).Cached :=
  iff_coherent.mpr ((iff_coherent.mp h).drop hread fun hm => Bool.noConfusion hm)

theorem deleteIds (h : s.Cached) (ids : List Str) :
    ({ s with db := s.db.deleteIds ids, cache := popAll ids s.cache } : Store).Cached :=
  h.drop fun k hk => by rw [Database.read_deleteIds, if_neg hk]

theorem claimWhere (h : s.Cached) {p : Row → Bool} {c : Claim} {ids : List Str} {db : Database}
    (hdb : db.tasks = s.db.tasks.claimWhere p c)
    (hp : ∀ r ∈ s.db.tasks.rows, p r = true → r.taskId ∈ ids) :
    ({ s with db, cache := popAll ids s.cache } : Store).Cached :=
  iff_coherent.mpr ((iff_coherent.mp h).claimWhere hdb hp)

end Cached

theorem sees_deleteIds (s : Store) (ids : List Str) (k : Str) :
    ({ s with db := s.db.deleteIds ids, cache := popAll ids s.cache } : Store).sees k =
      (decide (k ∉ ids) && s.sees k) := by
  simp only [sees, Database.find_deleteIds, lookup_popAll]
  by_cases hk : k ∈ ids <;> simp [hk]

theorem sees_claimWhere (s : Store) {p : Row → Bool} {c : Claim} (ids : List Str) {db : Database}
    (hdb : db.tasks = s.db.tasks.claimWhere p c) (k : Str) :
    ({ s with db, cache := popAll ids s.cache } : Store).sees k =
      ((s.lazyLoad || decide (k ∉ ids)) && s.sees k) := by
  simp only [sees, hdb, Table.find_claimWhere, lookup_popAll, Option.isSome_map]
  by_cases hk : k ∈ ids <;> cases s.lazyLoad <;> simp [hk]

/-! ### Dependencies and claims -/

namespace Cached

variable {s : Store}

theorem coherent (h : s.Cached) (hlazy : s.lazyLoad = true) : Coherent .any true s :=
  ⟨hlazy, fun id t ht => ⟨trivial, h id t ht⟩, fun hm => Bool.noConfusion hm⟩

theorem depsLoop (h : s.Cached) (ds : List Str) : Alike s (depsLoop ds s).2 := by
  induction ds generalizing s with
  | nil => exact .refl h
  | cons d ds ih =>
    rw [Store.depsLoop]
    rcases h.getTask_cases d with ⟨-, hg⟩ | ⟨t, -, -, -, -, hg, hs⟩
    · rw [hg]
      exact .refl h
    · rw [show s.getTask d = (some t, (s.getTask d).2) from Prod.ext hg rfl]
      simp only
      split_ifs
      · exact hs.trans (ih hs.cached)
      · exact hs

theorem depsMet (h : s.Cached) (id : Str) : Alike s (s.depsMet id).2 := by
  unfold Store.depsMet
  rcases h.withTask_cases id true fun t s => Store.depsLoop t.dependsOn s with
    ⟨-, heq⟩ | ⟨t, -, s', -, -, -, hs, heq⟩ <;> rw [heq]
  · exact .refl h
  · exact hs.trans (hs.cached.depsLoop _)

theorem claim (h : s.Cached) (r : Row) (owner token : Str) (clock : ℕ → ℤ) :
    (s.claim r owner token clock).Cached :=
  iff_coherent.mpr ((iff_coherent.mp h).claim r owner token clock)

theorem revert (h : s.Cached) (id : Str) (now : ℤ) : (s.revert id now).Cached :=
  iff_coherent.mpr ((iff_coherent.mp h).revert id now)

end Cached

theorem sees_claim (s : Store) (r : Row) (owner token : Str) (clock : ℕ → ℤ) (k : Str) :
    (s.claim r owner token clock).sees k =
      ((s.lazyLoad || decide (k ≠ r.taskId)) && s.sees k) := by
  refine (s.sees_claimWhere [r.taskId] rfl k).trans ?_
  simp

theorem sees_revert (s : Store) (id : Str) (now : ℤ) (k : Str) :
    (s.revert id now).sees k = ((s.lazyLoad || decide (k ≠ id)) && s.sees k) := by
  refine (s.sees_claimWhere [id] rfl k).trans ?_
  simp

theorem pending_of_candidate {team : Str} (h : s.db.candidate team = some r) :
    r ∈ s.db.tasks.rows ∧ r.status = .pending := by
  obtain ⟨hr, hclaimable, -⟩ := Database.candidate_spec h
  simp only [claimable, Bool.and_eq_true, decide_eq_true_eq] at hclaimable
  exact ⟨hr, hclaimable.1.1.1.2⟩

theorem find_claim (hr : r ∈ s.db.tasks.rows) (hpending : r.status = .pending) (owner token : Str)
    (clock : ℕ → ℤ) (k : Str) :
    (s.claim r owner token clock).db.tasks.find k =
      if k = r.taskId then some (claimed owner token clock r) else s.db.tasks.find k := by
  refine (Table.find_claimWhere _ _ k).trans ?_
  split_ifs with hk
  · subst hk
    simp [Table.find_of_mem hr, hpending, claimed]
  · cases hf : s.db.tasks.find k with
    | none => rfl
    | some x =>
      have hx : x.taskId ≠ r.taskId := (Table.mem_of_find hf).2.trans_ne hk
      simp [hx]

/-- A claimed row after the claim was taken back. -/
def reverted (owner token : Str) (clock : ℕ → ℤ) (r : Row) : Row :=
  (⟨.pending, [], [], clock 2, none⟩ : Claim).set (claimed owner token clock r)

theorem find_revert (hr : r ∈ s.db.tasks.rows) (hpending : r.status = .pending) {owner token : Str}
    {clock : ℕ → ℤ} (hs : Alike (s.claim r owner token clock) s') (k : Str) :
    (s'.revert r.taskId (clock 2)).db.tasks.find k =
      if k = r.taskId then some (reverted owner token clock r) else s.db.tasks.find k := by
  have hclaim := find_claim hr hpending owner token clock k
  refine (Table.find_claimWhere _ _ k).trans ?_
  rw [hs.db, hclaim]
  split_ifs with hk
  · simp [claimed, Claim.set, reverted]
  · cases hf : s.db.tasks.find k with
    | none => rfl
    | some x =>
      have hx : x.taskId ≠ r.taskId := (Table.mem_of_find hf).2.trans_ne hk
      simp [hx]

/-- What `dequeue` does with a task that it has claimed. -/
private def afterClaim (id : Str) (now : ℤ) (t : Task) (s : Store) : Option Task × Store :=
  match s.depsMet t.taskId with
  | (true, s) => (some t, s)
  | (false, s) => (none, s.revert id now)

/-- **What `dequeue` does.** Without an owner or a candidate it does nothing. The candidate is
claimed; an eager store loses it, and a lazy store returns it or takes the claim back. -/
theorem Cached.dequeue_cases (h : s.Cached) (team owner token : Str) (clock : ℕ → ℤ) :
    ((owner = [] ∨ s.db.candidate (orDefault "default" team) = none) ∧
        s.dequeue team owner token clock = (none, s)) ∨
      ∃ r, owner ≠ [] ∧ s.db.candidate (orDefault "default" team) = some r ∧
        (s.lazyLoad = false ∧
            s.dequeue team owner token clock = (none, s.claim r owner token clock) ∨
          s.lazyLoad = true ∧ ∃ t s', Alike (s.claim r owner token clock) s' ∧
            norm t = fromRow (claimed owner token clock r) ∧
            (s.db.depsCompleted r = true ∧ s.dequeue team owner token clock = (some t, s') ∨
              s.db.depsCompleted r = false ∧
                s.dequeue team owner token clock = (none, s'.revert r.taskId (clock 2)))) := by
  unfold dequeue
  by_cases howner : owner = []
  · exact Or.inl ⟨Or.inl howner, if_pos howner⟩
  rw [if_neg howner]
  cases hc : s.db.candidate (orDefault "default" team) with
  | none => exact Or.inl ⟨Or.inr rfl, rfl⟩
  | some r =>
    refine Or.inr ⟨r, howner, rfl, ?_⟩
    obtain ⟨hr, hpending⟩ := pending_of_candidate hc
    have hclaim := h.claim r owner token clock
    have hmem := mem_claim hr hpending owner token clock
    simp only
    rcases hclaim.withTask_cases r.taskId none (afterClaim r.taskId (clock 2)) with
      ⟨hsees, heq⟩ | ⟨t, x, s', hsees, hx, htx, hs, heq⟩
    · refine Or.inl ⟨?_, heq⟩
      rw [sees_claim] at hsees
      cases hlazy : s.lazyLoad with
      | false => rfl
      | true => simp [sees, Table.find_of_mem hr, hlazy] at hsees
    · rw [sees_claim, Bool.and_eq_true] at hsees
      have hlazy : s.lazyLoad = true := by simpa using hsees.1
      obtain rfl : claimed owner token clock r = x :=
        Option.some.inj ((Table.find_of_mem hmem).symm.trans hx)
      have hid : t.taskId = r.taskId := congrArg Record.taskId htx
      have hdeps : (s'.depsMet t.taskId).1 = s.db.depsCompleted r := by
        have hmet := (hs.cached.coherent (hs.lazyLoad.trans hlazy)).depsMet_fst (hs.db ▸ hmem)
        rw [hs.db] at hmet
        rw [hid]
        refine hmet.trans ?_
        exact congrArg (List.all _) (funext fun d => completed_claim r owner token clock d)
      have hs' := hs.trans (hs.cached.depsMet t.taskId)
      refine Or.inr ⟨hlazy, t, (s'.depsMet t.taskId).2, hs', htx, ?_⟩
      have hmet : s'.depsMet t.taskId = (s.db.depsCompleted r, (s'.depsMet t.taskId).2) :=
        Prod.ext hdeps rfl
      rw [afterClaim, hmet] at heq
      cases hd : s.db.depsCompleted r with
      | true => exact Or.inl ⟨rfl, by rw [hd] at heq; exact heq⟩
      | false => exact Or.inr ⟨rfl, by rw [hd] at heq; exact heq⟩

/-- The id that a submitted task gets. -/
def givenId (s : Store) (t : Task) (now : ℤ) : Str :=
  if t.taskId = [] then newId now (s.db.idSeq + 1) else t.taskId

def placed (s : Store) (t : Task) (now : ℤ) : Task := { t with taskId := s.givenId t now }

/-- The store before a new task is written, with its id counted. -/
def numbered (s : Store) (t : Task) : Store :=
  { s with db := { s.db with
    lastSubmitDeduped := false
    idSeq := if t.taskId = [] then s.db.idSeq + 1 else s.db.idSeq } }

/-- A new task with an idempotency key goes into the index. -/
def indexTask (s : Store) (t : Task) : Store :=
  if t.idempotencyKey = [] then s
  else { s with db := s.db.indexInsert ⟨t.idempotencyKey, t.taskId, t.createdAt⟩ }

theorem insert_eq (s : Store) (t : Task) (now : ℤ) :
    s.insert t now = (s.placed t now,
      ((s.numbered t).put (s.givenId t now) (s.placed t now)).indexTask (s.placed t now)) := by
  unfold insert numbered indexTask placed givenId
  by_cases hid : t.taskId = [] <;> simp [hid]

@[simp] theorem indexTask_tasks (s : Store) (t : Task) :
    (s.indexTask t).db.tasks = s.db.tasks := by
  unfold indexTask Database.indexInsert
  split_ifs <;> rfl

@[simp] theorem indexTask_history (s : Store) (t : Task) :
    (s.indexTask t).db.history = s.db.history := by
  unfold indexTask Database.indexInsert
  split_ifs <;> rfl

@[simp] theorem indexTask_cache (s : Store) (t : Task) : (s.indexTask t).cache = s.cache := by
  unfold indexTask
  split_ifs <;> rfl

@[simp] theorem indexTask_lazyLoad (s : Store) (t : Task) :
    (s.indexTask t).lazyLoad = s.lazyLoad := by
  unfold indexTask
  split_ifs <;> rfl

/-! ### The operations on one task -/

/-- A store after an operation on one task: the task is written, or no task is. -/
structure Changed (id : Str) (s s' : Store) : Prop where
  cached : s'.Cached
  lazyLoad : s'.lazyLoad = s.lazyLoad
  index : s'.db.index = s.db.index
  sees : ∀ k, s'.sees k = s.sees k
  row : (∀ k, s'.db.tasks.find k = s.db.tasks.find k) ∨
    ∃ r t, s.sees id = true ∧ s.db.tasks.find id = some r ∧
      t.idempotencyKey = r.idempotencyKey ∧
      ∀ k, s'.db.tasks.find k = if k = id then some (toRow t) else s.db.tasks.find k

theorem Alike.changed (h : Alike s s') : Changed id s s' :=
  ⟨h.cached, h.lazyLoad, congrArg Database.index h.db, h.sees, Or.inl fun _ => by rw [h.db]⟩

theorem Alike.changed_trans {s'' : Store} (h : Alike s s') (h' : Changed id s' s'') :
    Changed id s s'' := by
  refine ⟨h'.cached, h'.lazyLoad.trans h.lazyLoad, h'.index.trans (by rw [h.db]), fun k =>
    (h'.sees k).trans (h.sees k), ?_⟩
  rw [← h.db]
  rcases h'.row with hrow | ⟨r, t, hsees, hr, hkey, hrow⟩
  · exact Or.inl hrow
  · exact Or.inr ⟨r, t, (h.sees id).symm.trans hsees, hr, hkey, hrow⟩

theorem Changed.trans {s'' : Store} (h : Changed id s s') (h' : Changed id s' s'') :
    Changed id s s'' := by
  refine ⟨h'.cached, h'.lazyLoad.trans h.lazyLoad, h'.index.trans h.index, fun k =>
    (h'.sees k).trans (h.sees k), ?_⟩
  rcases h'.row with hrow' | ⟨r', t', hsees', hr', hkey', hrow'⟩
  · rcases h.row with hrow | ⟨r, t, hsees, hr, hkey, hrow⟩
    · exact Or.inl fun k => (hrow' k).trans (hrow k)
    · exact Or.inr ⟨r, t, hsees, hr, hkey, fun k => (hrow' k).trans (hrow k)⟩
  · rw [h.sees] at hsees'
    rcases h.row with hrow | ⟨r, t, -, hr, hkey, hrow⟩
    · refine Or.inr ⟨r', t', hsees', (hrow id).symm.trans hr', hkey', fun k => ?_⟩
      rw [hrow', hrow]
    · rw [hrow, if_pos rfl] at hr'
      refine Or.inr ⟨r, t', hsees', hr, ?_, fun k => ?_⟩
      · exact hkey'.trans ((congrArg Record.idempotencyKey (Option.some.inj hr')).symm.trans hkey)
      · rw [hrow', hrow]
        split_ifs <;> rfl

/-- The task that `update_status` writes. -/
def updated (t : Task) (status : Status) (lastResult : Option Dict) (lastError : Str)
    (retryCount : Option ℤ) (now : ℤ) : Task :=
  { t with
    status := status
    updatedAt := now
    lastRunAt := if status = .running then now else t.lastRunAt
    lastResult := lastResult.getD t.lastResult
    lastError := if lastError ≠ [] then lastError else t.lastError
    retryCount := retryCount.getD t.retryCount }

/-- The task that `requeue` writes. -/
def requeued (t : Task) (now : ℤ) : Task :=
  { t with
    status := .pending, ownerAgent := [], attemptToken := []
    retryCount := t.retryCount + 1, updatedAt := now }

/-- The task that `move_task` writes. -/
def moved (t : Task) (toStatus : Status) (toReview : ReviewState) (now : ℤ) : Task :=
  { t with
    status := if toStatus ≠ .empty then toStatus else t.status
    reviewState := if toReview ≠ .empty then toReview else t.reviewState
    updatedAt := now
    lastRunAt := if toStatus = .running then now else t.lastRunAt }

/-- The store with a task written and a row more in the history. -/
def putWith (s : Store) (taskId : Str) (t : Task) (row : HistoryRow) : Store :=
  { s.put taskId t with db := (s.put taskId t).db.appendHistory row }

namespace Cached

variable {s : Store}

theorem updateStatus_cases (h : s.Cached) (taskId : Str) (status : Status)
    (lastResult : Option Dict) (lastError : Str) (retryCount : Option ℤ) (clock : ℕ → ℤ) :
    s.sees taskId = false ∧
        s.updateStatus taskId status lastResult lastError retryCount clock = (false, s) ∨
      ∃ t r s', s.sees taskId = true ∧ s.db.tasks.find taskId = some r ∧ norm t = fromRow r ∧
        Alike s s' ∧ s.updateStatus taskId status lastResult lastError retryCount clock =
          if status.valid then
            (true, s'.put taskId
              (updated t status lastResult lastError retryCount (clock 0)))
          else (false, s') :=
  h.withTask_cases taskId false _

theorem requeue_cases (h : s.Cached) (taskId actor reason : Str) (clock : ℕ → ℤ) :
    s.sees taskId = false ∧ s.requeue taskId actor reason clock = (none, s) ∨
      ∃ t r s', s.sees taskId = true ∧ s.db.tasks.find taskId = some r ∧ norm t = fromRow r ∧
        Alike s s' ∧ s.requeue taskId actor reason clock = (some (requeued t (clock 0)),
          s'.putWith taskId (requeued t (clock 0)) ⟨taskId, .failed, .pending, .none, .none,
            orDefault "task-executor" actor, orDefault "retry re-enqueue" reason,
            clock 1⟩) :=
  h.withTask_cases taskId none _

theorem moveTask_checks (h : s.Cached) (taskId : Str) (toStatus : Status) (toReview : ReviewState)
    (actor reason : Str) (clock : ℕ → ℤ) :
    s.sees taskId = false ∧ s.moveTask taskId toStatus toReview actor reason clock = (none, s) ∨
      ∃ t r s', s.sees taskId = true ∧ s.db.tasks.find taskId = some r ∧ norm t = fromRow r ∧
        Alike s s' ∧ s.moveTask taskId toStatus toReview actor reason clock =
          if toStatus ≠ .empty ∧ toStatus.valid = false then (none, s')
          else if toReview ≠ .empty ∧ toReview.valid = false then (none, s')
          else (some (moved t toStatus toReview (clock 0)),
            s'.putWith taskId (moved t toStatus toReview (clock 0))
              ⟨taskId, t.status, (moved t toStatus toReview (clock 0)).status, t.reviewState,
                (moved t toStatus toReview (clock 0)).reviewState,
                orDefault "system" actor, reason, clock 1⟩) :=
  h.withTask_cases taskId none _

theorem moveTask_cases (h : s.Cached) (taskId : Str) (toStatus : Status) (toReview : ReviewState)
    (actor reason : Str) (clock : ℕ → ℤ) :
    (∃ s', Alike s s' ∧ s.moveTask taskId toStatus toReview actor reason clock = (none, s')) ∨
      ∃ t r s', s.sees taskId = true ∧ s.db.tasks.find taskId = some r ∧ norm t = fromRow r ∧
        Alike s s' ∧ s.moveTask taskId toStatus toReview actor reason clock =
          (some (moved t toStatus toReview (clock 0)),
            s'.putWith taskId (moved t toStatus toReview (clock 0))
              ⟨taskId, t.status, (moved t toStatus toReview (clock 0)).status, t.reviewState,
                (moved t toStatus toReview (clock 0)).reviewState,
                orDefault "system" actor, reason, clock 1⟩) := by
  rcases h.moveTask_checks taskId toStatus toReview actor reason clock with
    ⟨-, heq⟩ | ⟨t, r, s', hsees, hr, hrt, hs, heq⟩
  · exact Or.inl ⟨s, .refl h, heq⟩
  · split_ifs at heq
    · exact Or.inl ⟨s', hs, heq⟩
    · exact Or.inl ⟨s', hs, heq⟩
    · exact Or.inr ⟨t, r, s', hsees, hr, hrt, hs, heq⟩

end Cached

theorem Changed.appendHistory (h : Changed id s s') (row : HistoryRow) :
    Changed id s { s' with db := s'.db.appendHistory row } :=
  ⟨h.cached.setDb rfl, h.lazyLoad, h.index, h.sees, h.row⟩

namespace Cached

variable {s : Store} {α : Type}

theorem changed_put (hs : Alike s s') {id : Str} {t t' : Task} {r : Row} (hsees : s.sees id = true)
    (hr : s.db.tasks.find id = some r) (hrt : norm t = fromRow r) (hid : t'.taskId = t.taskId)
    (hkey : t'.idempotencyKey = t.idempotencyKey) : Changed id s (s'.put id t') := by
  obtain ⟨hcached, hfind, hsees'⟩ := hs.cached.put (hs.db ▸ hr) hrt hid hkey
    ((hs.sees id).trans hsees)
  refine ⟨hcached, hs.lazyLoad, by rw [← hs.db]; rfl, fun k =>
    (hsees' k).trans (hs.sees k), Or.inr ⟨r, t', hsees, hr, ?_, fun k => ?_⟩⟩
  · exact hkey.trans (congrArg Record.idempotencyKey hrt)
  · rw [← hs.db]
    exact hfind k

theorem changed_withTask (h : s.Cached) {id : Str} {missing : α} {f : Task → Store → α × Store}
    (hf : ∀ t r s', Alike s s' → s.sees id = true → s.db.tasks.find id = some r →
      norm t = fromRow r → Changed id s (f t s').2) :
    Changed id s (s.withTask id missing f).2 := by
  rcases h.withTask_cases id missing f with ⟨-, heq⟩ | ⟨t, r, s', hsees, hr, hrt, hs, heq⟩ <;>
    rw [heq]
  · exact (Alike.refl h).changed
  · exact hf t r s' hs hsees hr hrt

theorem changed_updateStatus (h : s.Cached) (id : Str) (status : Status)
    (lastResult : Option Dict) (lastError : Str) (retryCount : Option ℤ) (clock : ℕ → ℤ) :
    Changed id s (s.updateStatus id status lastResult lastError retryCount clock).2 := by
  refine h.changed_withTask fun t r s' hs hsees hr hrt => ?_
  by_cases hvalid : status.valid = true
  · rw [if_pos hvalid]
    exact changed_put hs hsees hr hrt rfl rfl
  · rw [if_neg hvalid]
    exact hs.changed

/-- **The operations on one task** write it, or no task. -/
theorem changed (h : s.Cached) {c : Call} {id : Str} (hc : c.op.target = some id) :
    Changed id s (s.step c).2 := by
  obtain ⟨op, clock⟩ := c
  cases op with
  | submit | delete | reapExpired | dequeue | resetOrphans => cases hc
  | get taskId =>
    obtain rfl := Option.some.inj hc
    rcases h.getTask_cases taskId with ⟨-, hg⟩ | ⟨t, r, -, -, -, -, hs⟩
    · rw [show (s.step ⟨.get taskId, clock⟩).2 = s from congrArg Prod.snd hg]
      exact (Alike.refl h).changed
    · exact hs.changed
  | updateStatus taskId status lastResult lastError retryCount =>
    obtain rfl := Option.some.inj hc
    exact h.changed_updateStatus taskId status lastResult lastError retryCount clock
  | cancel taskId =>
    obtain rfl := Option.some.inj hc
    change Changed taskId s (s.cancel taskId clock).2
    refine h.changed_withTask fun t r s' hs _ _ _ => ?_
    split_ifs
    · exact hs.changed
    · exact hs.changed_trans (hs.cached.changed_updateStatus taskId .canceled none [] none clock)
  | setReviewState taskId state =>
    obtain rfl := Option.some.inj hc
    simp only [step, setReviewState, Prod.map_snd, id]
    split_ifs
    · exact h.changed_withTask fun t r s' hs hsees hr hrt => changed_put hs hsees hr hrt rfl rfl
    · exact (Alike.refl h).changed
  | rerun | addArtifacts | setEvidence | claimLease =>
    obtain rfl := Option.some.inj hc
    simp only [step, Prod.map_snd, id]
    exact h.changed_withTask fun t r s' hs hsees hr hrt => changed_put hs hsees hr hrt rfl rfl
  | requeue taskId actor reason =>
    obtain rfl := Option.some.inj hc
    change Changed taskId s (s.requeue taskId actor reason clock).2
    refine h.changed_withTask fun t r s' hs hsees hr hrt => .appendHistory ?_ _
    exact changed_put hs hsees hr hrt rfl rfl
  | moveTask taskId toStatus toReview actor reason =>
    obtain rfl := Option.some.inj hc
    change Changed taskId s (s.moveTask taskId toStatus toReview actor reason clock).2
    refine h.changed_withTask fun t r s' hs hsees hr hrt => ?_
    by_cases hstatus : toStatus ≠ .empty ∧ toStatus.valid = false
    · rw [if_pos hstatus]
      exact hs.changed
    by_cases hreview : toReview ≠ .empty ∧ toReview.valid = false
    · rw [if_neg hstatus, if_pos hreview]
      exact hs.changed
    rw [if_neg hstatus, if_neg hreview]
    refine .appendHistory ?_ _
    exact changed_put hs hsees hr hrt rfl rfl

/-! ### Deleting, claiming and submitting -/

theorem fill (h : s.Cached) {r : Row} (hr : r ∈ s.db.tasks.rows) {db : Database}
    (hdb : db.tasks = s.db.tasks) :
    ({ s with cache := setItem r.taskId (fromRow r) s.cache, db } : Store).Cached ∧
      ∀ k, ({ s with cache := setItem r.taskId (fromRow r) s.cache, db } : Store).sees k =
        (decide (k = r.taskId) || s.sees k) := by
  refine ⟨fun k t ht => ?_, fun k => ?_⟩
  · rw [Database.read, hdb]
    rw [lookup_setItem] at ht
    split_ifs at ht with hk
    · rw [← Option.some.inj ht, hk, Table.find_of_mem hr, norm_fromRow]
      rfl
    · exact h k t ht
  · simp only [sees, hdb, lookup_setItem]
    by_cases hk : k = r.taskId
    · simp [hk, Table.find_of_mem hr]
    · simp [hk]

theorem insertNew (h : s.Cached) {t : Task} (hfresh : s.db.duplicate t = none) (now : ℤ) :
    (s.insert t now).2.Cached ∧
      (∀ k, (s.insert t now).2.db.tasks.find k =
        if k = s.givenId t now then some (toRow (s.placed t now)) else s.db.tasks.find k) ∧
      ∀ k, (s.insert t now).2.sees k = (decide (k = s.givenId t now) || s.sees k) := by
  have hkey : ∀ x ∈ s.db.tasks.rows,
      t.idempotencyKey = [] ∨ t.idempotencyKey ≠ x.idempotencyKey := fun x hx => by
    by_cases hnil : t.idempotencyKey = []
    · exact Or.inl hnil
    · rw [Database.duplicate, if_neg hnil, Database.findByIdempotencyKey,
        List.find?_eq_none] at hfresh
      exact Or.inr fun heq => hfresh x hx (by simp [heq])
  have hnumbered : (s.numbered t).Cached := h.setDb rfl
  obtain ⟨hcached, hfind, hsees⟩ := hnumbered.insert (t := s.placed t now)
    fun x hx _ => hkey x hx
  rw [insert_eq]
  refine ⟨fun id u hu => ?_, fun k => ?_, fun k => ?_⟩
  · rw [indexTask_cache] at hu
    rw [Database.read, indexTask_tasks]
    exact hcached id u hu
  · rw [indexTask_tasks]
    exact hfind k
  · rw [sees, indexTask_tasks, indexTask_lazyLoad, indexTask_cache]
    exact hsees k

theorem submit (h : s.Cached) (t : Task) (clock : ℕ → ℤ) : (s.submit t clock).2.Cached := by
  have hreap : (s.reapExpired (clock 2)).2.Cached := h.deleteIds _
  unfold Store.submit
  simp only
  split
  · next r hr =>
    refine (hreap.fill ?_ rfl).1
    unfold Database.duplicate at hr
    split_ifs at hr
    exact List.mem_of_find?_eq_some hr
  · next hnone => exact (hreap.insertNew hnone (clock 3)).1

theorem resetOrphans (h : s.Cached) (owner : Str) (clock : ℕ → ℤ) :
    (s.resetOrphans owner clock).2.Cached := by
  unfold Store.resetOrphans
  split_ifs
  · exact h
  · exact h.claimWhere rfl fun r hr ho => List.mem_map.mpr ⟨r, List.mem_filter.mpr ⟨hr, ho⟩, rfl⟩

theorem dequeue (h : s.Cached) (team owner token : Str) (clock : ℕ → ℤ) :
    (s.dequeue team owner token clock).2.Cached := by
  rcases h.dequeue_cases team owner token clock with ⟨-, heq⟩ | ⟨r, -, -, ⟨-, heq⟩ |
    ⟨-, t, s', hs, -, ⟨-, heq⟩ | ⟨-, heq⟩⟩⟩ <;> rw [heq]
  · exact h
  · exact h.claim r owner token clock
  · exact hs.cached
  · exact hs.cached.revert _ _

/-- **The invariant of the cache.** Every operation keeps it, in both modes. -/
theorem step (h : s.Cached) (c : Call) : (s.step c).2.Cached := by
  cases hc : c.op.single with
  | true =>
    obtain ⟨id, hid⟩ := Option.isSome_iff_exists.mp hc
    exact (h.changed hid).cached
  | false =>
    obtain ⟨op, clock⟩ := c
    cases op with
    | submit t => exact h.submit t clock
    | delete taskId => exact h.deleteIds [taskId]
    | reapExpired => exact h.deleteIds _
    | dequeue team owner token => exact h.dequeue team owner token clock
    | resetOrphans owner => exact h.resetOrphans owner clock
    | _ => exact Bool.noConfusion hc

end Cached

theorem cached_open (m : Bool) (T : Table) (history : List HistoryRow) (index : List IndexRow)
    (ttl : ℤ) : (Store.open m T history index ttl).Cached := fun id t ht =>
  ((Coherent.open .any m T history index ttl).cached id t ht).2

theorem sees_open (m : Bool) (T : Table) (history : List HistoryRow) (index : List IndexRow)
    (ttl : ℤ) (hr : T.find id = some r) : (Store.open m T history index ttl).sees id = true := by
  cases m with
  | true => exact sees_of_lazy rfl hr
  | false =>
    have hcoherent := Coherent.open .any false T history index ttl
    unfold sees
    rw [show (Store.open false T history index ttl).db.tasks.find id = some r from hr]
    cases hlookup : (Store.open false T history index ttl).cache.lookup id with
    | some t => rfl
    | none =>
      have hread : Option.map fromRow (T.find id) = none := hcoherent.full rfl id hlookup
      rw [hr] at hread
      exact absurd hread (Option.some_ne_none _)

end Store

theorem reached_cached (m : Bool) (T : Table) (history : List HistoryRow)
    (index : List IndexRow) (ttl : ℤ) (calls : List Call) :
    (reached m T history index ttl calls).Cached :=
  Machine.run_invariant_always (I := Store.Cached) (fun c _ hs => hs.step c) calls
    (Store.cached_open m T history index ttl)

end AgentStudio.Tasks

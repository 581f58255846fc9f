import AgentStudio.Tasks.View

/-!
# Finding a task by its idempotency key

An idempotency key stands in two places: in the column of its task, which `submit` searches, and
in the table `idempotency_index`, which `find_by_idempotency` searches. `submit` writes the second
with `INSERT OR IGNORE`, and nothing deletes from it.

`FindsByKey` is what a caller of `find_by_idempotency` expects: the stored task with the key, if
there is one. It says that the index and the column agree (`findsByKey_iff`), and
`findsByKey_throughout_iff` says of a whole run when they do: the index must have no entry for the
key of a new task but one that names the task, none for another key that names it, and an eager
store must not lose a task with a key from its cache (`KeySafe`).

A key that is submitted again after its task was deleted is not found (`not_findsByKey`): the
index still names the deleted task.
-/

namespace AgentStudio.Tasks

open PyText PyDict PyJson Machine

/-- The task that `idempotency_index` names for a key. -/
def Database.indexed (db : Database) (key : Str) : Option Str :=
  (db.index.find? (·.idempotencyKey = key)).map IndexRow.taskId

/-- `find_by_idempotency`. -/
def Store.findByIdempotency (s : Store) (key : Str) : Option Task × Store :=
  if key = [] then (none, s)
  else
    match s.db.indexed key with
    | none => (none, s)
    | some taskId => s.getTask taskId

/-- The stored task with a key is found, exactly if there is one, and there is at most one. -/
def FindsByKey (s : Store) (key : Str) : Prop :=
  (∀ t, (s.findByIdempotency key).1.map norm = some t ↔
      ∃ r ∈ s.db.tasks.rows, r.idempotencyKey = key ∧ fromRow r = t) ∧
    ∀ a ∈ s.db.tasks.rows, ∀ b ∈ s.db.tasks.rows,
      a.idempotencyKey = key → b.idempotencyKey = key → a = b

theorem Database.indexed_indexInsert (db : Database) (row : IndexRow) (key : Str) :
    (db.indexInsert row).indexed key =
      if key = row.idempotencyKey then (db.indexed key).or (some row.taskId)
      else db.indexed key := by
  unfold indexInsert indexed
  cases hany : db.index.any (·.idempotencyKey = row.idempotencyKey) with
  | true =>
    rw [if_pos rfl]
    split_ifs with hk
    · subst hk
      obtain ⟨x, hx, hxk⟩ := List.any_eq_true.mp hany
      cases hf : db.index.find? (·.idempotencyKey = row.idempotencyKey) with
      | none => exact absurd hxk (List.find?_eq_none.mp hf x hx)
      | some x => rfl
    · rfl
  | false =>
    rw [if_neg Bool.false_ne_true, List.find?_append]
    split_ifs with hk
    · subst hk
      cases db.index.find? (·.idempotencyKey = row.idempotencyKey) <;> simp
    · cases db.index.find? (·.idempotencyKey = key) <;> simp [Ne.symm hk]

theorem Store.indexed_insert (s : Store) (t : Task) (now : ℤ) (key : Str) :
    (s.insert t now).2.db.indexed key =
      if key ≠ [] ∧ key = t.idempotencyKey
      then (s.db.indexed key).or (some (s.givenId t now)) else s.db.indexed key := by
  have hkey : (s.placed t now).idempotencyKey = t.idempotencyKey := rfl
  rw [insert_eq, indexTask, hkey]
  split_ifs with hnil hk hk
  · exact absurd (hk.2.trans hnil) hk.1
  · rfl
  · exact (Database.indexed_indexInsert _ _ _).trans (if_pos hk.2)
  · refine (Database.indexed_indexInsert _ _ _).trans (if_neg fun heq => hk ⟨?_, heq⟩)
    exact heq ▸ hnil

/-! ### The two places of a key -/

def Database.Keyed (db : Database) (key id : Str) : Prop :=
  ∃ r, db.tasks.find id = some r ∧ r.idempotencyKey = key

/-- The index names the tasks with their keys, as far as the store sees them. -/
def KeysAgree (s : Store) : Prop :=
  ∀ key, key ≠ [] → ∀ id,
    s.db.indexed key = some id ∧ s.sees id = true ↔ s.db.Keyed key id

variable {s : Store}

theorem find_eq_some_iff (h : s.Cached) {key : Str} (hkey : key ≠ []) (t : Task) :
    (s.findByIdempotency key).1.map norm = some t ↔
      ∃ id r, s.db.indexed key = some id ∧ s.sees id = true ∧
        s.db.tasks.find id = some r ∧ fromRow r = t := by
  unfold Store.findByIdempotency
  rw [if_neg hkey]
  cases hi : s.db.indexed key with
  | none => simp
  | some id =>
    simp only
    rcases h.getTask_cases id with ⟨hsees, hg⟩ | ⟨u, r, hsees, hr, hur, hg, -⟩
    · rw [hg]
      simp [hsees]
    · rw [hg, Option.map_some, Option.some.injEq, hur]
      constructor
      · exact fun ht => ⟨id, r, rfl, hsees, hr, ht⟩
      · rintro ⟨id', r', hid, -, hr', ht⟩
        obtain rfl := Option.some.inj hid
        rw [hr] at hr'
        exact Option.some.inj hr' ▸ ht

theorem findsByKey_iff (h : s.Cached) {key : Str} (hkey : key ≠ []) :
    FindsByKey s key ↔
      ∀ id, s.db.indexed key = some id ∧ s.sees id = true ↔ s.db.Keyed key id := by
  have hone : ∀ a ∈ s.db.tasks.rows, ∀ b ∈ s.db.tasks.rows,
      a.idempotencyKey = key → b.idempotencyKey = key → a = b := fun a ha b hb hak hbk =>
    Table.eq_of_idempotencyKey ha hb (hak ▸ hkey) (hak.trans hbk.symm)
  unfold FindsByKey
  rw [and_iff_left hone]
  constructor
  · intro hfind id
    constructor
    · rintro ⟨hid, hsees⟩
      obtain ⟨r, hr⟩ := Store.row_of_sees hsees
      obtain ⟨x, hx, hxk, hxr⟩ := (hfind (fromRow r)).mp
        ((find_eq_some_iff h hkey _).mpr ⟨id, r, hid, hsees, hr, rfl⟩)
      refine ⟨x, ?_, hxk⟩
      have hxid : x.taskId = id := (congrArg Record.taskId hxr).trans (Table.mem_of_find hr).2
      exact hxid ▸ Table.find_of_mem hx
    · rintro ⟨r, hr, hrk⟩
      obtain ⟨hmem, rfl⟩ := Table.mem_of_find hr
      obtain ⟨id, x, hid, hsees, hx, hxr⟩ :=
        (find_eq_some_iff h hkey _).mp ((hfind (fromRow r)).mpr ⟨r, hmem, hrk, rfl⟩)
      have hxid : (fromRow x).taskId = (fromRow r).taskId := congrArg Record.taskId hxr
      obtain rfl : id = r.taskId := (Table.mem_of_find hx).2.symm.trans hxid
      exact ⟨hid, hsees⟩
  · intro hagree t
    rw [find_eq_some_iff h hkey]
    constructor
    · rintro ⟨id, r, hid, hsees, hr, ht⟩
      obtain ⟨x, hx, hxk⟩ := (hagree id).mp ⟨hid, hsees⟩
      rw [hr] at hx
      exact ⟨r, (Table.mem_of_find hr).1, Option.some.inj hx ▸ hxk, ht⟩
    · rintro ⟨r, hr, hrk, ht⟩
      have hfind := Table.find_of_mem hr
      obtain ⟨hid, hsees⟩ := (hagree r.taskId).mpr ⟨r, hfind, hrk⟩
      exact ⟨r.taskId, r, hid, hsees, hfind, ht⟩

theorem keysAgree_iff (h : s.Cached) : KeysAgree s ↔ ∀ key, key ≠ [] → FindsByKey s key :=
  forall₂_congr fun _ hkey => (findsByKey_iff h hkey).symm

/-! ### What the operations do to the two places -/

/-- The index has no entry for the key of a new task but one that names it, and none for another
key that names it. -/
def Database.IndexFree (db : Database) (key id : Str) : Prop :=
  (key ≠ [] → db.indexed key = none ∨ db.indexed key = some id) ∧
    ∀ k, k ≠ [] → k ≠ key → db.indexed k ≠ some id

def KeySafe (c : Call) (s : Store) : Prop :=
  match c.op with
  | .submit t =>
    let s := (s.reapExpired (c.clock 2)).2
    s.db.duplicate (Store.prepare t c.clock) ≠ none ∨
      s.db.IndexFree t.idempotencyKey (s.givenId t (c.clock 3))
  | .dequeue team owner _ =>
    s.lazyLoad = true ∨ owner = [] ∨
      ∀ r, s.db.candidate (orDefault "default" team) = some r → r.idempotencyKey = []
  | .resetOrphans owner =>
    s.lazyLoad = true ∨ owner = [] ∨
      ∀ r ∈ s.db.tasks.rows, Database.orphan owner r = true → r.idempotencyKey = []
  | _ => True

theorem Database.keyed_deleteIds {db : Database} {ids : List Str} {key id : Str} :
    (db.deleteIds ids).Keyed key id ↔ id ∉ ids ∧ db.Keyed key id := by
  rw [Keyed, find_deleteIds, Keyed]
  by_cases hmem : id ∈ ids <;> simp [hmem]

theorem Database.keyed_claimWhere {db db' : Database} {p : Row → Bool} {c : Claim}
    (hdb : db'.tasks = db.tasks.claimWhere p c) {key id : Str} :
    db'.Keyed key id ↔ db.Keyed key id := by
  rw [Keyed, hdb, Table.find_claimWhere, Keyed]
  cases hf : db.tasks.find id with
  | none => simp
  | some r => by_cases hp : p r = true <;> simp [hp, Claim.set]

namespace Store.Changed

variable {s' : Store} {k : Str}

theorem indexed (h : Changed k s s') (key : Str) : s'.db.indexed key = s.db.indexed key := by
  rw [Database.indexed, h.index]
  rfl

theorem keyed (h : Changed k s s') {key id : Str} :
    s'.db.Keyed key id ↔ s.db.Keyed key id := by
  rcases h.row with hrow | ⟨r, t, -, hr, hkey, hrow⟩
  · rw [Database.Keyed, hrow, Database.Keyed]
  · rw [Database.Keyed, hrow, Database.Keyed]
    split_ifs with hid
    · subst hid
      simp [hr, hkey]
    · rfl

end Store.Changed

namespace KeysAgree

theorem congr {s' : Store} (hindex : ∀ key, s'.db.indexed key = s.db.indexed key)
    (hsees : ∀ id, s'.sees id = s.sees id)
    (hkeyed : ∀ key id, s'.db.Keyed key id ↔ s.db.Keyed key id) : KeysAgree s' ↔ KeysAgree s :=
  forall₃_congr fun key _ id => by rw [hindex, hsees, hkeyed]

theorem changed {s' : Store} {k : Str} (h : Store.Changed k s s') :
    KeysAgree s' ↔ KeysAgree s :=
  congr h.indexed h.sees fun _ _ => h.keyed

theorem alike {s' : Store} (h : Store.Alike s s') : KeysAgree s' ↔ KeysAgree s :=
  changed (k := []) h.changed

theorem deleteIds (h : KeysAgree s) (ids : List Str) :
    KeysAgree { s with db := s.db.deleteIds ids, cache := Store.popAll ids s.cache } := by
  intro key hkey id
  rw [Database.keyed_deleteIds, ← h key hkey id, Store.sees_deleteIds, Bool.and_eq_true,
    decide_eq_true_eq]
  exact and_left_comm

/-- A claim keeps them in agreement in a lazy store, and in an eager one if it drops no task with
a key. -/
theorem claimWhere_iff (h : KeysAgree s) {p : Row → Bool} {c : Claim} {ids : List Str}
    {db : Database} (hdb : db.tasks = s.db.tasks.claimWhere p c) (hindex : db.index = s.db.index) :
    KeysAgree { s with db, cache := Store.popAll ids s.cache } ↔
      s.lazyLoad = true ∨ ∀ r ∈ s.db.tasks.rows, r.taskId ∈ ids → r.idempotencyKey = [] := by
  have hkeyed : ∀ key id, db.Keyed key id ↔ s.db.Keyed key id := fun _ _ =>
    Database.keyed_claimWhere hdb
  have hindexed : ∀ key, db.indexed key = s.db.indexed key := fun key => by
    rw [Database.indexed, hindex]
    rfl
  constructor
  · intro hagree
    refine or_iff_not_imp_left.mpr fun heager r hr hid => ?_
    by_contra hkey
    have hrow : s.db.Keyed r.idempotencyKey r.taskId := ⟨r, Table.find_of_mem hr, rfl⟩
    have hlost := ((hagree _ hkey r.taskId).mpr ((hkeyed _ _).mpr hrow)).2
    rw [Store.sees_claimWhere s ids hdb] at hlost
    simp [hid, Bool.eq_false_of_not_eq_true heager] at hlost
  · intro hcond key hkey id
    rw [hkeyed, ← h key hkey id, hindexed, Store.sees_claimWhere s ids hdb]
    rcases hcond with hlazy | hcond
    · simp [hlazy]
    · by_cases hid : id ∈ ids
      · have hnone : ¬ s.db.Keyed key id := by
          rintro ⟨r, hr, hrk⟩
          obtain ⟨hmem, rfl⟩ := Table.mem_of_find hr
          exact hkey (hrk.symm.trans (hcond r hmem hid))
        have hold := mt (h key hkey id).mp hnone
        refine ⟨fun hnew => absurd ⟨hnew.1, ?_⟩ hold, fun hseen => absurd hseen hold⟩
        exact (Bool.and_eq_true _ _ ▸ hnew.2).2
      · simp [hid]

/-- A row that `submit` puts into the cache was seen already, if it has a key. -/
theorem fill (h : KeysAgree s) {r : Row} (hr : r ∈ s.db.tasks.rows) (hkey : r.idempotencyKey ≠ [])
    (flag : Bool) :
    KeysAgree { s with
      cache := setItem r.taskId (fromRow r) s.cache
      db := { s.db with lastSubmitDeduped := flag } } := by
  have hseen := ((h _ hkey r.taskId).mpr ⟨r, Table.find_of_mem hr, rfl⟩).2
  refine Iff.mpr (?_ : _ ↔ KeysAgree s) h
  refine congr (fun _ => rfl) (fun id => ?_) fun _ _ => Iff.rfl
  have hfind := Table.find_of_mem hr
  simp only [Store.sees, lookup_setItem] at hseen ⊢
  by_cases hid : id = r.taskId
  · subst hid
    rw [hseen]
    simp [hfind]
  · simp [hid]

theorem insert_iff (hs : s.Cached) (h : KeysAgree s) {t : Task}
    (hfresh : s.db.duplicate t = none) (now : ℤ) :
    KeysAgree (s.insert t now).2 ↔ s.db.IndexFree t.idempotencyKey (s.givenId t now) := by
  obtain ⟨-, hfind, hsees⟩ := hs.insertNew hfresh now
  have hindexed := s.indexed_insert t now
  generalize (s.insert t now).2 = s' at hfind hsees hindexed
  generalize s.givenId t now = new at hfind hsees hindexed
  have hunused : t.idempotencyKey ≠ [] → ∀ id, ¬ s.db.Keyed t.idempotencyKey id := by
    rintro hkey id ⟨r, hr, hrk⟩
    rw [Database.duplicate, if_neg hkey, Database.findByIdempotencyKey,
      List.find?_eq_none] at hfresh
    exact hfresh r (Table.mem_of_find hr).1 (by simp [hrk])
  have hnew : ∀ key, s'.db.Keyed key new ↔ t.idempotencyKey = key := fun key => by
    rw [Database.Keyed, hfind, if_pos rfl]
    simp [Store.placed]
  have hold : ∀ key id, id ≠ new → (s'.db.Keyed key id ↔ s.db.Keyed key id) := fun key id hid => by
    rw [Database.Keyed, hfind, if_neg hid, Database.Keyed]
  constructor
  · intro hagree
    refine ⟨fun hkey => ?_, fun key hkey hne hindex => ?_⟩
    · have hboth := ((hagree _ hkey new).mpr ((hnew _).mpr rfl)).1
      rw [hindexed, if_pos ⟨hkey, rfl⟩] at hboth
      cases hi : s.db.indexed t.idempotencyKey with
      | none => exact Or.inl rfl
      | some id => exact Or.inr (by simpa [hi] using hboth)
    · have hboth : s'.db.indexed key = some new ∧ s'.sees new = true := by
        rw [hindexed, if_neg fun hk => hne hk.2, hsees]
        exact ⟨hindex, by simp⟩
      exact hne ((hnew key).mp ((hagree key hkey new).mp hboth)).symm
  · rintro ⟨hown, hother⟩ key hkey id
    by_cases hid : id = new
    · subst hid
      rw [hnew, hindexed, hsees]
      by_cases hk : key = t.idempotencyKey
      · subst hk
        rcases hown hkey with hi | hi <;> simp [hkey, hi]
      · have hindex := hother key hkey hk
        simp [hk, hindex, Ne.symm hk]
    · rw [hold key id hid, ← h key hkey id, hindexed, hsees]
      by_cases hk : key = t.idempotencyKey
      · subst hk
        have hnone := mt (h _ hkey id).mp (hunused hkey id)
        rcases hown hkey with hi | hi <;> simp [hkey, hi, hid, Ne.symm hid]
      · simp [hk, hid]

/-- **One operation.** It keeps the two places of the keys in agreement exactly if it is safe. -/
theorem step_iff (hs : s.Cached) (h : KeysAgree s) (c : Call) :
    KeysAgree (s.step c).2 ↔ KeySafe c s := by
  cases hc : c.op.single with
  | true =>
    obtain ⟨id, hid⟩ := Option.isSome_iff_exists.mp hc
    rw [changed (hs.changed hid)]
    obtain ⟨op, clock⟩ := c
    refine iff_of_true h ?_
    cases op <;> first | exact trivial | exact Bool.noConfusion hc
  | false =>
    obtain ⟨op, clock⟩ := c
    cases op with
    | submit t =>
      have hreap : KeysAgree (s.reapExpired (clock 2)).2 := h.deleteIds _
      have hreaped : (s.reapExpired (clock 2)).2.Cached := hs.deleteIds _
      change KeysAgree (s.submit t clock).2 ↔ _ ∨ _
      unfold Store.submit
      simp only
      cases hd : (s.reapExpired (clock 2)).2.db.duplicate (Store.prepare t clock) with
      | some r =>
        simp only [ne_eq, reduceCtorEq, not_false_eq_true, true_or, iff_true]
        unfold Database.duplicate at hd
        split_ifs at hd with hkey
        have hr := List.find?_some hd
        refine hreap.fill (List.mem_of_find?_eq_some hd) ?_ true
        rw [decide_eq_true_eq] at hr
        exact hr ▸ hkey
      | none =>
        simp only [ne_eq, not_true_eq_false, false_or]
        exact hreap.insert_iff hreaped hd (clock 3)
    | delete | reapExpired => exact iff_of_true (h.deleteIds _) trivial
    | dequeue team owner token =>
      change KeysAgree (s.dequeue team owner token clock).2 ↔ _ ∨ _ ∨ _
      rcases hs.dequeue_cases team owner token clock with ⟨hnone, heq⟩ | ⟨r, howner, hc, hcases⟩
      · rw [heq]
        refine iff_of_true h (Or.inr (hnone.imp_right fun hc r hr => ?_))
        rw [hc] at hr
        exact absurd hr (by simp)
      · have hclaim : KeysAgree (s.claim r owner token clock) ↔ s.lazyLoad = true ∨
            ∀ x ∈ s.db.tasks.rows, x.taskId ∈ [r.taskId] → x.idempotencyKey = [] :=
          h.claimWhere_iff rfl rfl
        rcases hcases with ⟨heager, heq⟩ | ⟨hlazy, t, s', hs', -, ⟨-, heq⟩ | ⟨-, heq⟩⟩ <;> rw [heq]
        · rw [hclaim, hc, or_iff_right howner]
          refine or_congr_right ⟨fun hx x hxr => ?_, fun hx x hmem hid => ?_⟩
          · obtain rfl := Option.some.inj hxr
            exact hx r (Database.candidate_spec hc).1 (List.mem_singleton.mpr rfl)
          · obtain rfl := List.inj_on_of_nodup_map s.db.tasks.nodup hmem
              (Database.candidate_spec hc).1 (List.mem_singleton.mp hid)
            exact hx x rfl
        · exact iff_of_true ((alike hs').mpr (hclaim.mpr (Or.inl hlazy))) (Or.inl hlazy)
        · have hs'agree := (alike hs').mpr (hclaim.mpr (Or.inl hlazy))
          have hrevert : KeysAgree (s'.revert r.taskId (clock 2)) ↔ s'.lazyLoad = true ∨
              ∀ x ∈ s'.db.tasks.rows, x.taskId ∈ [r.taskId] → x.idempotencyKey = [] :=
            hs'agree.claimWhere_iff rfl rfl
          exact iff_of_true (hrevert.mpr (Or.inl (hs'.lazyLoad.trans hlazy))) (Or.inl hlazy)
    | resetOrphans owner =>
      change KeysAgree (s.resetOrphans owner clock).2 ↔ _ ∨ _ ∨ _
      by_cases howner : owner = []
      · rw [Store.resetOrphans, if_pos howner]
        exact iff_of_true h (Or.inr (Or.inl howner))
      · have hreset : KeysAgree (s.resetOrphans owner clock).2 ↔ s.lazyLoad = true ∨
            ∀ r ∈ s.db.tasks.rows, r.taskId ∈ s.db.orphanIds owner → r.idempotencyKey = [] := by
          rw [Store.resetOrphans, if_neg howner]
          exact h.claimWhere_iff rfl rfl
        rw [hreset, or_iff_right howner]
        refine or_congr_right (forall₂_congr fun r hr => imp_congr_left ?_)
        rw [Database.orphanIds, List.mem_map]
        constructor
        · rintro ⟨x, hx, hid⟩
          obtain ⟨hmem, ho⟩ := List.mem_filter.mp hx
          exact List.inj_on_of_nodup_map s.db.tasks.nodup hmem hr hid ▸ ho
        · exact fun ho => ⟨r, List.mem_filter.mpr ⟨hr, ho⟩, rfl⟩
    | _ => exact Bool.noConfusion hc

end KeysAgree

/-! ### Every run -/

/-- **`find_by_idempotency`.** In a run of a store over any database, every task is found by its
key in every state exactly if this is so when the store is opened, and every operation is safe. -/
theorem findsByKey_throughout_iff (m : Bool) (T : Table) (history : List HistoryRow)
    (index : List IndexRow) (ttl : ℤ) (calls : List Call) :
    (∀ n key, key ≠ [] → FindsByKey (reached m T history index ttl (calls.take n)) key) ↔
      (∀ key, key ≠ [] → FindsByKey (Store.open m T history index ttl) key) ∧
        Along Store.step KeySafe calls (Store.open m T history index ttl) := by
  have hopen := Store.cached_open m T history index ttl
  rw [← keysAgree_iff hopen, ← run_throughout_iff (J := Store.Cached) (fun c _ hs => hs.step c)
    (fun c _ hs h => h.step_iff hs c) calls hopen]
  exact forall_congr' fun n => (keysAgree_iff (reached_cached m T history index ttl _)).symm

/-- A key that is submitted again after its task was deleted is not found. -/
theorem not_findsByKey :
    ¬ ∀ (m : Bool) (calls : List Call) (key : Str), key ≠ [] →
      FindsByKey (reached m Table.empty [] [] 0 calls) key := by
  intro hall
  let t : Task := { Task.default with idempotencyKey := "k" }
  let calls : List Call := [⟨.submit t, fun _ => 1⟩,
    ⟨.delete (Store.newId 1 1), fun _ => 1⟩, ⟨.submit t, fun _ => 1⟩]
  have hfind := (hall true calls "k" (by decide)).1
  have hrow : (reached true Table.empty [] [] 0 calls).db.tasks.rows.any
      (·.idempotencyKey = "k") = true := by decide
  have hnone : ((reached true Table.empty [] [] 0 calls).findByIdempotency
      "k").1.isNone = true := by decide
  obtain ⟨r, hr, hrk⟩ := List.any_eq_true.mp hrow
  have hsome := (hfind (fromRow r)).mpr ⟨r, hr, by simpa using hrk, rfl⟩
  rw [Option.isNone_iff_eq_none.mp hnone] at hsome
  exact absurd hsome (by simp)

end AgentStudio.Tasks

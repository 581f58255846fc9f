import AgentStudio.Tasks.Idempotency

/-!
# Holding on to a task

A caller that has submitted a task under an idempotency key comes back to it later, by its id or by
its key. `Spares` is the condition on an operation not to take the task from the store's view, a
condition on the operation and the rows before it; `Cached.sees_step` says that it suffices. An
index entry stays whatever happens (`indexed_step`), and only a `submit` with a key brings an entry
or a row with this key (`Submits`, `indexed_step_of_not_submits`, `keyed_step_of_not_submits`).

`findByIdempotency_isSome_iff` puts the two together: a key is found as long as the indexed task is
seen.
-/

namespace AgentStudio.Tasks

open PyText PyDict PyJson

/-- The operation does not take a task from the store's view. -/
def Spares (c : Call) (s : Store) (id : Str) : Prop :=
  match c.op with
  | .submit _ => id ∉ s.db.expiredIds (c.clock 2)
  | .delete taskId => id ≠ taskId
  | .reapExpired => id ∉ s.db.expiredIds (c.clock 0)
  | .dequeue team owner _ =>
    s.lazyLoad = true ∨ owner = [] ∨
      ∀ r, s.db.candidate (orDefault "default" team) = some r → id ≠ r.taskId
  | .resetOrphans owner => s.lazyLoad = true ∨ owner = [] ∨ id ∉ s.db.orphanIds owner
  | _ => True

def Submits (c : Call) (key : Str) : Prop :=
  match c.op with
  | .submit t => t.idempotencyKey = key
  | _ => False

variable {s : Store} {key id : Str}

theorem findByIdempotency_isSome_iff (h : s.Cached) (hkey : key ≠ []) :
    (s.findByIdempotency key).1.isSome = true ↔
      ∃ id, s.db.indexed key = some id ∧ s.sees id = true := by
  unfold Store.findByIdempotency
  rw [if_neg hkey]
  rcases s.db.indexed key with _ | id
  · simp
  · rcases h.getTask_cases id with ⟨hsees, hg⟩ | ⟨t, r, hsees, -, -, hg, -⟩
    · simp [hg, hsees]
    · simp [hg, hsees]

theorem taskId_of_findByIdempotency (h : s.Cached) {t : Task}
    (ht : (s.findByIdempotency key).1 = some t) :
    s.db.indexed key = some t.taskId ∧ s.sees t.taskId = true := by
  unfold Store.findByIdempotency at ht
  split_ifs at ht with hkey
  rcases hindex : s.db.indexed key with _ | id
  · rw [hindex] at ht
    exact absurd ht.symm (Option.some_ne_none t)
  · simp only [hindex] at ht
    rcases h.getTask_cases id with ⟨-, hg⟩ | ⟨u, r, hsees, hr, hur, hg, -⟩
    · rw [hg] at ht
      exact absurd ht.symm (Option.some_ne_none t)
    · obtain rfl : u = t := Option.some.inj (hg.symm.trans ht)
      have hid : u.taskId = id := (congrArg Record.taskId hur).trans (Table.mem_of_find hr).2
      exact ⟨by rw [hid], hid ▸ hsees⟩

namespace Store.Cached

theorem alike_getTask (h : s.Cached) (id : Str) : Alike s (s.getTask id).2 := by
  rcases h.getTask_cases id with ⟨-, hg⟩ | ⟨t, r, -, -, -, -, hs⟩
  · rw [hg]
    exact .refl h
  · exact hs

theorem alike_findByIdempotency (h : s.Cached) (key : Str) :
    Alike s (s.findByIdempotency key).2 := by
  unfold Store.findByIdempotency
  split_ifs
  · exact .refl h
  · rcases s.db.indexed key with _ | id
    · exact .refl h
    · exact h.alike_getTask id

/-! ### Staying in view -/

theorem sees_submit (h : s.Cached) {t : Task} {clock : ℕ → ℤ}
    (hid : id ∉ s.db.expiredIds (clock 2)) (hsees : s.sees id = true) :
    (s.submit t clock).2.sees id = true := by
  have hreap : (s.reapExpired (clock 2)).2.sees id = true := by
    rw [show (s.reapExpired (clock 2)).2.sees id = _ from sees_deleteIds s _ id, hsees]
    simp [hid]
  have hreaped : (s.reapExpired (clock 2)).2.Cached := h.deleteIds _
  unfold Store.submit
  simp only
  rcases hd : (s.reapExpired (clock 2)).2.db.duplicate (prepare t clock) with _ | r
  · rw [(hreaped.insertNew hd (clock 3)).2.2 id, hreap, Bool.or_true]
  · unfold Database.duplicate at hd
    split_ifs at hd
    refine ((hreaped.fill (List.mem_of_find?_eq_some hd) rfl).2 id).trans ?_
    rw [hreap, Bool.or_true]

/-- **One operation.** A task that the operation spares stays in view. -/
theorem sees_step (h : s.Cached) {c : Call} (hc : Spares c s id) (hsees : s.sees id = true) :
    (s.step c).2.sees id = true := by
  rcases hsingle : c.op.target with _ | target
  · obtain ⟨op, clock⟩ := c
    cases op with
    | submit t => exact h.sees_submit hc hsees
    | delete taskId =>
      refine (sees_deleteIds s [taskId] id).trans ?_
      have hne : id ≠ taskId := hc
      simp [hne, hsees]
    | reapExpired =>
      refine (sees_deleteIds s _ id).trans ?_
      rw [hsees, Bool.and_true, decide_eq_true_eq]
      exact hc
    | dequeue team owner token =>
      change (s.dequeue team owner token clock).2.sees id = true
      rcases h.dequeue_cases team owner token clock with ⟨-, heq⟩ | ⟨r, howner, hr, hcases⟩
      · rwa [heq]
      · rcases hcases with ⟨heager, heq⟩ | ⟨hlazy, t, s', hs', -, ⟨-, heq⟩ | ⟨-, heq⟩⟩ <;> rw [heq]
        · have hne : id ≠ r.taskId :=
            (hc.resolve_left (by simp [heager])).resolve_left howner r hr
          rw [sees_claim, hsees]
          simp [hne]
        · rw [hs'.sees, sees_claim, hsees, hlazy]
          rfl
        · rw [sees_revert, hs'.sees, sees_claim, hsees, hs'.lazyLoad.trans hlazy, hlazy]
          rfl
    | resetOrphans owner =>
      change (s.resetOrphans owner clock).2.sees id = true
      unfold Store.resetOrphans
      split_ifs with howner
      · exact hsees
      · refine (s.sees_claimWhere (s.db.orphanIds owner) rfl id).trans ?_
        rw [hsees, Bool.and_true]
        rcases hc with hlazy | howner' | hid
        · rw [hlazy]
          rfl
        · exact absurd howner' howner
        · simp [hid]
    | _ => exact absurd hsingle (Option.some_ne_none _)
  · exact ((h.changed hsingle).sees id).trans hsees

end Store.Cached

/-! ### Keys -/

namespace Store

/-- **What `submit` does.** The expired tasks go; the stored task with the key is cached and
returned, or else the task is inserted. -/
theorem submit_cases (s : Store) (t : Task) (clock : ℕ → ℤ) :
    (∃ r ∈ (s.reapExpired (clock 2)).2.db.tasks.rows, t.idempotencyKey ≠ [] ∧
        r.idempotencyKey = t.idempotencyKey ∧
        s.submit t clock = (fromRow r, { (s.reapExpired (clock 2)).2 with
          cache := setItem r.taskId (fromRow r) (s.reapExpired (clock 2)).2.cache
          db := { (s.reapExpired (clock 2)).2.db with lastSubmitDeduped := true } })) ∨
      (s.reapExpired (clock 2)).2.db.duplicate (prepare t clock) = none ∧
        s.submit t clock =
          (s.reapExpired (clock 2)).2.insert (prepare t clock) (clock 3) := by
  unfold Store.submit
  simp only
  rcases hd : (s.reapExpired (clock 2)).2.db.duplicate (prepare t clock) with _ | r
  · exact Or.inr ⟨rfl, rfl⟩
  · unfold Database.duplicate at hd
    split_ifs at hd with hkey
    have hr := of_decide_eq_true (List.find?_some hd :)
    exact Or.inl ⟨r, List.mem_of_find?_eq_some hd, hkey, hr, rfl⟩

variable {clock : ℕ → ℤ}

theorem indexed_submit {t : Task} (hindex : s.db.indexed key = some id) :
    (s.submit t clock).2.db.indexed key = some id := by
  rcases s.submit_cases t clock with ⟨r, -, -, -, heq⟩ | ⟨-, heq⟩ <;> rw [heq]
  · exact hindex
  · have hreap : (s.reapExpired (clock 2)).2.db.indexed key = some id := hindex
    rw [Store.indexed_insert, hreap]
    split_ifs <;> rfl

theorem indexed_submit_of_ne {t : Task} (hkey : t.idempotencyKey ≠ key) :
    (s.submit t clock).2.db.indexed key = s.db.indexed key := by
  rcases s.submit_cases t clock with ⟨r, -, -, -, heq⟩ | ⟨-, heq⟩ <;> rw [heq]
  · rfl
  · rw [Store.indexed_insert, if_neg]
    · rfl
    · exact fun h => hkey h.2.symm

theorem Cached.keyed_submit_of_ne (h : s.Cached) {t : Task} (hkey : t.idempotencyKey ≠ key)
    (hnew : (s.submit t clock).2.db.Keyed key id) : s.db.Keyed key id := by
  have hreaped : (s.reapExpired (clock 2)).2.Cached := h.deleteIds _
  have hreap : (s.reapExpired (clock 2)).2.db.Keyed key id → s.db.Keyed key id := fun h =>
    (Database.keyed_deleteIds.mp h).2
  rcases s.submit_cases t clock with ⟨r, -, -, -, heq⟩ | ⟨hd, heq⟩ <;> rw [heq] at hnew
  · exact hreap hnew
  · refine hreap ?_
    rw [Database.Keyed, (hreaped.insertNew hd (clock 3)).2.1] at hnew
    split_ifs at hnew with hid
    · obtain ⟨r, hr, hrk⟩ := hnew
      rw [← Option.some.inj hr] at hrk
      exact absurd hrk hkey
    · exact hnew

theorem Cached.submit_new (h : s.Cached) {t : Task} (hkey : t.idempotencyKey ≠ [])
    (hnone : ∀ id, ¬s.db.Keyed t.idempotencyKey id)
    (hindex : s.db.indexed t.idempotencyKey = none) :
    (s.submit t clock).2.db.lastSubmitDeduped = false ∧
      (s.submit t clock).2.db.indexed t.idempotencyKey = some (s.submit t clock).1.taskId ∧
      (s.submit t clock).2.sees (s.submit t clock).1.taskId = true := by
  have hreaped : (s.reapExpired (clock 2)).2.Cached := h.deleteIds _
  rcases s.submit_cases t clock with ⟨r, hr, -, hrk, -⟩ | ⟨hd, heq⟩
  · have hkeyed : (s.reapExpired (clock 2)).2.db.Keyed t.idempotencyKey r.taskId :=
      ⟨r, Table.find_of_mem hr, hrk⟩
    exact absurd (Database.keyed_deleteIds.mp hkeyed).2 (hnone r.taskId)
  · rw [heq]
    have hplaced : ((s.reapExpired (clock 2)).2.insert (prepare t clock) (clock 3)).1.taskId =
        (s.reapExpired (clock 2)).2.givenId (prepare t clock) (clock 3) := by
      rw [insert_eq]
      rfl
    have hreap : (s.reapExpired (clock 2)).2.db.indexed t.idempotencyKey = none := hindex
    refine ⟨?_, ?_, ?_⟩
    · rw [insert_eq, indexTask]
      split_ifs
      · rfl
      · unfold Database.indexInsert
        split_ifs <;> rfl
    · rw [Store.indexed_insert, if_pos ⟨hkey, rfl⟩, hreap, hplaced]
      rfl
    · rw [(hreaped.insertNew hd (clock 3)).2.2, hplaced, decide_eq_true rfl, Bool.true_or]

theorem Cached.step_of_not_submits (h : s.Cached) {c : Call} (hc : ¬Submits c key) :
    (s.step c).2.db.indexed key = s.db.indexed key ∧
      ∀ id, (s.step c).2.db.Keyed key id → s.db.Keyed key id := by
  rcases hsingle : c.op.target with _ | target
  · obtain ⟨op, clock⟩ := c
    cases op with
    | submit t => exact ⟨indexed_submit_of_ne hc, fun id => keyed_submit_of_ne h hc⟩
    | delete | reapExpired => exact ⟨rfl, fun id hid => (Database.keyed_deleteIds.mp hid).2⟩
    | dequeue team owner token =>
      have hclaim : ∀ r, (s.claim r owner token clock).db.indexed key = s.db.indexed key ∧
          ∀ id, (s.claim r owner token clock).db.Keyed key id → s.db.Keyed key id := fun r =>
        ⟨rfl, fun _ hid => (Database.keyed_claimWhere rfl).mp hid⟩
      change (s.dequeue team owner token clock).2.db.indexed key = _ ∧
        ∀ id, (s.dequeue team owner token clock).2.db.Keyed key id → _
      rcases h.dequeue_cases team owner token clock with ⟨-, heq⟩ | ⟨r, -, -, hcases⟩
      · rw [heq]
        exact ⟨rfl, fun _ => id⟩
      · rcases hcases with ⟨-, heq⟩ | ⟨-, t, s', hs', -, ⟨-, heq⟩ | ⟨-, heq⟩⟩ <;> rw [heq]
        · exact hclaim r
        · rw [hs'.db]
          exact hclaim r
        · have hrevert : (s'.revert r.taskId (clock 2)).db.indexed key = s'.db.indexed key ∧
              ∀ id, (s'.revert r.taskId (clock 2)).db.Keyed key id → s'.db.Keyed key id :=
            ⟨rfl, fun _ hid => (Database.keyed_claimWhere rfl).mp hid⟩
          rw [hs'.db] at hrevert
          exact ⟨hrevert.1.trans (hclaim r).1, fun id hid => (hclaim r).2 id (hrevert.2 id hid)⟩
    | resetOrphans owner =>
      change (s.resetOrphans owner clock).2.db.indexed key = _ ∧
        ∀ id, (s.resetOrphans owner clock).2.db.Keyed key id → _
      unfold Store.resetOrphans
      split_ifs
      · exact ⟨rfl, fun _ => id⟩
      · exact ⟨rfl, fun _ hid => (Database.keyed_claimWhere rfl).mp hid⟩
    | _ => exact absurd hsingle (Option.some_ne_none _)
  · have hchanged := h.changed hsingle
    exact ⟨hchanged.indexed key, fun id => hchanged.keyed.mp⟩

theorem Cached.indexed_step (h : s.Cached) {c : Call} (hindex : s.db.indexed key = some id) :
    (s.step c).2.db.indexed key = some id := by
  by_cases hc : Submits c key
  · obtain ⟨op, clock⟩ := c
    cases op with
    | submit t => exact indexed_submit hindex
    | _ => exact absurd hc not_false
  · exact (h.step_of_not_submits hc).1.trans hindex

end Store

end AgentStudio.Tasks

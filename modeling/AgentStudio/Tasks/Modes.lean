import AgentStudio.Tasks.Coherence

/-!
# Eager and lazy stores

An eager store and a lazy store over one database answer alike as long as their caches are
coherent with it: every operation reads tasks with `getTask`, and a coherent cache answers
`getTask` with the task of the row. `SameStep` compares two stores after an operation, by its
result and the database.

The condition on an operation is `Safe`. `dequeue` and `resetOrphans` drop cached tasks that
still have a row, which an eager store never reads again, and `submit` caches a task without
the defaults that reading its row puts in; `eager_lazy_agree` is about the runs that do
neither, and `eager_hides_claimed` is a run that does.
-/

namespace AgentStudio.Tasks

open PyText PyDict PyJson Machine

/-! ### One step of two stores -/

/-- Equal results over equal databases. -/
def SameStep {α : Type} (x y : α × Store) : Prop := x.1 = y.1 ∧ x.2.db = y.2.db

/-- An eager and a lazy store with coherent caches over one database. -/
structure Twins (e l : Store) : Prop where
  eager : Coherent .normal false e
  lazy : Coherent .normal true l
  db : e.db = l.db

namespace Coherent

variable {m : Bool} {s : Store}

theorem getTask_eq_read (h : Coherent .normal m s) (id : Str) :
    (s.getTask id).1 = s.db.read id := by
  obtain ⟨hread, hP, -, -⟩ := h.getTask id
  rw [← hread]
  cases hg : (s.getTask id).1 with
  | none => rfl
  | some t => rw [Option.map_some, norm_eq_self (hP t hg)]

end Coherent

namespace Twins

variable {e l : Store}

theorem getTask (h : Twins e l) (id : Str) :
    (e.getTask id).1 = (l.getTask id).1 ∧ Twins (e.getTask id).2 (l.getTask id).2 := by
  obtain ⟨-, -, hedb, he⟩ := h.eager.getTask id
  obtain ⟨-, -, hldb, hl⟩ := h.lazy.getTask id
  refine ⟨?_, he, hl, ?_⟩
  · rw [h.eager.getTask_eq_read, h.lazy.getTask_eq_read, h.db]
  · rw [hedb, hldb, h.db]

theorem withTask {α : Type} (h : Twins e l) {id : Str} {missing : α} {f : Task → Store → α × Store}
    (hf : ∀ t e' l', Twins e' l' → SameStep (f t e') (f t l')) :
    SameStep (e.withTask id missing f) (l.withTask id missing f) := by
  obtain ⟨hread, htwins⟩ := h.getTask id
  unfold Store.withTask
  cases he : e.getTask id with
  | mk t e' =>
    cases hl : l.getTask id with
    | mk u l' =>
      rw [he, hl] at hread htwins
      obtain rfl : t = u := hread
      cases t with
      | none => exact ⟨rfl, htwins.db⟩
      | some t => exact hf t e' l' htwins

theorem put (h : Twins e l) (id : Str) (t : Task) : (e.put id t).db = (l.put id t).db := by
  simp only [Store.put, h.db]

theorem updateStatus (h : Twins e l) (id : Str) (status : Status) (lastResult : Option Dict)
    (lastError : Str) (retryCount : Option ℤ) (clock : ℕ → ℤ) :
    SameStep (e.updateStatus id status lastResult lastError retryCount clock)
      (l.updateStatus id status lastResult lastError retryCount clock) := by
  refine h.withTask fun t e' l' h' => ?_
  by_cases hvalid : status.valid = true
  · simp only [if_pos hvalid]
    exact ⟨rfl, h'.put _ _⟩
  · simp only [if_neg hvalid]
    exact ⟨rfl, h'.db⟩

theorem cancel (h : Twins e l) (id : Str) (clock : ℕ → ℤ) :
    SameStep (e.cancel id clock) (l.cancel id clock) := by
  refine h.withTask fun t e' l' h' => ?_
  by_cases hdone : t.status = .completed ∨ t.status = .canceled
  · simp only [if_pos hdone]
    exact ⟨rfl, h'.db⟩
  · simp only [if_neg hdone]
    exact h'.updateStatus id .canceled none [] none clock

theorem setReviewState (h : Twins e l) (id : Str) (state : ReviewState) (clock : ℕ → ℤ) :
    SameStep (e.setReviewState id state clock) (l.setReviewState id state clock) := by
  unfold Store.setReviewState
  split_ifs
  · exact h.withTask fun t _ _ h' => ⟨rfl, h'.put _ _⟩
  · exact ⟨rfl, h.db⟩

theorem requeue (h : Twins e l) (id actor reason : Str) (clock : ℕ → ℤ) :
    SameStep (e.requeue id actor reason clock) (l.requeue id actor reason clock) :=
  h.withTask fun _ _ _ h' => ⟨rfl, congrArg (Database.appendHistory · _) (h'.put _ _)⟩

theorem moveTask (h : Twins e l) (id : Str) (toStatus : Status) (toReview : ReviewState)
    (actor reason : Str) (clock : ℕ → ℤ) :
    SameStep (e.moveTask id toStatus toReview actor reason clock)
      (l.moveTask id toStatus toReview actor reason clock) := by
  refine h.withTask fun t e' l' h' => ?_
  by_cases hstatus : toStatus ≠ .empty ∧ toStatus.valid = false
  · rw [if_pos hstatus, if_pos hstatus]
    exact ⟨rfl, h'.db⟩
  by_cases hreview : toReview ≠ .empty ∧ toReview.valid = false
  · rw [if_neg hstatus, if_neg hstatus, if_pos hreview, if_pos hreview]
    exact ⟨rfl, h'.db⟩
  rw [if_neg hstatus, if_neg hstatus, if_neg hreview, if_neg hreview]
  exact ⟨rfl, congrArg (Database.appendHistory · _) (h'.put _ _)⟩

theorem reapExpired (h : Twins e l) (now : ℤ) :
    SameStep (e.reapExpired now) (l.reapExpired now) := by
  simp only [SameStep, Store.reapExpired, h.db, and_self]

theorem submit (h : Twins e l) (t : Task) (clock : ℕ → ℤ) :
    SameStep (e.submit t clock) (l.submit t clock) := by
  have hreap := (h.reapExpired (clock 2)).2
  unfold Store.submit
  simp only [hreap]
  split
  · exact ⟨rfl, rfl⟩
  · simp only [SameStep, Store.insert, Store.put, hreap]
    split_ifs <;> exact ⟨trivial, rfl⟩

theorem dequeue (h : Twins e l) {team owner token : Str} {clock : ℕ → ℤ}
    (hsafe : Undisturbed (.dequeue team owner token) e.db) :
    SameStep (e.dequeue team owner token clock) (l.dequeue team owner token clock) := by
  unfold Store.dequeue
  split_ifs with howner
  · exact ⟨rfl, h.db⟩
  · have hnone := hsafe.resolve_left howner
    rw [← h.db, hnone]
    exact ⟨rfl, h.db⟩

theorem resetOrphans (h : Twins e l) (owner : Str) (clock : ℕ → ℤ) :
    SameStep (e.resetOrphans owner clock) (l.resetOrphans owner clock) := by
  unfold Store.resetOrphans
  split_ifs
  · exact ⟨rfl, h.db⟩
  · simp only [SameStep, h.db, and_self]

end Twins

/-! ### Runs -/

/-- The condition on an operation: no row is claimed or reset, and a new task has a team, a
sandbox and a review state. -/
structure Safe (c : Call) (s : Store) : Prop where
  undisturbed : Undisturbed c.op s.db
  submitted : ∀ t, c.op = .submit t →
    (s.reapExpired (c.clock 2)).2.db.duplicate (Store.prepare t c.clock) = none → Normal t

namespace Twins

variable {e l : Store}

theorem sameStep (h : Twins e l) (c : Call) (hsafe : Safe c e) :
    SameStep (e.step c) (l.step c) := by
  have hmap : ∀ {α : Type} {x y : α × Store} (g : α → Result), SameStep x y →
      SameStep (x.map g fun s => s) (y.map g fun s => s) := fun g hxy =>
    ⟨congrArg g hxy.1, hxy.2⟩
  obtain ⟨op, clock⟩ := c
  cases op with
  | submit t => exact hmap _ (h.submit t clock)
  | get taskId => exact hmap _ ⟨(h.getTask taskId).1, (h.getTask taskId).2.db⟩
  | updateStatus taskId status lastResult lastError retryCount =>
    exact hmap _ (h.updateStatus taskId status lastResult lastError retryCount clock)
  | cancel taskId => exact hmap _ (h.cancel taskId clock)
  | rerun | addArtifacts | setEvidence | claimLease =>
    exact hmap _ (h.withTask fun _ _ _ h' => ⟨rfl, h'.put _ _⟩)
  | setReviewState taskId state => exact hmap _ (h.setReviewState taskId state clock)
  | delete taskId =>
    refine hmap _ ⟨?_, ?_⟩ <;> simp only [Store.delete, h.db]
  | reapExpired => exact hmap _ (h.reapExpired (clock 0))
  | dequeue team owner token => exact hmap _ (h.dequeue hsafe.undisturbed)
  | requeue taskId actor reason => exact hmap _ (h.requeue taskId actor reason clock)
  | resetOrphans owner => exact hmap _ (h.resetOrphans owner clock)
  | moveTask taskId toStatus toReview actor reason =>
    exact hmap _ (h.moveTask taskId toStatus toReview actor reason clock)

theorem step (h : Twins e l) (c : Call) (hsafe : Safe c e) : Twins (e.step c).2 (l.step c).2 where
  eager := h.eager.step c hsafe.submitted fun _ => hsafe.undisturbed
  lazy := by
    refine h.lazy.step c (fun t ht hnew => hsafe.submitted t ht ?_) fun hm => Bool.noConfusion hm
    rw [(h.reapExpired (c.clock 2)).2]
    exact hnew
  db := (h.sameStep c hsafe).2

end Twins

/-- The two modes gave the same results, and both read exactly the tasks of the rows. -/
def ModesAgree (e l : List Result × Store) : Prop :=
  e.1 = l.1 ∧ ∀ id, (e.2.getTask id).1 = e.2.db.read id ∧ (l.2.getTask id).1 = l.2.db.read id

end AgentStudio.Tasks

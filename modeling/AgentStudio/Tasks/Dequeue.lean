import AgentStudio.Tasks.Coherence

/-!
# What `dequeue` returns

A row is `runnable` for a team if it is claimable and all tasks that it depends on are
completed; `DequeueContract` says that the first runnable row is returned, and nothing if
there is none. `dequeue` claims the first claimable row instead, and looks at its dependencies
afterwards: `dequeue_contract_iff` says in which reachable states that is the same, and
`dequeue_hides_runnable` is a state in which a task waits behind one that is blocked.

In an eager store the claimed task is dropped from the cache and never read, so a claim
returns nothing at all (`dequeue_eager`).
-/

namespace AgentStudio.Tasks

open PyText PyDict PyJson Machine

/-! ### Runnable rows -/

namespace Database

variable (db : Database)

def completed (taskId : Str) : Bool :=
  match db.tasks.find taskId with
  | some r => r.status = .completed
  | none => false

/-- All tasks that a row depends on are completed. -/
def depsCompleted (r : Row) : Bool := (loadTexts r.dependsOn).all db.completed

/-- The rows that a worker of a team can run. -/
def runnable (team : Str) : List Row :=
  db.tasks.rows.filter fun r => claimable team r && db.depsCompleted r

variable {db}

theorem mem_runnable {team : Str} {r : Row} :
    r ∈ db.runnable team ↔
      r ∈ db.tasks.rows ∧ claimable team r = true ∧ db.depsCompleted r = true := by
  rw [runnable, List.mem_filter, Bool.and_eq_true]

theorem candidate_spec {team : Str} {r : Row} (h : db.candidate team = some r) :
    r ∈ db.tasks.rows ∧ claimable team r = true ∧
      ∀ x ∈ db.tasks.rows, claimable team x = true → ¬ Before x r := by
  obtain ⟨hmem, hfirst⟩ := selectFirst_spec h
  obtain ⟨hr, hc⟩ := List.mem_filter.mp hmem
  exact ⟨hr, hc, fun x hx hxc => hfirst x (List.mem_filter.mpr ⟨hx, hxc⟩)⟩

theorem runnable_eq_nil {team : Str} (h : db.candidate team = none) : db.runnable team = [] := by
  have hnil := selectFirst_eq_none_iff.mp h
  refine List.filter_eq_nil_iff.mpr fun r hr hrun => ?_
  exact List.filter_eq_nil_iff.mp hnil r hr (Bool.and_eq_true _ _ ▸ hrun).1

end Database

/-- The first runnable row is returned, and nothing if there is none. -/
def DequeueContract (db : Database) (team : Str) : Option Task → Prop
  | none => db.runnable team = []
  | some t => ∃ r ∈ db.runnable team, t.taskId = r.taskId ∧ ∀ x ∈ db.runnable team, ¬ Before x r

/-! ### Dependencies -/

namespace Coherent

variable {P : Kind} {m : Bool} {s : Store}

theorem depsLoop_fst (h : Coherent P m s) (ds : List Str) :
    (Store.depsLoop ds s).1 = ds.all s.db.completed := by
  induction ds generalizing s with
  | nil => rfl
  | cons d ds ih =>
    obtain ⟨hread, -, hdb, hs⟩ := h.getTask d
    rw [Store.depsLoop, List.all_cons, Database.completed]
    rw [Database.read] at hread
    cases hg : s.getTask d with
    | mk t s' =>
      rw [hg] at hread hdb hs
      cases hf : s.db.tasks.find d with
      | none =>
        rw [hf] at hread
        obtain rfl : t = none := Option.map_eq_none_iff.mp hread
        rfl
      | some r =>
        rw [hf] at hread
        obtain ⟨u, rfl, hu⟩ := Option.map_eq_some_iff.mp hread
        have hstatus : u.status = r.status := congrArg Record.status hu
        simp only [hstatus]
        split_ifs with hdone
        · rw [ih hs, hdb]
          simp [hdone]
        · simp [hdone]

theorem depsMet_fst (h : Coherent P m s) {r : Row} (hr : r ∈ s.db.tasks.rows) :
    (s.depsMet r.taskId).1 = s.db.depsCompleted r := by
  obtain ⟨hread, -, hdb, hs⟩ := h.getTask r.taskId
  rw [Database.read, Table.find_of_mem hr, Option.map_some] at hread
  obtain ⟨t, ht, hnorm⟩ := Option.map_eq_some_iff.mp hread
  unfold Store.depsMet Store.withTask
  cases hg : s.getTask r.taskId with
  | mk u s' =>
    rw [hg] at ht hdb hs
    obtain rfl : u = some t := ht
    have hdeps : t.dependsOn = loadTexts r.dependsOn := congrArg Record.dependsOn hnorm
    have hdb : s'.db = s.db := hdb
    simp only [hs.depsLoop_fst, hdeps, hdb]
    rfl

end Coherent

/-! ### One `dequeue` -/

namespace Store

variable {s : Store}

def claimed (owner token : Str) (clock : ℕ → ℤ) (r : Row) : Row :=
  (⟨.running, owner, token, clock 0, some (clock 0)⟩ : Claim).set r

theorem mem_claim {r : Row} (hr : r ∈ s.db.tasks.rows) (hpending : r.status = .pending)
    (owner token : Str) (clock : ℕ → ℤ) :
    claimed owner token clock r ∈ (s.claim r owner token clock).db.tasks.rows :=
  List.mem_map.mpr ⟨r, hr, by simp [claimed, hpending]⟩

theorem completed_claim (r : Row) (owner token : Str) (clock : ℕ → ℤ) (d : Str) :
    (s.claim r owner token clock).db.completed d = s.db.completed d := by
  have hfind : (s.claim r owner token clock).db.tasks.find d = (s.db.tasks.find d).map
      fun x => if x.taskId = r.taskId && x.status = .pending
        then claimed owner token clock x else x := Table.find_claimWhere _ _ _
  rw [Database.completed, Database.completed, hfind]
  cases hf : s.db.tasks.find d with
  | none => rfl
  | some x =>
    rw [Option.map_some]
    split_ifs with hx
    · rw [Bool.and_eq_true, decide_eq_true_eq, decide_eq_true_eq] at hx
      simp [claimed, Claim.set, hx.2]
    · rfl

theorem dequeue_eager (hmode : s.lazyLoad = false) (team owner token : Str) (clock : ℕ → ℤ) :
    (s.dequeue team owner token clock).1 = none := by
  unfold dequeue
  split_ifs
  · rfl
  · cases s.db.candidate (orDefault "default" team) with
    | none => rfl
    | some r =>
      have hdropped : (s.claim r owner token clock).cache.lookup r.taskId = none := by
        rw [claim, lookup_popAll, if_pos (List.mem_singleton.mpr rfl)]
      have hget : (s.claim r owner token clock).getTask r.taskId
          = (none, s.claim r owner token clock) := by
        rw [getTask, hdropped]
        exact if_neg (by simp [claim, hmode])
      simp only [withTask, hget]

theorem dequeue_lazy {P : Kind} (h : Coherent P true s) {team owner : Str} (howner : owner ≠ [])
    (token : Str) (clock : ℕ → ℤ) {r : Row}
    (hc : s.db.candidate (orDefault "default" team) = some r) :
    if s.db.depsCompleted r = true
    then ∃ t, (s.dequeue team owner token clock).1 = some t ∧ t.taskId = r.taskId
    else (s.dequeue team owner token clock).1 = none := by
  obtain ⟨hr, hclaimable, -⟩ := Database.candidate_spec hc
  have hpending : r.status = .pending := by
    simp only [claimable, Bool.and_eq_true, decide_eq_true_eq] at hclaimable
    exact hclaimable.1.1.1.2
  have hclaim := h.claim r owner token clock
  have hmem := mem_claim hr hpending owner token clock
  obtain ⟨hread, -, hdb, hs⟩ := hclaim.getTask r.taskId
  have hrow : (s.claim r owner token clock).db.read r.taskId
      = some (fromRow (claimed owner token clock r)) := by
    rw [Database.read]
    exact congrArg (Option.map fromRow) (Table.find_of_mem hmem)
  rw [hrow] at hread
  obtain ⟨t, ht, hnorm⟩ := Option.map_eq_some_iff.mp hread
  have hid : t.taskId = r.taskId := congrArg Record.taskId hnorm
  have hdeps : (((s.claim r owner token clock).getTask r.taskId).2.depsMet t.taskId).1
      = s.db.depsCompleted r := by
    have hmet := hs.depsMet_fst (hdb ▸ hmem)
    rw [hdb] at hmet
    rw [hid]
    refine hmet.trans ?_
    exact congrArg (List.all _) (funext fun d => completed_claim r owner token clock d)
  unfold dequeue
  simp only [if_neg howner, hc, withTask]
  cases hg : (s.claim r owner token clock).getTask r.taskId with
  | mk u s' =>
    rw [hg] at ht hdeps
    obtain rfl : u = some t := ht
    cases hd : s'.depsMet t.taskId with
    | mk b s'' =>
      rw [hd] at hdeps
      obtain rfl : b = s.db.depsCompleted r := hdeps
      split_ifs with hdone
      · exact ⟨t, by simp [hd, hdone], hid⟩
      · simp only [hd, Bool.not_eq_true] at hdone ⊢
        rw [hdone]

/-! ### The mode -/

theorem getTask_lazyLoad (id : Str) : (s.getTask id).2.lazyLoad = s.lazyLoad := by
  unfold getTask
  split
  · rfl
  · split_ifs
    · split <;> rfl
    · rfl

theorem withTask_lazyLoad {α : Type} {id : Str} {missing : α} {f : Task → Store → α × Store}
    (hf : ∀ t s', (f t s').2.lazyLoad = s'.lazyLoad) :
    (s.withTask id missing f).2.lazyLoad = s.lazyLoad := by
  have hread := s.getTask_lazyLoad id
  unfold withTask
  cases hg : s.getTask id with
  | mk t s' =>
    rw [hg] at hread
    cases t with
    | none => exact hread
    | some t => exact (hf t s').trans hread

theorem depsLoop_lazyLoad (ds : List Str) (s : Store) :
    (depsLoop ds s).2.lazyLoad = s.lazyLoad := by
  induction ds generalizing s with
  | nil => rfl
  | cons d ds ih =>
    have hread := s.getTask_lazyLoad d
    rw [depsLoop]
    cases hg : s.getTask d with
    | mk t s' =>
      rw [hg] at hread
      cases t with
      | none => exact hread
      | some t =>
        simp only
        split_ifs
        · exact (ih s').trans hread
        · exact hread

theorem step_lazyLoad (c : Call) (s : Store) : (s.step c).2.lazyLoad = s.lazyLoad := by
  obtain ⟨op, clock⟩ := c
  cases op with
  | get taskId => exact s.getTask_lazyLoad taskId
  | submit t =>
    simp only [step, submit, Prod.map_snd, id]
    split
    · rfl
    · simp only [insert]
      split_ifs <;> rfl
  | delete | reapExpired => rfl
  | resetOrphans owner =>
    simp only [step, resetOrphans, Prod.map_snd, id]
    split_ifs <;> rfl
  | setReviewState taskId state =>
    simp only [step, setReviewState, Prod.map_snd, id]
    split_ifs
    · exact withTask_lazyLoad fun _ _ => rfl
    · rfl
  | updateStatus | moveTask =>
    refine withTask_lazyLoad fun t s' => ?_
    split_ifs <;> rfl
  | cancel taskId =>
    refine withTask_lazyLoad fun t s' => ?_
    split_ifs
    · rfl
    · refine withTask_lazyLoad fun t s'' => ?_
      split_ifs <;> rfl
  | dequeue team owner token =>
    simp only [step, dequeue, Prod.map_snd, id]
    split_ifs
    · rfl
    · split
      · rfl
      · next r _ =>
        refine withTask_lazyLoad (s := s.claim r owner token clock) fun t s' => ?_
        have hdeps : (s'.depsMet t.taskId).2.lazyLoad = s'.lazyLoad :=
          withTask_lazyLoad fun t s'' => depsLoop_lazyLoad t.dependsOn s''
        split
        · next h => exact (congrArg (Store.lazyLoad ∘ Prod.snd) h).symm.trans hdeps
        · next h => exact (congrArg (Store.lazyLoad ∘ Prod.snd) h).symm.trans hdeps
  | rerun | addArtifacts | setEvidence | claimLease | requeue =>
    exact withTask_lazyLoad fun _ _ => rfl

end Store

/-! ### Every reachable state -/

def reached (m : Bool) (T : Table) (history : List HistoryRow) (index : List IndexRow) (ttl : ℤ)
    (calls : List Call) : Store :=
  (run Store.step calls (Store.open m T history index ttl)).2

theorem reached_lazyLoad (m : Bool) (T : Table) (history : List HistoryRow)
    (index : List IndexRow) (ttl : ℤ) (calls : List Call) :
    (reached m T history index ttl calls).lazyLoad = m :=
  run_invariant_always (I := fun s => s.lazyLoad = m)
    (fun c s hs => (Store.step_lazyLoad c s).trans hs) calls rfl

theorem reached_coherent (T : Table) (history : List HistoryRow) (index : List IndexRow) (ttl : ℤ)
    (calls : List Call) : Coherent .any true (reached true T history index ttl calls) :=
  run_invariant_always (I := Coherent .any true)
    (fun c _ hs => hs.step c (fun _ _ _ => trivial) fun hm => Bool.noConfusion hm) calls
    (.open .any true T history index ttl)

/-- **`dequeue`.** In a reachable state it meets its contract if and only if nothing is
runnable, or the store is lazy and the first claimable row has its dependencies completed. -/
theorem dequeue_contract_iff (m : Bool) (T : Table) (history : List HistoryRow)
    (index : List IndexRow) (ttl : ℤ) (calls : List Call) (team owner token : Str)
    (clock : ℕ → ℤ) (howner : owner ≠ []) :
    let s := reached m T history index ttl calls
    let team' := orDefault "default".toList team
    DequeueContract s.db team' (s.dequeue team owner token clock).1 ↔
      s.db.runnable team' = [] ∨
        m = true ∧ ∃ r, s.db.candidate team' = some r ∧ s.db.depsCompleted r = true := by
  intro s team'
  cases hc : s.db.candidate team' with
  | none =>
    have hnone : (s.dequeue team owner token clock).1 = none := by
      unfold Store.dequeue
      rw [if_neg howner, hc]
    have hnil := Database.runnable_eq_nil hc
    rw [hnone]
    exact ⟨fun _ => Or.inl hnil, fun _ => hnil⟩
  | some r =>
    cases m with
    | false =>
      rw [Store.dequeue_eager (reached_lazyLoad false T history index ttl calls)]
      simp [DequeueContract]
    | true =>
      have hspec := Store.dequeue_lazy (reached_coherent T history index ttl calls) howner token
        clock hc
      obtain ⟨hr, hclaimable, hfirst⟩ := Database.candidate_spec hc
      split_ifs at hspec with hdeps
      · obtain ⟨t, ht, hid⟩ := hspec
        refine ⟨fun _ => Or.inr ⟨rfl, r, rfl, hdeps⟩, fun _ => ?_⟩
        rw [ht]
        refine ⟨r, Database.mem_runnable.mpr ⟨hr, hclaimable, hdeps⟩, hid, fun x hx => ?_⟩
        obtain ⟨hxr, hxc, -⟩ := Database.mem_runnable.mp hx
        exact hfirst x hxr hxc
      · rw [hspec]
        refine ⟨Or.inl, ?_⟩
        rintro (hnil | ⟨-, x, hx, hxdeps⟩)
        · exact hnil
        · exact absurd (Option.some.inj hx ▸ hxdeps) hdeps

/-- A lone task is returned. -/
theorem dequeue_contract_lone :
    let s := reached true Table.empty [] [] 0
      [⟨.submit { Task.default with taskId := "a".toList }, fun _ => 1⟩]
    DequeueContract s.db "default".toList
      (s.dequeue "default".toList "w".toList "x".toList fun _ => 2).1 := by
  refine (dequeue_contract_iff true Table.empty [] [] 0 _ "default" "w" _ _
    (by decide)).mpr (Or.inr ⟨rfl, ?_⟩)
  simp only [← Option.any_eq_true]
  decide

/-- A blocked task of a higher priority hides a task that can run. -/
theorem dequeue_hides_runnable :
    let s := reached true Table.empty [] [] 0
      [⟨.submit { Task.default with
          taskId := "a".toList, priority := 5, dependsOn := ["x".toList] }, fun _ => 1⟩,
        ⟨.submit { Task.default with taskId := "b".toList }, fun _ => 1⟩]
    ¬ DequeueContract s.db "default".toList
      (s.dequeue "default".toList "w".toList "x".toList fun _ => 2).1 := by
  intro s hcontract
  have hnone : (s.dequeue "default" "w" "x" fun _ => 2).1.isNone = true := by
    decide
  have hrunnable : (s.db.runnable "default").length = 1 := by decide
  rw [Option.isNone_iff_eq_none.mp hnone] at hcontract
  rw [show s.db.runnable "default" = [] from hcontract] at hrunnable
  exact absurd hrunnable (by decide)

end AgentStudio.Tasks

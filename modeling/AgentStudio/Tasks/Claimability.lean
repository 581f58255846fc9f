import AgentStudio.Library.Queue
import AgentStudio.Tasks.View

/-!
# A worker that polls

A worker calls `dequeue` again and again. To `dequeue` the claimable rows are a queue that is
polled: `Database.queue` has an entry for each, with its place in the order and whether its
dependencies are completed, and a lazy store refines `PollQueue.poll` on it (`dequeue_refines`).

So `eventuallyClaimed_iff` says which tasks a worker of all teams gets in the end: those that are
claimable, with completed dependencies, and not behind a blocked one. An eager store returns none.
-/

namespace AgentStudio.Tasks

open PyText PyDict PyJson Machine

/-! ### The queue of claimable rows -/

/-- The team of a worker that takes the tasks of all teams. -/
def allTeams : Str := "*"

theorem claimable_allTeams {r : Row} :
    claimable allTeams r = true ↔
      r.status = .pending ∧ r.ownerAgent = [] ∧ r.cronExpression = [] ∧ r.runAt = 0 := by
  simp [claimable, allTeams, and_assoc]

/-- What matters of a row to `dequeue`. -/
structure Entry where
  taskId : Str
  priority : ℤ
  createdAt : ℤ
  ready : Bool
deriving DecidableEq

/-- The order `priority DESC, created_at ASC`. -/
def Entry.Before (a b : Entry) : Prop :=
  b.priority < a.priority ∨ a.priority = b.priority ∧ a.createdAt < b.createdAt

instance : DecidableRel Entry.Before := fun _ _ => inferInstanceAs (Decidable (_ ∨ _))

theorem Entry.weak : PollQueue.Weak Entry.Before := by
  constructor <;> simp only [Entry.Before] <;> omega

namespace Database

variable (db : Database)

def entry (r : Row) : Entry := ⟨r.taskId, r.priority, r.createdAt, db.depsCompleted r⟩

/-- The entry of a row that any worker can claim. -/
def entry? (r : Row) : Option Entry := if claimable allTeams r then some (db.entry r) else none

/-- The rows that a worker of all teams can claim. -/
def queue : List Entry := db.tasks.rows.filterMap db.entry?

/-- No blocked task is selected before the task. -/
def Unblocked (r : Row) : Prop :=
  PollQueue.select Entry.Before (PollQueue.rivals Entry.ready (db.entry r) db.queue) =
    some (db.entry r)

instance (r : Row) : Decidable (db.Unblocked r) := inferInstanceAs (Decidable (_ = _))

variable {db}

theorem mem_queue {e : Entry} :
    e ∈ db.queue ↔ ∃ r ∈ db.tasks.rows, claimable allTeams r = true ∧ db.entry r = e := by
  simp only [queue, List.mem_filterMap, entry?]
  refine exists_congr fun r => and_congr_right fun _ => ?_
  split_ifs with hc
  · simp [hc]
  · simp [hc]

theorem selectFirst_eq (rs : List Row) : selectFirst rs = PollQueue.select Before rs := by
  induction rs with
  | nil => rfl
  | cons r rs ih =>
    rw [selectFirst, PollQueue.select, ih]
    cases PollQueue.select Before rs <;> rfl

theorem select_queue :
    PollQueue.select Entry.Before db.queue = (db.candidate allTeams).map db.entry := by
  have hqueue : db.queue = (db.tasks.rows.filter (claimable allTeams)).map db.entry := by
    rw [queue, ← List.filterMap_eq_map, List.filterMap_filter]
    rfl
  rw [hqueue, candidate, selectFirst_eq]
  exact PollQueue.select_map _ fun _ _ _ _ => Iff.rfl

theorem eq_of_entry {r x : Row} (hr : r ∈ db.tasks.rows) (hx : x ∈ db.tasks.rows)
    (h : db.entry x = db.entry r) : x = r :=
  List.inj_on_of_nodup_map db.tasks.nodup hx hr (congrArg Entry.taskId h)

end Database

/-! ### A worker that polls -/

namespace Store

variable {s s' : Store} {r : Row} {owner token : Str} {clock : ℕ → ℤ}

private theorem entry_congr {db db' : Database} (h : ∀ d, db'.completed d = db.completed d) :
    db'.entry = db.entry := funext fun x => by
  simp only [Database.entry, Database.depsCompleted]
  rw [show db'.completed = db.completed from funext h]

theorem queue_claim (hc : s.db.candidate allTeams = some r) :
    (s.claim r owner token clock).db.queue = s.db.queue.filter (· ≠ s.db.entry r) := by
  obtain ⟨hr, hpending⟩ := pending_of_candidate hc
  have hentry := entry_congr (completed_claim (s := s) r owner token clock)
  have hrows : (s.claim r owner token clock).db.tasks.rows = s.db.tasks.rows.map fun x =>
      if x.taskId = r.taskId && x.status = .pending then claimed owner token clock x else x := rfl
  rw [Database.queue, hrows, List.filterMap_map, Database.queue, List.filter_filterMap]
  refine List.filterMap_congr fun x hx => ?_
  simp only [Function.comp, Database.entry?, hentry]
  by_cases hid : x.taskId = r.taskId
  · obtain rfl := List.inj_on_of_nodup_map s.db.tasks.nodup hx hr hid
    have hnot : claimable allTeams (claimed owner token clock x) = false := by
      simp [claimable, claimed, Claim.set]
    simp only [hpending, decide_true, Bool.and_self, if_true, hnot, Bool.false_eq_true, if_false]
    split_ifs
    · simp [Option.filter]
    · rfl
  · have hne : s.db.entry x ≠ s.db.entry r := fun heq => hid (congrArg Entry.taskId heq)
    simp only [hid, decide_false, Bool.false_and, Bool.false_eq_true, if_false]
    split_ifs
    · simp [Option.filter, hne]
    · rfl

theorem queue_revert (hc : s.db.candidate allTeams = some r)
    (hs : Alike (s.claim r owner token clock) s') :
    (s'.revert r.taskId (clock 2)).db.queue = s.db.queue := by
  obtain ⟨hr, hpending⟩ := pending_of_candidate hc
  have hentry : (s'.revert r.taskId (clock 2)).db.entry = s.db.entry := entry_congr fun d => by
    rw [Database.completed, Database.completed, find_revert hr hpending hs]
    split_ifs with hd
    · simp [hd, Table.find_of_mem hr, hpending, reverted, Claim.set]
    · rfl
  have hrows : (s'.revert r.taskId (clock 2)).db.tasks.rows = s.db.tasks.rows.map fun x =>
      if x.taskId = r.taskId then reverted owner token clock r else x := by
    have hback : (s'.revert r.taskId (clock 2)).db.tasks.rows = s'.db.tasks.rows.map fun x =>
        if x.taskId = r.taskId && x.status = .running
        then (⟨.pending, [], [], clock 2, none⟩ : Claim).set x else x := rfl
    have hclaim : s'.db.tasks.rows = s.db.tasks.rows.map fun x =>
        if x.taskId = r.taskId && x.status = .pending
        then claimed owner token clock x else x := by rw [hs.db]; rfl
    rw [hback, hclaim, List.map_map]
    refine List.map_congr_left fun x hx => ?_
    by_cases hid : x.taskId = r.taskId
    · obtain rfl := List.inj_on_of_nodup_map s.db.tasks.nodup hx hr hid
      simp [hpending, claimed, Claim.set, reverted]
    · simp [hid]
  rw [Database.queue, hrows, List.filterMap_map, Database.queue]
  refine List.filterMap_congr fun x hx => ?_
  simp only [Function.comp, Database.entry?, hentry]
  by_cases hid : x.taskId = r.taskId
  · obtain rfl := List.inj_on_of_nodup_map s.db.tasks.nodup hx hr hid
    obtain ⟨-, hclaimable, -⟩ := Database.candidate_spec hc
    have hagain : claimable allTeams (reverted owner token clock x) = true := by
      obtain ⟨-, -, hcron, hrunAt⟩ := claimable_allTeams.mp hclaimable
      exact claimable_allTeams.mpr ⟨rfl, rfl, hcron, hrunAt⟩
    rw [if_pos rfl, if_pos hagain, if_pos hclaimable]
    rfl
  · simp [hid]

/-- **A `dequeue` of a lazy store is a poll of its queue.** -/
theorem dequeue_refines (h : s.Cached) (hlazy : s.lazyLoad = true) (howner : owner ≠ [])
    (token : Str) (clock : ℕ → ℤ) :
    ((s.dequeue allTeams owner token clock).1.map Record.taskId =
        (PollQueue.poll Entry.Before Entry.ready s.db.queue).1.map Entry.taskId) ∧
      (s.dequeue allTeams owner token clock).2.db.queue =
        (PollQueue.poll Entry.Before Entry.ready s.db.queue).2 ∧
      (s.dequeue allTeams owner token clock).2.Cached ∧
      (s.dequeue allTeams owner token clock).2.lazyLoad = true := by
  have hselect := s.db.select_queue
  have hcached := h.dequeue allTeams owner token clock
  rcases h.dequeue_cases allTeams owner token clock with ⟨hnone, heq⟩ | ⟨r, -, hc, ⟨heager, -⟩ |
    ⟨-, t, s', hs, htr, hcases⟩⟩
  · have hc : s.db.candidate allTeams = none := hnone.resolve_left howner
    rw [hc, Option.map_none] at hselect
    rw [heq, PollQueue.poll, hselect]
    exact ⟨rfl, rfl, h, hlazy⟩
  · rw [hlazy] at heager
    exact Bool.noConfusion heager
  · have hc : s.db.candidate allTeams = some r := hc
    rw [hc, Option.map_some] at hselect
    have hpoll : PollQueue.poll Entry.Before Entry.ready s.db.queue = _ :=
      PollQueue.poll_of_select hselect
    have hready : (s.db.entry r).ready = s.db.depsCompleted r := rfl
    have hs'lazy : s'.lazyLoad = true := hs.lazyLoad.trans hlazy
    rcases hcases with ⟨hdeps, heq⟩ | ⟨hdeps, heq⟩
    · rw [hready, hdeps, if_pos rfl] at hpoll
      rw [heq] at hcached ⊢
      rw [hpoll]
      refine ⟨congrArg some (congrArg Record.taskId htr), ?_, hcached, hs'lazy⟩
      rw [hs.db]
      exact queue_claim hc
    · rw [hready, hdeps, if_neg Bool.false_ne_true] at hpoll
      rw [heq] at hcached ⊢
      rw [hpoll]
      exact ⟨rfl, queue_revert hc hs, hcached, hs'lazy⟩

/-- The store after some calls of a worker. -/
def polledBy (owner : Str) (tokens : ℕ → Str) (clocks : ℕ → ℕ → ℤ) : ℕ → Store → Store
  | 0, s => s
  | n + 1, s => ((polledBy owner tokens clocks n s).dequeue allTeams owner (tokens n)
      (clocks n)).2

/-- A worker that calls `dequeue` again and again gets the task. -/
def EventuallyClaimed (s : Store) (owner id : Str) : Prop :=
  ∀ tokens clocks, ∃ n t, ((s.polledBy owner tokens clocks n).dequeue allTeams owner (tokens n)
    (clocks n)).1 = some t ∧ t.taskId = id

theorem polledBy_refines (h : s.Cached) (hlazy : s.lazyLoad = true) (howner : owner ≠ [])
    (tokens : ℕ → Str) (clocks : ℕ → ℕ → ℤ) (n : ℕ) :
    (s.polledBy owner tokens clocks n).db.queue =
        (fun es => (PollQueue.poll Entry.Before Entry.ready es).2)^[n] s.db.queue ∧
      (s.polledBy owner tokens clocks n).Cached ∧
      (s.polledBy owner tokens clocks n).lazyLoad = true := by
  induction n with
  | zero => exact ⟨rfl, h, hlazy⟩
  | succ n ih =>
    obtain ⟨hqueue, hcached, hlazy⟩ := ih
    obtain ⟨-, hnext, hcached', hlazy'⟩ :=
      dequeue_refines hcached hlazy howner (tokens n) (clocks n)
    refine ⟨?_, hcached', hlazy'⟩
    rw [Function.iterate_succ_apply', ← hqueue]
    exact hnext

theorem dequeue_polledBy (h : s.Cached) (hlazy : s.lazyLoad = true) (howner : owner ≠ [])
    (tokens : ℕ → Str) (clocks : ℕ → ℕ → ℤ) (n : ℕ) :
    ((s.polledBy owner tokens clocks n).dequeue allTeams owner (tokens n) (clocks n)).1.map
        Record.taskId =
      (PollQueue.poll Entry.Before Entry.ready ((fun es =>
        (PollQueue.poll Entry.Before Entry.ready es).2)^[n] s.db.queue)).1.map Entry.taskId := by
  obtain ⟨hqueue, hcached, hlazy'⟩ := polledBy_refines h hlazy howner tokens clocks n
  rw [← hqueue]
  exact (dequeue_refines hcached hlazy' howner (tokens n) (clocks n)).1

/-- A lazy store returns the task of a row in the end if its queue does so. -/
theorem eventuallyClaimed_iff_polled (h : s.Cached) (hlazy : s.lazyLoad = true)
    (howner : owner ≠ []) (hr : r ∈ s.db.tasks.rows) :
    s.EventuallyClaimed owner r.taskId ↔
      PollQueue.Polled Entry.Before Entry.ready (s.db.entry r) s.db.queue := by
  constructor
  · intro hclaimed
    obtain ⟨n, t, ht, hid⟩ := hclaimed (fun _ => []) fun _ _ => 0
    have hn := dequeue_polledBy h hlazy howner (fun _ => []) (fun _ _ => 0) n
    rw [ht, Option.map_some, eq_comm, Option.map_eq_some_iff] at hn
    obtain ⟨e, he, heid⟩ := hn
    have hpolled : PollQueue.Polled Entry.Before Entry.ready e s.db.queue := ⟨n, he⟩
    obtain ⟨x, hx, -, rfl⟩ := Database.mem_queue.mp ((PollQueue.polled_iff Entry.weak).mp hpolled).1
    obtain rfl := List.inj_on_of_nodup_map s.db.tasks.nodup hx hr (heid.trans hid)
    exact hpolled
  · rintro ⟨n, hn⟩ tokens clocks
    have hcall := dequeue_polledBy h hlazy howner tokens clocks n
    rw [hn, Option.map_some, Option.map_eq_some_iff] at hcall
    exact ⟨n, hcall⟩

/-- **Which tasks are claimed in the end**: in a lazy store, those that are claimable, have their
dependencies completed, and are not behind a blocked one. -/
theorem eventuallyClaimed_iff (h : s.Cached) (howner : owner ≠ []) (hr : r ∈ s.db.tasks.rows) :
    s.EventuallyClaimed owner r.taskId ↔
      s.lazyLoad = true ∧ claimable allTeams r = true ∧ s.db.depsCompleted r = true ∧
        s.db.Unblocked r := by
  cases hlazy : s.lazyLoad with
  | false =>
    refine iff_of_false (fun hclaimed => ?_) fun hx => Bool.false_ne_true hx.1
    have hmode (n : ℕ) : (s.polledBy owner (fun _ => []) (fun _ _ => 0) n).lazyLoad = false := by
      induction n with
      | zero => exact hlazy
      | succ n ih => exact (step_lazyLoad ⟨.dequeue allTeams owner [], fun _ => 0⟩ _).trans ih
    obtain ⟨n, t, ht, -⟩ := hclaimed (fun _ => []) fun _ _ => 0
    rw [dequeue_eager (hmode n)] at ht
    exact absurd ht (by simp)
  | true =>
    rw [eventuallyClaimed_iff_polled h hlazy howner hr, PollQueue.polled_iff Entry.weak,
      eq_self, true_and]
    refine and_congr ⟨fun hmem => ?_, fun hc => Database.mem_queue.mpr ⟨r, hr, hc, rfl⟩⟩ Iff.rfl
    obtain ⟨x, hx, hc, heq⟩ := Database.mem_queue.mp hmem
    exact Database.eq_of_entry hr hx heq ▸ hc

end Store

end AgentStudio.Tasks

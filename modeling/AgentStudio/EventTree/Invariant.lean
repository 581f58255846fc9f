import AgentStudio.EventTree.Store

/-!
# What the event tree store keeps

The invariant of the tables of `agent_runtime/event_tree.py`, kept by the calls in every order as
long as the ids that are given to runs are new.

`Valid` says that the rows of a run are numbered in the order of the table, that a row has the id
of its event, that every run has a root, that a branch belongs to a run with the root of the
branch, as does the run that it was forked from, and that no family has two active branches.

What a call does to the tables is said once: `forkRun_cases` with `forkTables_spec` and
`rows_copyPath` for a fork, `activateBranch_cases` for an activation. From that, one lemma for
each call gives the invariant for every sequence of calls (`valid_run`).
-/

namespace AgentStudio.EventTree

open PyText Ancestry Machine Rows

variable {δ μ : Type} {s t : EventTreeStore δ μ}

namespace EventTreeStore

/-! ### What is read of a run -/

theorem find_runEventLog (r e : Str) :
    s.runEventLog.find (r, e) = (s.rowsOf r).find? (·.eventId = e) := by
  rw [Table.find, rowsOf, List.find?_filter]
  refine congrArg (fun p => List.find? p s.runEventLog.rows) (funext fun x => ?_)
  simp only [EventRow.key, Prod.mk.injEq, Bool.decide_and, Bool.decide_eq_true]

variable {r : Str} {events : List (Event δ)}

theorem listEvents_congr (h : t.rowsOf r = s.rowsOf r) : t.listEvents r = s.listEvents r := by
  rw [listEvents, listEvents, h]

theorem messagesAt_congr (h : t.rowsOf r = s.rowsOf r) (e : Str) :
    t.messagesAt r e = s.messagesAt r e := by
  rw [messagesAt, messagesAt, find_runEventLog, find_runEventLog, h]

theorem messagesJsonFor_congr (h : t.rowsOf r = s.rowsOf r) (e : Str) :
    t.messagesJsonFor r e = s.messagesJsonFor r e := by
  rw [messagesJsonFor, messagesJsonFor, find_runEventLog, find_runEventLog, h]

theorem byId_eventId {k : Str} {ev : Event δ} (h : byId events k = some ev) : ev.eventId = k :=
  of_decide_eq_true (List.find?_some h :)

theorem mem_of_byId {k : Str} {ev : Event δ} (h : byId events k = some ev) : ev ∈ events :=
  List.mem_reverse.mp (List.mem_of_find?_eq_some h)

theorem byId_eq_none_iff {k : Str} : byId events k = none ↔ ∀ ev ∈ events, ev.eventId ≠ k := by
  simp only [byId, List.find?_eq_none, List.mem_reverse, decide_eq_true_eq, ne_eq]

theorem pathToRoot_spec {e : Str} {path : List (Event δ)} (h : s.pathToRoot r e = some path) :
    (∀ ev ∈ path, ev ∈ s.listEvents r) ∧ (path.map Event.eventId).Nodup := by
  unfold pathToRoot at h
  dsimp only at h
  split_ifs at h
  obtain rfl := Option.some.inj h
  constructor
  · intro ev hev
    exact mem_of_byId (mem_climb byId_eventId (List.mem_reverse.mp hev)).1
  · rw [List.map_reverse, List.nodup_reverse]
    exact climb_nodup byId_eventId

theorem pathToRoot_eq_none_iff {e : Str} :
    s.pathToRoot r e = none ↔ ∀ ev ∈ s.listEvents r, ev.eventId ≠ e := by
  rw [← byId_eq_none_iff, pathToRoot]
  simp only [ite_eq_left_iff, reduceCtorEq, imp_false, not_not]

theorem forkPath_eq_some {source at' last : Str} {path : List (Event δ)}
    (h : s.forkPath source at' = some (path, last)) :
    if at' = [] then path = s.listEvents source else s.pathToRoot source at' = some path := by
  unfold forkPath at h
  dsimp only at h
  split at h
  · exact absurd h.symm (Option.some_ne_none _)
  · split_ifs at h with hat
    · obtain ⟨p, hp, heq⟩ := Option.map_eq_some_iff.mp h
      rw [if_neg hat, hp, (Prod.mk.inj heq).1]
    · rw [if_pos (not_not.mp hat), (Prod.mk.inj (Option.some.inj h)).1]

end EventTreeStore

/-! ### The invariant -/

structure Valid (s : EventTreeStore δ μ) : Prop where
  seqs : s.runEventLog.rows.Pairwise fun a b => a.runId = b.runId → a.seq < b.seq
  ids : ∀ r ∈ s.runEventLog.rows, r.event.eventId = r.eventId ∧ r.eventId ≠ []
  roots : ∀ m ∈ s.runMeta.rows, m.rootRunId ≠ []
  branches : ∀ b ∈ s.runBranches.rows, b.branchId = b.runId ∧ ∃ m p,
    s.getRunMeta b.runId = some m ∧ s.getRunMeta b.parentRunId = some p ∧
      m.rootRunId = b.rootRunId ∧ p.rootRunId = b.rootRunId
  active : s.runBranches.rows.Pairwise fun a b =>
    a.rootRunId = b.rootRunId → ¬(a.active = true ∧ b.active = true)

theorem valid_empty : Valid (EventTreeStore.empty : EventTreeStore δ μ) :=
  ⟨List.Pairwise.nil, List.forall_mem_nil _, List.forall_mem_nil _,
    List.forall_mem_nil _, List.Pairwise.nil⟩

namespace Valid

open EventTreeStore

variable (hv : Valid s)
include hv

theorem pairwise_rowsOf (r : Str) : (s.rowsOf r).Pairwise (·.seq < ·.seq) := by
  refine (hv.seqs.sublist List.filter_sublist).imp_of_mem fun {a b} ha hb h => h ?_
  rw [of_decide_eq_true (List.mem_filter.mp ha).2, of_decide_eq_true (List.mem_filter.mp hb).2]

theorem listEvents_eq (r : Str) : s.listEvents r = (s.rowsOf r).map EventRow.event := by
  have hle : (s.rowsOf r).Pairwise (·.seq ≤ ·.seq) := (hv.pairwise_rowsOf r).imp Nat.le_of_lt
  rw [listEvents, hle.insertionSort_eq]

theorem exists_row {r : Str} {ev : Event δ} (h : ev ∈ s.listEvents r) :
    ∃ x, s.runEventLog.find (r, ev.eventId) = some x ∧ x.event = ev := by
  rw [hv.listEvents_eq] at h
  obtain ⟨x, hx, rfl⟩ := List.mem_map.mp h
  obtain ⟨hx, hr⟩ := List.mem_filter.mp hx
  refine ⟨x, Table.find_eq_some_iff.mpr ⟨hx, ?_⟩, rfl⟩
  rw [EventRow.key, of_decide_eq_true hr, (hv.ids x hx).1]

theorem eventId_ne {r : Str} {ev : Event δ} (h : ev ∈ s.listEvents r) : ev.eventId ≠ [] := by
  obtain ⟨x, hx, rfl⟩ := hv.exists_row h
  have hmem := (Table.find_eq_some_iff.mp hx).1
  rw [(hv.ids x hmem).1]
  exact (hv.ids x hmem).2

theorem nodup_listEvents (r : Str) : ((s.listEvents r).map Event.eventId).Nodup := by
  rw [hv.listEvents_eq, List.map_map]
  have hkeys : ((s.rowsOf r).map EventRow.key).Nodup :=
    s.runEventLog.nodup.sublist (List.filter_sublist.map _)
  refine List.Nodup.map_on (fun x hx y hy hxy => ?_) (List.Nodup.of_map _ hkeys)
  obtain ⟨hx, hxr⟩ := List.mem_filter.mp hx
  obtain ⟨hy, hyr⟩ := List.mem_filter.mp hy
  refine eq_of_key_eq s.runEventLog.nodup hx hy (Prod.ext ?_ ?_)
  · exact (of_decide_eq_true hxr).trans (of_decide_eq_true hyr).symm
  · exact (hv.ids x hx).1.symm.trans (hxy.trans (hv.ids y hy).1)

theorem forkPath_spec {source at' last : Str} {path : List (Event δ)}
    (h : s.forkPath source at' = some (path, last)) :
    (∀ ev ∈ path, ev ∈ s.listEvents source) ∧ (path.map Event.eventId).Nodup := by
  have hcopy := forkPath_eq_some h
  split_ifs at hcopy
  · rw [hcopy]
    exact ⟨fun _ h => h, hv.nodup_listEvents source⟩
  · exact pathToRoot_spec hcopy

end Valid

/-! ### Copying a path -/

namespace EventTreeStore

/-- The rows that `fork_run` writes. -/
def copyRows (s : EventTreeStore δ μ) (source new : Str) (hex : ℕ → Str)
    (path : List (Event δ)) : List (EventRow δ μ) :=
  path.zipIdx.map fun e => s.copyRow source new hex e.1 e.2

variable {hex : ℕ → Str} {source new : Str}

theorem eventId_copyRow {ev : Event δ} {n : ℕ} (hid : ev.eventId ≠ []) :
    (s.copyRow source new hex ev n).eventId = ev.eventId :=
  if_neg hid

private theorem foldl_copyRow (hne : source ≠ new) (l : List (Event δ × ℕ))
    (hid : ∀ e ∈ l, e.1.eventId ≠ []) (hn : (l.map (·.1.eventId)).Nodup)
    (hsrc : t.rowsOf source = s.rowsOf source)
    (hnew : ∀ e ∈ l, (new, e.1.eventId) ∉ t.runEventLog.rows.map EventRow.key) :
    (l.foldl (copyEvent source new hex) t).runEventLog.rows =
      t.runEventLog.rows ++ l.map fun e => s.copyRow source new hex e.1 e.2 := by
  induction l generalizing t with
  | nil => rw [List.map_nil, List.append_nil, List.foldl_nil]
  | cons e l ih =>
    obtain ⟨hidl, hnl⟩ := List.nodup_cons.mp hn
    have hrow : t.copyRow source new hex e.1 e.2 = s.copyRow source new hex e.1 e.2 := by
      rw [copyRow, copyRow, messagesJsonFor_congr hsrc]
    have hkey : (s.copyRow source new hex e.1 e.2).key = (new, e.1.eventId) :=
      congrArg (Prod.mk new) (eventId_copyRow (hid e List.mem_cons_self))
    have hrows : (t.runEventLog.put (s.copyRow source new hex e.1 e.2)).rows =
        t.runEventLog.rows ++ [s.copyRow source new hex e.1 e.2] :=
      Table.rows_put (hkey ▸ hnew e List.mem_cons_self)
    have ht : (copyEvent source new hex t e).runEventLog =
        t.runEventLog.put (s.copyRow source new hex e.1 e.2) := by rw [copyEvent, hrow]
    rw [List.foldl_cons,
      ih (fun x hx => hid x (List.mem_cons_of_mem _ hx)) hnl, ht, hrows, List.map_cons,
      List.append_assoc, List.singleton_append]
    · rw [← hsrc, rowsOf, ht]
      exact Table.filter_put fun x hx => decide_eq_false fun hxs =>
        hne (hxs.symm.trans (congrArg Prod.fst (hx.trans hkey)))
    · intro x hx
      rw [ht, hrows, List.map_append, List.map_singleton, hkey, List.mem_append, List.mem_singleton]
      rintro (hmem | heq)
      · exact hnew x (List.mem_cons_of_mem _ hx) hmem
      · exact hidl (List.mem_map.mpr ⟨x, hx, congrArg Prod.snd heq⟩)

theorem rows_copyPath {path : List (Event δ)} (hne : source ≠ new) (hnew : s.rowsOf new = [])
    (hid : ∀ ev ∈ path, ev.eventId ≠ []) (hn : (path.map Event.eventId).Nodup) :
    (s.copyPath source new hex path).runEventLog.rows =
      s.runEventLog.rows ++ s.copyRows source new hex path := by
  refine foldl_copyRow hne path.zipIdx (fun e he => hid e.1 (List.fst_mem_of_mem_zipIdx he)) ?_ rfl
    fun e _ hmem => ?_
  · have hfst : path.zipIdx.map (·.1.eventId) = path.map Event.eventId := by
      conv_rhs => rw [← List.zipIdx_map_fst 0 path, List.map_map]
      rfl
    rwa [hfst]
  · obtain ⟨x, hx, hxk⟩ := List.mem_map.mp hmem
    have : x ∈ s.rowsOf new :=
      List.mem_filter.mpr ⟨hx, decide_eq_true (congrArg Prod.fst hxk)⟩
    rw [hnew] at this
    exact absurd this List.not_mem_nil

private theorem foldl_copyRow_rest (l : List (Event δ × ℕ)) :
    (l.foldl (copyEvent source new hex) t).runMeta = t.runMeta ∧
      (l.foldl (copyEvent source new hex) t).runBranches = t.runBranches := by
  induction l generalizing t with
  | nil => exact ⟨rfl, rfl⟩
  | cons e l ih => exact ih

@[simp]
theorem runMeta_copyPath (source new : Str) (hex : ℕ → Str) (path : List (Event δ)) :
    (s.copyPath source new hex path).runMeta = s.runMeta :=
  (foldl_copyRow_rest path.zipIdx).1

@[simp]
theorem runBranches_copyPath (source new : Str) (hex : ℕ → Str) (path : List (Event δ)) :
    (s.copyPath source new hex path).runBranches = s.runBranches :=
  (foldl_copyRow_rest path.zipIdx).2

theorem mem_copyRows {path : List (Event δ)} {r : EventRow δ μ}
    (h : r ∈ s.copyRows source new hex path) :
    ∃ ev ∈ path, ∃ n, r = s.copyRow source new hex ev n := by
  obtain ⟨e, he, rfl⟩ := List.mem_map.mp h
  exact ⟨e.1, List.fst_mem_of_mem_zipIdx he, e.2, rfl⟩

theorem pairwise_copyRows (source new : Str) (hex : ℕ → Str) (path : List (Event δ)) :
    (s.copyRows source new hex path).Pairwise (·.seq < ·.seq) := by
  have hseq : (s.copyRows source new hex path).map EventRow.seq =
      List.range' 0 path.length := by
    rw [copyRows, List.map_map, ← List.zipIdx_map_snd 0 path]
    rfl
  have hlt : ((s.copyRows source new hex path).map EventRow.seq).Pairwise (· < ·) :=
    hseq ▸ List.pairwise_lt_range'
  exact List.pairwise_map.mp hlt

theorem map_event_copyRows (source new : Str) (hex : ℕ → Str) (path : List (Event δ)) :
    (s.copyRows source new hex path).map EventRow.event = path := by
  rw [copyRows, List.map_map]
  exact List.zipIdx_map_fst 0 path

end EventTreeStore

/-! ### Every call keeps the invariant -/

namespace EventTreeStore

theorem getRunMeta_registerRun_of_ne {m : RunMeta} {r : Str} (h : r ≠ m.runId) :
    (s.registerRun m).getRunMeta r = s.getRunMeta r :=
  Table.find_put_of_ne h

theorem getRunMeta_registerRun_self (m : RunMeta) :
    (s.registerRun m).getRunMeta m.runId = some { m with rootRunId := s.rootFor m } :=
  Table.find_put_self (T := s.runMeta) (r := { m with rootRunId := s.rootFor m })

theorem getRunMeta_of_resolveRun {r : Str} {m : RunMeta} (h : s.resolveRun r = some m) :
    s.getRunMeta m.runId = some m := by
  refine Table.find_eq_some_iff.mpr ⟨?_, rfl⟩
  rw [resolveRun] at h
  rcases hget : s.getRunMeta r with _ | m'
  · rw [hget] at h
    exact (List.mem_filter.mp (List.argmax_mem h)).1
  · rw [hget] at h
    obtain rfl := Option.some.inj h
    exact (Table.find_eq_some_iff.mp hget).1

theorem lt_nextSeq {r : Str} {x : EventRow δ μ} (h : x ∈ s.rowsOf r) : x.seq < s.nextSeq r := by
  have hx : x.seq ∈ (s.rowsOf r).map EventRow.seq := List.mem_map_of_mem h
  rw [nextSeq]
  rcases hmax : ((s.rowsOf r).map EventRow.seq).max? with _ | n
  · rw [List.max?_eq_none_iff.mp hmax] at hx
    exact absurd hx List.not_mem_nil
  · exact Nat.lt_succ_of_le ((List.max?_eq_some_iff.mp hmax).2 _ hx)

theorem forkRun_cases (s : EventTreeStore δ μ) (c : ForkCall) :
    (s.forkRun c = (none, s) ∧
        ∀ m, s.resolveRun c.runId = some m → s.forkPath m.runId c.atEventId = none) ∨
      ∃ m path last, s.resolveRun c.runId = some m ∧
        s.forkPath m.runId c.atEventId = some (path, last) ∧
        s.forkRun c = (some ((s.forkTables c m path last).forkResult c m path last),
          s.forkTables c m path last) := by
  rcases hm : s.resolveRun c.runId with _ | m
  · exact Or.inl ⟨by rw [forkRun, hm], by simp⟩
  · rcases hpath : s.forkPath m.runId c.atEventId with _ | ⟨path, last⟩
    · refine Or.inl ⟨by rw [forkRun, hm]; simp only [hpath], fun m' hm' => ?_⟩
      rw [← Option.some.inj hm', hpath]
    · exact Or.inr ⟨m, path, last, rfl, hpath, by rw [forkRun, hm]; simp only [hpath]⟩

/-- In the family of a root, the branch with an id is active and no other is. -/
def mark (root b : Str) (x : Branch) : Branch :=
  if x.rootRunId = root then { x with active := decide (x.branchId = b) } else x

theorem mark_ids (root b : Str) (x : Branch) :
    (mark root b x).branchId = x.branchId ∧ (mark root b x).runId = x.runId ∧
      (mark root b x).rootRunId = x.rootRunId ∧ (mark root b x).parentRunId = x.parentRunId := by
  unfold mark
  split_ifs <;> exact ⟨rfl, rfl, rfl, rfl⟩

theorem setActive_eq_mark {root : Str} {x y : Branch} (hx : x ∈ s.runBranches.rows)
    (hy : y ∈ s.runBranches.rows) (hroot : y.rootRunId = root) :
    setActive (·.branchId = y.branchId) true (setActive (·.rootRunId = root) false x) =
      mark root y.branchId x := by
  by_cases hxy : x.branchId = y.branchId
  · obtain rfl := eq_of_key_eq s.runBranches.nodup hx hy hxy
    simp [setActive, mark, hroot]
  · by_cases hxr : x.rootRunId = root <;> simp [setActive, mark, hxy, hxr]

theorem activateBranch_cases (s : EventTreeStore δ μ) (r b : Str) :
    (s.activateBranch r b = (none, s) ∧ ∀ m, s.resolveRun r = some m →
        ∀ x ∈ s.runBranches.rows, x.branchId = b → x.rootRunId ≠ orElse m.rootRunId m.runId) ∨
      ∃ m t, s.resolveRun r = some m ∧
        (∃ x ∈ s.runBranches.rows, x.branchId = b ∧ x.rootRunId = orElse m.rootRunId m.runId) ∧
        s.activateBranch r b = (some (orElse m.rootRunId m.runId, b), t) ∧
        t.runEventLog = s.runEventLog ∧ t.runMeta = s.runMeta ∧
        t.runBranches.rows = s.runBranches.rows.map (mark (orElse m.rootRunId m.runId) b) := by
  rcases hm : s.resolveRun r with _ | m
  · exact Or.inl ⟨by rw [activateBranch, listBranches, hm, Option.map_none], by simp⟩
  · have hany : (s.family (orElse m.rootRunId m.runId)).any (·.branchId = b) = true ↔
        ∃ x ∈ s.runBranches.rows, x.branchId = b ∧
          x.rootRunId = orElse m.rootRunId m.runId := by
      rw [family, List.any_eq_true]
      constructor
      · rintro ⟨x, hx, hxb⟩
        obtain ⟨hx, hxr⟩ := List.mem_filter.mp ((List.mem_insertionSort _).mp hx)
        exact ⟨x, hx, of_decide_eq_true hxb, of_decide_eq_true hxr⟩
      · rintro ⟨x, hx, hxb, hxr⟩
        refine ⟨x, (List.mem_insertionSort _).mpr ?_, decide_eq_true hxb⟩
        exact List.mem_filter.mpr ⟨hx, decide_eq_true hxr⟩
    rw [activateBranch, listBranches, hm, Option.map_some]
    by_cases h : (s.family (orElse m.rootRunId m.runId)).any (·.branchId = b) = true
    · obtain ⟨y, hy, rfl, hroot⟩ := hany.mp h
      refine Or.inr ⟨m, _, rfl, ⟨y, hy, rfl, hroot⟩, if_pos h, rfl, rfl, ?_⟩
      refine List.map_map.trans (List.map_congr_left fun x hx => setActive_eq_mark hx hy hroot)
    · refine Or.inl ⟨if_neg h, fun m' hm' x hx hxb hroot => ?_⟩
      obtain rfl := Option.some.inj hm'
      exact h (hany.mpr ⟨x, hx, hxb, hroot⟩)

theorem orElse_ne {a b : Str} (hb : b ≠ []) : orElse a b ≠ [] := by
  unfold orElse
  split_ifs with h
  · exact hb
  · exact h

end EventTreeStore

namespace Valid

open EventTreeStore

variable {m : RunMeta} {path : List (Event δ)} {c : ForkCall}

theorem rootFor_ne (hid : m.runId ≠ []) : s.rootFor m ≠ [] := by
  unfold rootFor
  split_ifs with hroot hparent
  · exact hroot
  · exact orElse_ne hparent
  · exact hid

variable (hv : Valid s)
include hv

theorem orElse_root {r : Str} (h : s.getRunMeta r = some m) :
    orElse m.rootRunId m.runId = m.rootRunId :=
  if_neg (hv.roots m (Table.find_eq_some_iff.mp h).1)

theorem registerRun (hid : m.runId ≠ []) (hnew : s.getRunMeta m.runId = none) :
    Valid (s.registerRun m) where
  seqs := hv.seqs
  ids := hv.ids
  roots x hx := by
    rcases Table.mem_put.mp hx with rfl | ⟨hx, -⟩
    · exact rootFor_ne hid
    · exact hv.roots x hx
  branches b hb := by
    obtain ⟨hbr, m', p, hm', hp, hroots⟩ := hv.branches b hb
    have hne : ∀ {r x}, s.getRunMeta r = some x → r ≠ m.runId := by
      rintro r x hx rfl
      exact absurd (hnew.symm.trans hx) (by simp)
    refine ⟨hbr, m', p, ?_, ?_, hroots⟩
    · rw [getRunMeta_registerRun_of_ne (hne hm'), hm']
    · rw [getRunMeta_registerRun_of_ne (hne hp), hp]
  active := hv.active

theorem appendEvent (r : Str) (ev : Event δ) (messages : List μ) (hex : Str) :
    Valid (s.appendEvent r ev messages hex) := by
  unfold EventTreeStore.appendEvent
  split_ifs
  · exact hv
  · refine { hv with seqs := ?_, ids := fun x hx => ?_ }
    · rw [Table.put, List.pairwise_append]
      refine ⟨hv.seqs.sublist List.filter_sublist, List.pairwise_singleton _ _, ?_⟩
      intro a ha b hb hab
      obtain rfl := List.mem_singleton.mp hb
      exact lt_nextSeq (List.mem_filter.mpr ⟨(List.mem_filter.mp ha).1, decide_eq_true hab⟩)
    · rcases Table.mem_put.mp hx with rfl | ⟨hx, -⟩
      · exact ⟨rfl, orElse_ne (by simp [evtId])⟩
      · exact hv.ids x hx

theorem copyPath {source new : Str} {hex : ℕ → Str} (hne : source ≠ new) (hnew : s.rowsOf new = [])
    (hid : ∀ ev ∈ path, ev.eventId ≠ []) (hn : (path.map Event.eventId).Nodup) :
    Valid (s.copyPath source new hex path) where
  seqs := by
    rw [rows_copyPath hne hnew hid hn, List.pairwise_append]
    refine ⟨hv.seqs, (pairwise_copyRows source new hex path).imp ?_, ?_⟩
    · intro a b hlt _
      exact hlt
    intro a ha b hb hab
    obtain ⟨ev, -, n, rfl⟩ := mem_copyRows hb
    have : a ∈ s.rowsOf new := List.mem_filter.mpr ⟨ha, decide_eq_true hab⟩
    exact absurd (hnew ▸ this) List.not_mem_nil
  ids x hx := by
    rw [rows_copyPath hne hnew hid hn, List.mem_append] at hx
    rcases hx with hx | hx
    · exact hv.ids x hx
    · obtain ⟨ev, hev, n, rfl⟩ := mem_copyRows hx
      rw [eventId_copyRow (hid ev hev)]
      exact ⟨rfl, hid ev hev⟩
  roots := by
    rw [runMeta_copyPath]
    exact hv.roots
  branches := by
    simp only [runBranches_copyPath, getRunMeta, runMeta_copyPath]
    exact hv.branches
  active := by
    rw [runBranches_copyPath]
    exact hv.active

theorem fork_spec {last : Str} (hfresh : s.getRunMeta c.newRun = none)
    (hm : s.getRunMeta m.runId = some m)
    (hpath : s.forkPath m.runId c.atEventId = some (path, last)) :
    m.runId ≠ c.newRun ∧ (∀ ev ∈ path, ev ∈ s.listEvents m.runId) ∧
      (∀ ev ∈ path, ev.eventId ≠ []) ∧ (path.map Event.eventId).Nodup := by
  obtain ⟨hmem, hn⟩ := hv.forkPath_spec hpath
  refine ⟨fun h => ?_, hmem, fun ev hev => hv.eventId_ne (hmem ev hev), hn⟩
  exact absurd (hfresh.symm.trans (h ▸ hm)) (by simp)

theorem notMem_branches {r : Str} (hfresh : s.getRunMeta r = none) :
    r ∉ s.runBranches.rows.map Branch.branchId := by
  intro hmem
  obtain ⟨b, hb, rfl⟩ := List.mem_map.mp hmem
  obtain ⟨hbr, m, p, hm, -⟩ := hv.branches b hb
  exact absurd (hfresh.symm.trans (hbr ▸ hm)) (by simp)

theorem forkTables_spec {last : Str} (hfresh : Fresh (.forkRun c) s)
    (hm : s.getRunMeta m.runId = some m)
    (hpath : s.forkPath m.runId c.atEventId = some (path, last)) :
    (s.forkTables c m path last).runEventLog.rows =
        s.runEventLog.rows ++ s.copyRows m.runId c.newRun c.eventHex path ∧
      (∀ r ≠ c.newRun, (s.forkTables c m path last).getRunMeta r = s.getRunMeta r) ∧
      (s.forkTables c m path last).getRunMeta c.newRun = some (c.metaRow m last) ∧
      (s.forkTables c m path last).runBranches.rows =
        s.runBranches.rows ++ [c.branchRow m last] := by
  obtain ⟨hne, -, hid, hn⟩ := hv.fork_spec hfresh.1 hm hpath
  have hroot : (c.metaRow m last).rootRunId ≠ [] := by
    rw [ForkCall.metaRow, hv.orElse_root hm]
    exact hv.roots m (Table.find_eq_some_iff.mp hm).1
  refine ⟨rows_copyPath hne hfresh.2 hid hn, fun r hr => ?_, ?_, ?_⟩
  · refine (getRunMeta_registerRun_of_ne (m := c.metaRow m last) hr).trans ?_
    rw [getRunMeta, runMeta_copyPath, getRunMeta]
  · refine (getRunMeta_registerRun_self (c.metaRow m last)).trans ?_
    rw [rootFor, if_pos hroot]
  · refine Eq.trans ?_ (Table.rows_put (hv.notMem_branches hfresh.1))
    exact congrArg (fun T => (Table.put T (c.branchRow m last)).rows) (runBranches_copyPath ..)

theorem forkTables {last : Str} (hfresh : Fresh (.forkRun c) s) (hm : s.getRunMeta m.runId = some m)
    (hpath : s.forkPath m.runId c.atEventId = some (path, last)) :
    Valid (s.forkTables c m path last) := by
  obtain ⟨hne, -, hid, hn⟩ := hv.fork_spec hfresh.1 hm hpath
  obtain ⟨-, hother, hself, hrows⟩ := hv.forkTables_spec hfresh hm hpath
  have hreg : Valid ((s.copyPath m.runId c.newRun c.eventHex path).registerRun
      (c.metaRow m last)) := by
    refine (hv.copyPath hne hfresh.2 hid hn).registerRun ?_ ?_
    · exact List.append_ne_nil_of_left_ne_nil (by decide) _
    · rw [getRunMeta, runMeta_copyPath]
      exact hfresh.1
  refine { hreg with branches := fun b hb => ?_, active := ?_ }
  · rw [hrows, List.mem_append, List.mem_singleton] at hb
    rcases hb with hb | rfl
    · refine hreg.branches b ?_
      exact (runBranches_copyPath (s := s) m.runId c.newRun c.eventHex path).symm ▸ hb
    · exact ⟨rfl, _, m, hself, (hother _ hne).trans hm, rfl, (hv.orElse_root hm).symm⟩
  · rw [hrows, List.pairwise_append]
    refine ⟨hv.active, List.pairwise_singleton _ _, ?_⟩
    intro a _ b hb _ hab
    obtain rfl := List.mem_singleton.mp hb
    exact absurd hab.2 Bool.false_ne_true

theorem forkRun (hfresh : Fresh (.forkRun c) s) : Valid (s.forkRun c).2 := by
  rcases forkRun_cases s c with ⟨h, -⟩ | ⟨m, path, last, hm, hpath, h⟩
  · rw [h]
    exact hv
  · rw [h]
    exact hv.forkTables hfresh (getRunMeta_of_resolveRun hm) hpath

theorem activateBranch (r b : Str) : Valid (s.activateBranch r b).2 := by
  rcases activateBranch_cases s r b with ⟨h, -⟩ | ⟨m, t, -, -, h, hlog, hmeta, hrows⟩
  · rw [h]
    exact hv
  · rw [h]
    refine ⟨by rw [hlog]; exact hv.seqs, by rw [hlog]; exact hv.ids,
      by rw [hmeta]; exact hv.roots, fun x hx => ?_, ?_⟩
    · rw [hrows] at hx
      obtain ⟨y, hy, rfl⟩ := List.mem_map.mp hx
      obtain ⟨hid, hrun, hroot, hparent⟩ := mark_ids (orElse m.rootRunId m.runId) b y
      rw [hid, hrun, hroot, hparent, getRunMeta, getRunMeta, hmeta]
      exact hv.branches y hy
    · have hkeys : s.runBranches.rows.Pairwise fun a b => a.branchId ≠ b.branchId :=
        List.pairwise_map.mp s.runBranches.nodup
      rw [hrows]
      refine List.pairwise_map.mpr ((hv.active.and hkeys).imp fun {x y} hxy hroot => ?_)
      rw [(mark_ids _ _ x).2.2.1, (mark_ids _ _ y).2.2.1] at hroot
      unfold mark
      by_cases hx : x.rootRunId = orElse m.rootRunId m.runId
      · rw [if_pos hx, if_pos (hroot ▸ hx)]
        rintro ⟨hxb, hyb⟩
        exact hxy.2 ((of_decide_eq_true hxb).trans (of_decide_eq_true hyb).symm)
      · rw [if_neg hx, if_neg (hroot ▸ hx)]
        exact hxy.1 hroot

end Valid

theorem Valid.step (c : Operation δ μ) (s : EventTreeStore δ μ) (hv : Valid s)
    (hfresh : Fresh c s) : Valid (step c s).2 := by
  cases c with
  | registerRun m => exact hv.registerRun hfresh.1 hfresh.2
  | appendEvent r ev messages hex => exact hv.appendEvent r ev messages hex
  | forkRun c => exact hv.forkRun hfresh
  | activateBranch r b => exact hv.activateBranch r b

theorem valid_run (cs : List (Operation δ μ)) (hfresh : Along step Fresh cs .empty) :
    Valid (run step cs .empty).2 :=
  run_invariant Valid.step cs valid_empty hfresh

end AgentStudio.EventTree

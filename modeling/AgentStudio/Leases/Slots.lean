import AgentStudio.Leases.Lease
import Mathlib.Logic.Relation

/-!
# Slots

What the operations on leases keep. `Inv` is the invariant of every run: the ids are the ones
that were drawn, a queued lease is one of a resource with slots, and the queued leases of a
resource stand in the order of their positions.

An operation inserts a lease, releases a queued one, or hands slots over: `step_rule` is the
rule of induction. `handOver_cases` says what a hand-over does to the table.

`slots_respected` is about runs: the granted leases of a resource, the positions of the queued
ones, and the way a status moves.
-/

namespace AgentStudio.Leases

open PyText Table Relation

variable {o : Outside} {T T' : Table} {s t : State} {l x y : Lease} {resourceId : Str}

/-! ### The table after a save -/

theorem rows_saveLease (hx : x ∈ T.rows) (hid : l.leaseId = x.leaseId) :
    (T.saveLease l).rows = T.rows.map (Rows.update Lease.leaseId x.leaseId l.set) := by
  have hmem : l.leaseId ∈ T.rows.map Lease.leaseId := hid ▸ List.mem_map_of_mem hx
  rw [← hid, saveLease, dif_pos hmem]

theorem rows_saveLease_of_notMem (h : l.leaseId ∉ T.rows.map Lease.leaseId) :
    (T.saveLease l).rows = T.rows ++ [l] := by
  rw [saveLease, dif_neg h]

theorem mem_saveLease (hx : x ∈ T.rows) (hid : l.leaseId = x.leaseId) :
    y ∈ (T.saveLease l).rows ↔ y = l.set x ∨ y ∈ T.rows ∧ y.leaseId ≠ x.leaseId := by
  rw [rows_saveLease hx hid]
  exact Rows.mem_map_update T.nodup hx

theorem countActive_saveLease (hx : x ∈ T.rows) (hid : l.leaseId = x.leaseId) (resourceId : Str) :
    (T.saveLease l).countActive resourceId + (if Is resourceId .granted x then 1 else 0) =
      T.countActive resourceId + (if Is resourceId .granted (l.set x) then 1 else 0) := by
  have h := Rows.countP_map_update (f := l.set) T.nodup hx (Is resourceId .granted ·)
  simpa only [countActive, rows_saveLease hx hid, decide_eq_true_eq] using h

theorem countActive_insert (h : l.leaseId ∉ T.rows.map Lease.leaseId) (resourceId : Str) :
    (T.saveLease l).countActive resourceId =
      T.countActive resourceId + (if Is resourceId .granted l then 1 else 0) := by
  simp only [countActive, rows_saveLease_of_notMem h, List.countP_append, List.countP_singleton,
    decide_eq_true_eq]

theorem getLease_eq_some {leaseId : Str} (h : T.getLease leaseId = some x) :
    x ∈ T.rows ∧ x.leaseId = leaseId :=
  ⟨List.mem_of_find?_eq_some h, by simpa using List.find?_some h⟩

theorem position_le_max (hx : x ∈ T.rows) (h : Is resourceId .queued x) :
    x.position ≤ T.maxQueuedPosition resourceId := by
  have hmem : x.position ∈ (T.rows.filter (Is resourceId .queued)).map Lease.position :=
    List.mem_map_of_mem (List.mem_filter.mpr ⟨hx, decide_eq_true h⟩)
  unfold maxQueuedPosition
  generalize (T.rows.filter (Is resourceId .queued)).map Lease.position = ns at hmem
  induction ns with
  | nil => exact absurd hmem List.not_mem_nil
  | cons n ns ih =>
    rcases List.mem_cons.mp hmem with rfl | hmem
    · exact le_max_left _ _
    · exact (ih hmem).trans (le_max_right _ _)

/-! ### The lease that is selected -/

theorem mem_listLeases {team : Str} {status : Status} :
    x ∈ T.listLeases o resourceId status team ↔ x ∈ T.rows ∧ Listed resourceId status team x := by
  rw [listLeases, List.mem_insertionSort, (o.scan_perm _).mem_iff, List.mem_filter,
    decide_eq_true_eq]

theorem selectQueued_eq_some {team : Str} (h : selectQueued o resourceId team T = some x) :
    x ∈ T.rows ∧ Listed resourceId .queued team x ∧
      ∀ q ∈ T.rows, Listed resourceId .queued team q → x.position ≤ q.position := by
  have hsorted := List.pairwise_insertionSort ByPosition (T.listLeases o resourceId .queued team)
  have hmem : ∀ q, q ∈ (T.listLeases o resourceId .queued team).insertionSort ByPosition ↔
      q ∈ T.rows ∧ Listed resourceId .queued team q :=
    fun q => by rw [List.mem_insertionSort, mem_listLeases]
  unfold selectQueued at h
  cases hq : (T.listLeases o resourceId .queued team).insertionSort ByPosition with
  | nil => simp [hq] at h
  | cons a as =>
    rw [hq] at h hsorted hmem
    obtain rfl : a = x := Option.some.inj h
    obtain ⟨ha, hlisted⟩ := (hmem a).mp List.mem_cons_self
    refine ⟨ha, hlisted, fun q hq hqlisted => ?_⟩
    rcases List.mem_cons.mp ((hmem q).mpr ⟨hq, hqlisted⟩) with rfl | hin
    · exact le_rfl
    · exact (List.pairwise_cons.mp hsorted).1 q hin

theorem selectQueued_eq_none {team : Str} (h : selectQueued o resourceId team T = none) :
    ∀ q ∈ T.rows, ¬ Listed resourceId .queued team q := by
  intro q hq hlisted
  have hmem : q ∈ (T.listLeases o resourceId .queued team).insertionSort ByPosition :=
    (List.mem_insertionSort _).mpr (mem_listLeases.mpr ⟨hq, hlisted⟩)
  rw [List.head?_eq_none_iff.mp h] at hmem
  exact absurd hmem List.not_mem_nil

/-! ### How a status moves -/

inductive Move : Status → Status → Prop
  | grant : Move .queued .granted
  | cancel : Move .queued .released
  | release : Move .granted .released
  | expire : Move .granted .expired

theorem Move.not_terminal {a b : Status} (h : Move a b) : ¬ a.Terminal := by
  cases h <;> decide

/-- Each lease of a table is still there, its status has only moved, and it is the same if it had
ended. -/
def Evolves (T T' : Table) : Prop :=
  ∀ x ∈ T.rows, ∃ y ∈ T'.rows, y.leaseId = x.leaseId ∧ ReflTransGen Move x.status y.status ∧
    (x.status.Terminal → y = x)

theorem Evolves.refl (T : Table) : Evolves T T := fun x hx => ⟨x, hx, rfl, .refl, fun _ => rfl⟩

theorem Evolves.trans {T'' : Table} (h : Evolves T T') (h' : Evolves T' T'') : Evolves T T'' := by
  intro x hx
  obtain ⟨y, hy, hyid, hymoves, hyend⟩ := h x hx
  obtain ⟨z, hz, hzid, hzmoves, hzend⟩ := h' y hy
  refine ⟨z, hz, hzid.trans hyid, hymoves.trans hzmoves, fun hx => ?_⟩
  obtain rfl := hyend hx
  exact hzend hx

theorem evolves_saveLease (hx : x ∈ T.rows) (hid : l.leaseId = x.leaseId)
    (hmove : Move x.status l.status) : Evolves T (T.saveLease l) := by
  intro y hy
  by_cases h : y.leaseId = x.leaseId
  · obtain rfl := Rows.eq_of_key_eq T.nodup hy hx h
    exact ⟨l.set y, (mem_saveLease hy hid).mpr (Or.inl rfl), rfl, .single hmove,
      fun hend => absurd hend hmove.not_terminal⟩
  · exact ⟨y, (mem_saveLease hx hid).mpr (Or.inr ⟨hy, h⟩), rfl, .refl, fun _ => rfl⟩

theorem evolves_insert (h : l.leaseId ∉ T.rows.map Lease.leaseId) : Evolves T (T.saveLease l) :=
  fun x hx => ⟨x, by rw [rows_saveLease_of_notMem h]; exact List.mem_append_left _ hx, rfl, .refl,
    fun _ => rfl⟩

/-! ### The invariant -/

/-- The lease is not behind another one in the queue of its resource. -/
def Before (a b : Lease) : Prop :=
  a.status = .queued → b.status = .queued → a.resourceId = b.resourceId → a.position < b.position

/-- The invariant of a table after some draws. -/
structure Inv (o : Outside) (T : Table) (draws : ℕ) : Prop where
  drawn : ∀ r ∈ T.rows, ∃ n < draws, r.leaseId = "lease_" ++ o.draw n
  slotted : ∀ r ∈ T.rows, r.status = .queued →
    ∃ resource, o.resource r.resourceId = some resource ∧ resource.kind ≠ .advisory
  ordered : T.rows.Pairwise Before

variable {n : ℕ} {now : ℤ}

theorem Inv.mono {m : ℕ} (h : Inv o T n) (hnm : n ≤ m) : Inv o T m where
  drawn r hr := by
    obtain ⟨k, hk, hid⟩ := h.drawn r hr
    exact ⟨k, hk.trans_le hnm, hid⟩
  slotted := h.slotted
  ordered := h.ordered

theorem inv_init : Inv o State.init.table State.init.draws :=
  ⟨List.forall_mem_nil _, List.forall_mem_nil _, .nil⟩

theorem newId_notMem (h : Inv o s.table s.draws) : newId o s ∉ s.table.rows.map Lease.leaseId := by
  intro hmem
  obtain ⟨r, hr, hid⟩ := List.mem_map.mp hmem
  obtain ⟨n, hn, hdrawn⟩ := h.drawn r hr
  have heq : o.draw n = o.draw s.draws := List.append_cancel_left (hdrawn.symm.trans hid)
  exact absurd (o.draw_injective heq) (by omega)

theorem Inv.saveLease (h : Inv o T n) (hx : x ∈ T.rows) (hid : l.leaseId = x.leaseId)
    (hl : l.status ≠ .queued) : Inv o (T.saveLease l) n where
  drawn r hr := by
    rcases (mem_saveLease hx hid).mp hr with rfl | ⟨hr, -⟩
    · exact h.drawn x hx
    · exact h.drawn r hr
  slotted r hr hqueued := by
    rcases (mem_saveLease hx hid).mp hr with rfl | ⟨hr, -⟩
    · exact absurd hqueued hl
    · exact h.slotted r hr hqueued
  ordered := by
    rw [rows_saveLease hx hid]
    -- a row that is queued after the update is as it was
    have hsame : ∀ r : Lease, (Rows.update Lease.leaseId x.leaseId l.set r).status = .queued →
        Rows.update Lease.leaseId x.leaseId l.set r = r := by
      intro r hr
      by_cases hrx : r.leaseId = x.leaseId
      · rw [Rows.update, if_pos hrx] at hr
        exact absurd hr hl
      · exact Rows.update_of_ne hrx
    refine Rows.pairwise_map_update h.ordered fun {a b} hab ha hb => ?_
    have hua := hsame a ha
    have hub := hsame b hb
    rw [hua] at ha ⊢
    rw [hub] at hb ⊢
    exact hab ha hb

/-- The lease that `lease_apply` inserts. -/
structure Inserts (o : Outside) (s : State) (l : Lease) (resource : Resource) : Prop where
  resource_eq : o.resource l.resourceId = some resource
  leaseId_eq : l.leaseId = newId o s
  cases : l.status = .granted ∧
      (resource.kind = .advisory ∨ s.table.countActive l.resourceId < resource.capacity) ∨
    l.status = .queued ∧ resource.kind ≠ .advisory ∧
      resource.capacity ≤ s.table.countActive l.resourceId ∧
      l.position = s.table.maxQueuedPosition l.resourceId + 1

theorem Inv.insert {resource : Resource} (h : Inv o s.table s.draws)
    (hl : Inserts o s l resource) : Inv o (s.table.saveLease l) (s.draws + 1) := by
  have hnew := hl.leaseId_eq ▸ newId_notMem h
  have hrows := rows_saveLease_of_notMem hnew
  refine ⟨fun r hr => ?_, fun r hr hqueued => ?_, ?_⟩
  · rw [hrows] at hr
    rcases mem_snoc.mp hr with hr | rfl
    · exact (h.mono (Nat.le_succ _)).drawn r hr
    · exact ⟨s.draws, Nat.lt_succ_self _, hl.leaseId_eq⟩
  · rw [hrows] at hr
    rcases mem_snoc.mp hr with hr | rfl
    · exact h.slotted r hr hqueued
    · rcases hl.cases with ⟨hgranted, -⟩ | ⟨-, hkind, -⟩
      · rw [hgranted] at hqueued
        exact absurd hqueued (by decide)
      · exact ⟨resource, hl.resource_eq, hkind⟩
  · rw [hrows, List.pairwise_append]
    refine ⟨h.ordered, List.pairwise_singleton _ _, fun a ha b hb hqa hqb hab => ?_⟩
    obtain rfl := List.mem_singleton.mp hb
    rcases hl.cases with ⟨hgranted, -⟩ | ⟨-, -, -, hposition⟩
    · rw [hgranted] at hqb
      exact absurd hqb (by decide)
    · have := position_le_max ha ⟨hab, hqa⟩
      omega

/-! ### Hand-overs -/

structure Ends (x l : Lease) : Prop where
  leaseId_eq : l.leaseId = x.leaseId
  resourceId_eq : l.resourceId = x.resourceId
  team_eq : l.team = x.team
  move : Move x.status l.status
  terminal : l.status.Terminal

theorem Ends.ne_queued (h : Ends x l) : l.status ≠ .queued := by
  rcases h.terminal with hl | hl <;> rw [hl] <;> decide

theorem handOver_cases (l : Lease) (s : State) :
    selectQueued o l.resourceId l.team (s.table.saveLease l) = none ∧
        (handOver o l s).2.table = s.table.saveLease l ∨
      ∃ q now, selectQueued o l.resourceId l.team (s.table.saveLease l) = some q ∧
        (handOver o l s).2.table = (s.table.saveLease l).saveLease (q.promoted now) := by
  unfold handOver promoteQueued
  cases hq : selectQueued o l.resourceId l.team (s.table.saveLease l) with
  | none => exact Or.inl ⟨rfl, rfl⟩
  | some q => exact Or.inr ⟨q, o.clock s.reads, rfl, rfl⟩

theorem draws_handOver (l : Lease) (s : State) : (handOver o l s).2.draws = s.draws := by
  unfold handOver promoteQueued
  split <;> rfl

theorem mem_handOver (hx : x ∈ s.table.rows) (hend : Ends x l) (hy : y ∈ s.table.rows)
    (hne : y.leaseId ≠ x.leaseId) (hqueued : y.status ≠ .queued) :
    y ∈ (handOver o l s).2.table.rows := by
  have hy' : y ∈ (s.table.saveLease l).rows :=
    (mem_saveLease hx hend.leaseId_eq).mpr (Or.inr ⟨hy, hne⟩)
  rcases handOver_cases (o := o) l s with ⟨-, hT⟩ | ⟨q, now, hq, hT⟩
  · rwa [hT]
  · obtain ⟨hmem, ⟨-, hstatus, -⟩, -⟩ := selectQueued_eq_some hq
    rw [hT]
    refine (mem_saveLease (l := q.promoted now) hmem rfl).mpr (Or.inr ⟨hy', fun hid => ?_⟩)
    rw [Rows.eq_of_key_eq (s.table.saveLease l).nodup hy' hmem hid] at hqueued
    exact hqueued hstatus

theorem Inv.handOver (h : Inv o s.table n) (hx : x ∈ s.table.rows) (hend : Ends x l) :
    Inv o (handOver o l s).2.table n := by
  have h₁ := h.saveLease hx hend.leaseId_eq hend.ne_queued
  rcases handOver_cases (o := o) l s with ⟨-, hT⟩ | ⟨q, now, hq, hT⟩
  · rwa [hT]
  · rw [hT]
    exact h₁.saveLease (selectQueued_eq_some hq).1 rfl Status.noConfusion

theorem evolves_handOver (hx : x ∈ s.table.rows) (hend : Ends x l) :
    Evolves s.table (handOver o l s).2.table := by
  have h₁ := evolves_saveLease hx hend.leaseId_eq hend.move
  rcases handOver_cases (o := o) l s with ⟨-, hT⟩ | ⟨q, now, hq, hT⟩
  · rwa [hT]
  · obtain ⟨hmem, ⟨-, hstatus, -⟩, -⟩ := selectQueued_eq_some hq
    rw [hT]
    exact h₁.trans (evolves_saveLease hmem rfl (hstatus ▸ .grant))

theorem ends_released {reason : Str} (h : ¬ x.status.Terminal) :
    Ends x (x.released now reason) := by
  refine ⟨rfl, rfl, rfl, ?_, Or.inl rfl⟩
  cases hx : x.status with
  | granted => exact .release
  | queued => exact .cancel
  | released => exact absurd (Or.inl hx) h
  | expired => exact absurd (Or.inr hx) h

theorem ends_expired (h : x.status = .granted) : Ends x (x.expired now) :=
  ⟨rfl, rfl, rfl, h ▸ .expire, Or.inr rfl⟩

/-- A hand-over of an operation is one of a granted lease, in a state with the invariant. -/
def Proper (o : Outside) (draws : ℕ) (p : Lease × State) : Prop :=
  Inv o p.2.table draws ∧ ∃ x ∈ p.2.table.rows, x.status = .granted ∧ Ends x p.1

theorem proper_sweepHandOvers {ls : List Lease} (h : Inv o s.table n)
    (hls : ∀ l ∈ ls, l ∈ s.table.rows ∧ l.status = .granted) (hn : (ls.map Lease.leaseId).Nodup) :
    ∀ p ∈ sweepHandOvers o now ls s, Proper o n p := by
  induction ls generalizing s with
  | nil => exact List.forall_mem_nil _
  | cons l ls ih =>
    obtain ⟨hl, hgranted⟩ := hls l List.mem_cons_self
    obtain ⟨hnew, hn⟩ := List.nodup_cons.mp hn
    have hend : Ends l (l.expired now) := ends_expired hgranted
    intro p hp
    rcases List.mem_cons.mp hp with rfl | hp
    · exact ⟨h, l, hl, hgranted, hend⟩
    · refine ih (h.handOver hl hend) (fun y hy => ?_) hn p hp
      obtain ⟨hmem, hy'⟩ := hls y (List.mem_cons_of_mem _ hy)
      have hne : y.leaseId ≠ l.leaseId := fun heq => hnew (heq ▸ List.mem_map_of_mem hy)
      exact ⟨mem_handOver hl hend hmem hne (by rw [hy']; decide), hy'⟩

theorem granted_of_mem_listExpired {time : ℤ} (h : l ∈ T.listExpiredLeases o time) :
    l ∈ T.rows ∧ l.status = .granted := by
  obtain ⟨hmem, hl⟩ := List.mem_filter.mp ((o.scan_perm _).mem_iff.mp h)
  exact ⟨hmem, (of_decide_eq_true hl).1⟩

theorem nodup_listExpired (T : Table) (time : ℤ) :
    ((T.listExpiredLeases o time).map Lease.leaseId).Nodup :=
  ((o.scan_perm _).map _).nodup_iff.mpr (T.nodup.sublist (List.filter_sublist.map _))

theorem proper_handOvers (h : Inv o s.table s.draws) (op : Op) :
    ∀ p ∈ handOvers o op s, Proper o s.draws p := by
  cases op with
  | leaseApply => exact List.forall_mem_nil _
  | leaseRelease leaseId reason =>
    intro p hp
    simp only [handOvers] at hp
    split at hp
    · exact absurd hp List.not_mem_nil
    · rename_i l hl
      split_ifs at hp with hgranted
      · obtain rfl := List.mem_singleton.mp hp
        exact ⟨h, l, (getLease_eq_some hl).1, hgranted, ends_released (by rw [hgranted]; decide)⟩
      · exact absurd hp List.not_mem_nil
  | expirySweep now =>
    simp only [handOvers]
    split_ifs
    · exact proper_sweepHandOvers (s := { s with reads := s.reads + 1 }) h
        (fun l => granted_of_mem_listExpired) (nodup_listExpired _ _)
    · exact proper_sweepHandOvers h (fun l => granted_of_mem_listExpired) (nodup_listExpired _ _)

/-! ### Operations and runs -/

theorem sweep_rule {P : Table → Prop} {ls : List Lease}
    (hhand : ∀ p ∈ sweepHandOvers o now ls s, P p.2.table → P (handOver o p.1 p.2).2.table)
    (hs : P s.table) : P (sweep o now ls s).2.table := by
  induction ls generalizing s with
  | nil => exact hs
  | cons l ls ih =>
    exact ih (fun p hp => hhand p (List.mem_cons_of_mem _ hp)) (hhand _ List.mem_cons_self hs)

theorem draws_sweep {ls : List Lease} : (sweep o now ls s).2.draws = s.draws := by
  induction ls generalizing s with
  | nil => rfl
  | cons l ls ih => exact ih.trans (draws_handOver _ s)

theorem draws_le_step (op : Op) (s : State) : s.draws ≤ (step o op s).2.draws := by
  cases op with
  | leaseApply =>
    simp only [step, leaseApply]
    split
    · exact le_rfl
    · split_ifs <;> exact Nat.le_succ _
  | leaseRelease =>
    simp only [step, leaseRelease]
    split
    · exact le_rfl
    · split_ifs
      · exact le_rfl
      · exact (draws_handOver _ { s with reads := s.reads + 1 }).ge
      · exact le_rfl
  | expirySweep =>
    simp only [step, expirySweep]
    split_ifs
    · exact (draws_sweep (s := { s with reads := s.reads + 1 })).ge
    · exact draws_sweep.ge

/-- What an operation does to the table: it inserts a lease, it releases a queued one, or it hands
slots over. -/
theorem step_rule {P : Table → Prop} (op : Op)
    (hinsert : ∀ l resource, Inserts o s l resource → (step o op s).2.draws = s.draws + 1 →
      P (s.table.saveLease l))
    (hcancel : ∀ x ∈ s.table.rows, ∀ l, x.status = .queued → Ends x l → P (s.table.saveLease l))
    (hhand : ∀ p ∈ handOvers o op s, P p.2.table → P (handOver o p.1 p.2).2.table)
    (hs : P s.table) : P (step o op s).2.table := by
  cases op with
  | leaseApply resourceId taskId ownerRole ownerAgent ttl team =>
    simp only [step, leaseApply] at hinsert ⊢
    cases hr : o.resource resourceId with
    | none => exact hs
    | some resource =>
      simp only [hr] at hinsert ⊢
      split_ifs at hinsert ⊢ with hkind hfree
      · exact hinsert _ resource ⟨hr, rfl, Or.inl ⟨rfl, Or.inl hkind⟩⟩ rfl
      · have hcap : s.table.countActive resourceId < resource.capacity := by
          unfold Resource.capacity
          omega
        exact hinsert _ resource ⟨hr, rfl, Or.inl ⟨rfl, Or.inr hcap⟩⟩ rfl
      · have hcap : resource.capacity ≤ s.table.countActive resourceId := by
          unfold Resource.capacity
          omega
        exact hinsert _ resource ⟨hr, rfl, Or.inr ⟨rfl, hkind, hcap, rfl⟩⟩ rfl
  | leaseRelease leaseId reason =>
    simp only [step, leaseRelease, handOvers] at hhand ⊢
    cases hl : s.table.getLease leaseId with
    | none => exact hs
    | some l =>
      simp only [hl] at hhand ⊢
      by_cases hterminal : l.status.Terminal
      · rwa [if_pos hterminal]
      rw [if_neg hterminal]
      by_cases hgranted : l.status = .granted
      · rw [if_pos hgranted] at hhand ⊢
        exact hhand _ (List.mem_singleton_self _) hs
      · rw [if_neg hgranted]
        have hqueued : l.status = .queued := by
          cases hst : l.status with
          | queued => rfl
          | granted => exact absurd hst hgranted
          | released => exact absurd (Or.inl hst) hterminal
          | expired => exact absurd (Or.inr hst) hterminal
        exact hcancel l (getLease_eq_some hl).1 _ hqueued (ends_released hterminal)
  | expirySweep now =>
    simp only [step, expirySweep, handOvers] at hhand ⊢
    exact sweep_rule hhand (by split_ifs <;> exact hs)

theorem inv_step (h : Inv o s.table s.draws) (op : Op) :
    Inv o (step o op s).2.table (step o op s).2.draws := by
  refine step_rule (P := fun T => Inv o T (step o op s).2.draws) op
    (fun l resource hl hdraws => ?_) (fun x hx l hqueued hend => ?_) (fun p hp hinv => ?_)
    (h.mono (draws_le_step op s))
  · rw [hdraws]
    exact h.insert hl
  · exact (h.saveLease hx hend.leaseId_eq hend.ne_queued).mono (draws_le_step op s)
  · obtain ⟨-, x, hx, -, hend⟩ := proper_handOvers h op p hp
    exact hinv.handOver hx hend

theorem evolves_step (h : Inv o s.table s.draws) (op : Op) :
    Evolves s.table (step o op s).2.table := by
  refine step_rule (P := Evolves s.table) op
    (fun l resource hl _ => evolves_insert (hl.leaseId_eq ▸ newId_notMem h))
    (fun x hx l _ hend => evolves_saveLease hx hend.leaseId_eq hend.move)
    (fun p hp hevolves => ?_) (Evolves.refl _)
  obtain ⟨-, x, hx, -, hend⟩ := proper_handOvers h op p hp
  exact hevolves.trans (evolves_handOver hx hend)

theorem inv_reached (ops : List Op) : Inv o (reached o ops).table (reached o ops).draws :=
  Machine.run_invariant_always (I := fun t : State => Inv o t.table t.draws)
    (fun op _ h => inv_step h op) ops inv_init

theorem reached_append (ops ops' : List Op) :
    reached o (ops ++ ops') = (Machine.run (step o) ops' (reached o ops)).2 :=
  Machine.run_append ops ops' _

/-- A lease that is in the table at one time of a run is there later, with a status that has
moved. -/
theorem evolves_reached (ops ops' : List Op) :
    Evolves (reached o ops).table (reached o (ops ++ ops')).table := by
  rw [reached_append]
  have hstep : ∀ (op : Op) (t : State),
      Inv o t.table t.draws ∧ Evolves (reached o ops).table t.table →
      Inv o (step o op t).2.table (step o op t).2.draws ∧
        Evolves (reached o ops).table (step o op t).2.table :=
    fun op t ht => ⟨inv_step ht.1 op, ht.2.trans (evolves_step ht.1 op)⟩
  exact (Machine.run_invariant_always hstep ops' ⟨inv_reached ops, Evolves.refl _⟩).2

/-! ### Slots -/

/-- A resource with slots has at most as many granted leases. -/
def Bounded (o : Outside) (T : Table) : Prop :=
  ∀ r resource, o.resource r = some resource → resource.kind ≠ .advisory →
    T.countActive r ≤ resource.capacity

/-- No lease of another resource is queued when the resource with the empty id hands a slot over:
the queue is not filtered by an empty id. -/
def Clear (p : Lease × State) : Prop :=
  p.1.resourceId = [] → ∀ q ∈ p.2.table.rows, q.status = .queued → q.resourceId = []

instance : DecidablePred Clear := fun _ => inferInstanceAs (Decidable (_ → ∀ q ∈ _, _ → _))

theorem selected_spec {q : Lease} (hx : x ∈ s.table.rows) (hend : Ends x l)
    (hclear : Clear (l, s))
    (hq : selectQueued o l.resourceId l.team (s.table.saveLease l) = some q) :
    q ∈ (s.table.saveLease l).rows ∧ q.status = .queued ∧ q.resourceId = x.resourceId := by
  obtain ⟨hmem, ⟨hresource, hstatus, -⟩, -⟩ := selectQueued_eq_some hq
  refine ⟨hmem, hstatus, ?_⟩
  rw [← hend.resourceId_eq]
  rcases hresource with hempty | h
  · rcases (mem_saveLease hx hend.leaseId_eq).mp hmem with rfl | ⟨hq, -⟩
    · exact absurd hstatus hend.ne_queued
    · exact (hclear hempty q hq hstatus).trans hempty.symm
  · exact h

theorem Ends.not_granted_set (h : Ends x l) (r : Str) : ¬ Is r .granted (l.set x) := by
  rintro ⟨-, hl⟩
  have hterminal := h.terminal
  rw [show l.status = .granted from hl] at hterminal
  exact absurd hterminal (by decide)

theorem countActive_ended (hx : x ∈ s.table.rows) (hgranted : x.status = .granted)
    (hend : Ends x l) (r : Str) :
    (s.table.saveLease l).countActive r + (if r = x.resourceId then 1 else 0) =
      s.table.countActive r := by
  have h := countActive_saveLease hx hend.leaseId_eq r
  have hx' : Is r .granted x ↔ r = x.resourceId := by
    simp only [Is, hgranted, and_true, eq_comm]
  rw [if_neg (hend.not_granted_set r)] at h
  simpa only [hx', Nat.add_zero] using h

theorem countActive_promoted {q : Lease} (hq : q ∈ T.rows) (hqueued : q.status = .queued) (now : ℤ)
    (r : Str) : (T.saveLease (q.promoted now)).countActive r =
      T.countActive r + (if r = q.resourceId then 1 else 0) := by
  have h := countActive_saveLease (l := q.promoted now) hq rfl r
  have hq' : ¬ Is r .granted q := fun h => absurd (hqueued.symm.trans h.2) (by decide)
  have hset : Is r .granted ((q.promoted now).set q) ↔ r = q.resourceId := by
    simp only [Is, Lease.set, Lease.promoted, and_true, eq_comm]
  rw [if_neg hq'] at h
  simpa only [hset, Nat.add_zero] using h

theorem countActive_handOver_le (hx : x ∈ s.table.rows) (hgranted : x.status = .granted)
    (hend : Ends x l) (hclear : Clear (l, s)) (r : Str) :
    (handOver o l s).2.table.countActive r ≤ s.table.countActive r := by
  have hended := countActive_ended hx hgranted hend r
  rcases handOver_cases (o := o) l s with ⟨-, hT⟩ | ⟨q, now, hq, hT⟩
  · rw [hT]
    omega
  · obtain ⟨hmem, hqueued, hresource⟩ := selected_spec hx hend hclear hq
    rw [hT, countActive_promoted hmem hqueued, hresource]
    omega

theorem bounded_step (h : Inv o s.table s.draws) (hs : Bounded o s.table) {op : Op}
    (hclear : ∀ p ∈ handOvers o op s, Clear p) : Bounded o (step o op s).2.table := by
  refine step_rule (P := Bounded o) op (fun l resource hl _ => ?_)
    (fun x hx l hqueued hend => ?_) (fun p hp hbounded => ?_) hs
  · intro r resource' hr hkind
    rw [countActive_insert (hl.leaseId_eq ▸ newId_notMem h)]
    split_ifs with his
    · obtain ⟨rfl, hgranted⟩ := his
      obtain rfl := Option.some.inj (hl.resource_eq.symm.trans hr)
      rcases hl.cases with ⟨-, hadvisory | hfree⟩ | ⟨hqueued, -⟩
      · exact absurd hadvisory hkind
      · exact hfree
      · exact absurd (hqueued.symm.trans hgranted) (by decide)
    · exact hs r resource' hr hkind
  · intro r resource hr hkind
    have hcount := countActive_saveLease hx hend.leaseId_eq r
    have := hs r resource hr hkind
    rw [if_neg (hend.not_granted_set r)] at hcount
    omega
  · obtain ⟨-, x, hx, hgranted, hend⟩ := proper_handOvers h op p hp
    exact fun r resource hr hkind =>
      (countActive_handOver_le hx hgranted hend (hclear p hp) r).trans
        (hbounded r resource hr hkind)

theorem nodup_positions (h : Inv o T n) (r : Str) :
    ((T.rows.filter (Is r .queued)).map Lease.position).Nodup := by
  refine List.pairwise_map.mpr ((h.ordered.filter _).imp_of_mem fun {a b} ha hb hab => ?_)
  obtain ⟨har, haq⟩ := of_decide_eq_true (List.mem_filter.mp ha).2
  obtain ⟨hbr, hbq⟩ := of_decide_eq_true (List.mem_filter.mp hb).2
  exact (hab haq hbq (har.trans hbr.symm)).ne

/-- Along a run: a resource with slots never has more granted leases, queued leases of a resource
have different positions, and the status of a lease moves from queued to granted to an end, or
from queued to released, where it stays. -/
structure Respected (o : Outside) (ops : List Op) : Prop where
  bounded : ∀ before after, ops = before ++ after → ∀ r resource, o.resource r = some resource →
    resource.kind = .exclusive ∨ resource.kind = .sharedSlot →
    (reached o before).table.countActive r ≤ resource.capacity
  positions : ∀ before after, ops = before ++ after → ∀ r,
    (((reached o before).table.rows.filter (Is r .queued)).map Lease.position).Nodup
  moves : ∀ before between after, ops = before ++ between ++ after →
    Evolves (reached o before).table (reached o (before ++ between)).table

/-- In every run in which the resource with the empty id hands no slot over while another resource
has a queue, slots, positions and statuses are as they should be. -/
theorem slots_respected (o : Outside) (ops : List Op)
    (h : Machine.Along (step o) (fun op s => ∀ p ∈ handOvers o op s, Clear p) ops State.init) :
    Respected o ops where
  bounded before after hops r resource hr hkind := by
    rw [hops, Machine.along_append] at h
    have hinit : Bounded o State.init.table := fun _ _ _ _ => Nat.zero_le _
    have hbounded : Inv o (reached o before).table (reached o before).draws ∧
        Bounded o (reached o before).table :=
      Machine.run_invariant
        (I := fun t : State => Inv o t.table t.draws ∧ Bounded o t.table)
        (fun op t ht hclear => ⟨inv_step ht.1 op, bounded_step ht.1 ht.2 hclear⟩) before
        ⟨inv_init, hinit⟩ h.1
    exact hbounded.2 r resource hr (by rcases hkind with h | h <;> rw [h] <;> decide)
  positions before _ _ r := nodup_positions (inv_reached before) r
  moves before between _ _ := evolves_reached before between

/-! ### Two resources with one slot -/

def gpu : Str := "gpu"

def crew : Str := "crew"

/-- Two resources with one slot, one of them with the empty id. -/
def oneSlot : Outside where
  resource r := if r = gpu ∨ r = [] then some ⟨.exclusive, 1⟩ else none
  clock n := n
  draw n := List.replicate n 'x'
  scan rows := rows
  draw_injective := List.replicate_left_injective 'x'
  scan_perm rows := List.Perm.refl rows

/-- An application of a team for a resource, without a limit of time. -/
def applyFor (resourceId team : Str) : Op := .leaseApply resourceId [] [] [] 0 team

def releaseNth (n : ℕ) : Op := .leaseRelease ("lease_" ++ List.replicate n 'x') []

/-- Two applications for one slot, and the release of the first lease. -/
def contended : List Op := [applyFor gpu crew, applyFor gpu crew, releaseNth 0]

theorem slots_respected_contended : Respected oneSlot contended :=
  slots_respected oneSlot contended (by decide)

/-- Two applications for the slot of one resource, and an application for the resource with the
empty id that is released. -/
def unfiltered : List Op := [applyFor gpu crew, applyFor gpu crew, applyFor [] crew, releaseNth 2]

/-- The release grants the queued lease of the other resource, whose slot is taken. -/
theorem not_slots_respected : ¬ Respected oneSlot unfiltered := by
  intro h
  have hle := h.bounded unfiltered [] rfl gpu ⟨.exclusive, 1⟩ rfl (Or.inl rfl)
  exact absurd hle (by decide)

end AgentStudio.Leases

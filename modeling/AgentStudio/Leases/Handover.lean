import AgentStudio.Leases.Slots

/-!
# Handing slots over

A slot that is freed should go to the queued lease of the resource that waits longest
(`HandsOver`), and a resource with a queue should have no free slot (`WorkConserving`). The
queue is numbered over all teams and the slots are counted over all teams, but
`_promote_queued` looks only among the leases of the team that frees the slot.

`slots_conserved` is about runs in which the longest-waiting lease is one of that team whenever
a slot is handed over.
-/

namespace AgentStudio.Leases

open PyText Table

variable {o : Outside} {T : Table} {s : State} {l x q : Lease}

/-! ### The queue -/

/-- The queued lease of a resource that was applied for first. -/
def longestWaiting (T : Table) (resourceId : Str) : Option Lease :=
  T.rows.find? (Is resourceId .queued)

/-- A resource with a queue has no free slot. -/
def WorkConserving (o : Outside) (T : Table) : Prop :=
  ∀ r resource, o.resource r = some resource → resource.kind ≠ .advisory →
    (∃ q ∈ T.rows, Is r .queued q) → T.countActive r = resource.capacity

/-- The slot goes to the longest-waiting lease of the resource: nothing else changes. -/
def HandsOver (o : Outside) (p : Lease × State) : Prop :=
  ∀ q, longestWaiting p.2.table p.1.resourceId = some q →
    ∃ now, (handOver o p.1 p.2).2.table = (p.2.table.saveLease p.1).saveLease (q.promoted now)

/-- The longest-waiting lease of the resource is one of the team that hands the slot over, or that
team is the empty one. -/
def SameTeam (p : Lease × State) : Prop :=
  ∀ q, longestWaiting p.2.table p.1.resourceId = some q → p.1.team = [] ∨ q.team = p.1.team

instance : DecidablePred SameTeam := fun p =>
  match h : longestWaiting p.2.table p.1.resourceId with
  | none => isTrue fun q hq => by simp [h] at hq
  | some q => decidable_of_iff (p.1.team = [] ∨ q.team = p.1.team)
    ⟨fun hteam z hz => by rw [h] at hz; exact Option.some.inj hz ▸ hteam, fun hs => hs q h⟩

theorem longestWaiting_eq_some {r : Str} (h : longestWaiting T r = some q) :
    q ∈ T.rows ∧ Is r .queued q :=
  ⟨List.mem_of_find?_eq_some h, by simpa using List.find?_some h⟩

theorem exists_longestWaiting {r : Str} (h : ∃ q ∈ T.rows, Is r .queued q) :
    ∃ q, longestWaiting T r = some q := by
  obtain ⟨q, hq, hr⟩ := h
  exact Option.isSome_iff_exists.mp (List.find?_isSome.mpr ⟨q, hq, decide_eq_true hr⟩)

theorem position_longestWaiting_lt {n : ℕ} {r : Str} (h : Inv o T n)
    (hq : longestWaiting T r = some q) (hx : x ∈ T.rows) (hr : Is r .queued x) (hne : x ≠ q) :
    q.position < x.position := by
  obtain ⟨hqr, before, after, hrows, hbefore⟩ := List.find?_eq_some_iff_append.mp hq
  obtain ⟨hqr, hqq⟩ := of_decide_eq_true hqr
  have hordered := h.ordered
  rw [hrows] at hx hordered
  rcases List.mem_append.mp hx with hx | hx
  · exact absurd (hbefore x hx) (by simpa using hr)
  · rcases List.mem_cons.mp hx with rfl | hx
    · exact absurd rfl hne
    · have hbefore := (List.pairwise_cons.mp (List.pairwise_append.mp hordered).2.1).1 x hx
      exact hbefore hqq hr.2 (hqr.trans hr.1.symm)

theorem mem_of_queued (hx : x ∈ T.rows) (hend : Ends x l) (hq : q ∈ (T.saveLease l).rows)
    (hqueued : q.status = .queued) : q ∈ T.rows := by
  rcases (mem_saveLease hx hend.leaseId_eq).mp hq with rfl | ⟨hq, -⟩
  · exact absurd hqueued hend.ne_queued
  · exact hq

theorem queued_mem_saveLease (hx : x ∈ T.rows) (hgranted : x.status = .granted) (hend : Ends x l)
    (hq : q ∈ T.rows) (hqueued : q.status = .queued) : q ∈ (T.saveLease l).rows := by
  refine (mem_saveLease hx hend.leaseId_eq).mpr (Or.inr ⟨hq, fun hid => ?_⟩)
  rw [Rows.eq_of_key_eq T.nodup hq hx hid, hgranted] at hqueued
  exact absurd hqueued (by decide)

/-! ### One hand-over -/

theorem selectQueued_eq_longestWaiting {n : ℕ} (h : Inv o s.table n) (hx : x ∈ s.table.rows)
    (hgranted : x.status = .granted) (hend : Ends x l) (hclear : Clear (l, s))
    (hteam : SameTeam (l, s)) (hq : longestWaiting s.table l.resourceId = some q) :
    selectQueued o l.resourceId l.team (s.table.saveLease l) = some q := by
  obtain ⟨hmem, hresource, hqueued⟩ := longestWaiting_eq_some hq
  have hmem' := queued_mem_saveLease hx hgranted hend hmem hqueued
  have hlisted : Listed l.resourceId .queued l.team q :=
    ⟨Or.inr hresource, hqueued, hteam q hq⟩
  cases hs : selectQueued o l.resourceId l.team (s.table.saveLease l) with
  | none => exact absurd hlisted (selectQueued_eq_none hs q hmem')
  | some z =>
    obtain ⟨hz, hzqueued, hzresource⟩ := selected_spec hx hend hclear hs
    have hle := (selectQueued_eq_some hs).2.2 q hmem' hlisted
    by_cases hne : z = q
    · rw [hne]
    · have hlt := position_longestWaiting_lt h hq (mem_of_queued hx hend hz hzqueued)
        ⟨hzresource.trans hend.resourceId_eq.symm, hzqueued⟩ hne
      omega

theorem handsOver {n : ℕ} {p : Lease × State} (h : Proper o n p) (hclear : Clear p)
    (hteam : SameTeam p) : HandsOver o p := by
  obtain ⟨hinv, x, hx, hgranted, hend⟩ := h
  intro q hq
  have hselected := selectQueued_eq_longestWaiting hinv hx hgranted hend hclear hteam hq
  rcases handOver_cases (o := o) p.1 p.2 with ⟨hnone, -⟩ | ⟨z, now, hz, hT⟩
  · exact absurd (hnone.symm.trans hselected) (Option.some_ne_none q).symm
  · obtain rfl := Option.some.inj (hz.symm.trans hselected)
    exact ⟨now, hT⟩

theorem queued_of_handOver {r : Str} (hx : x ∈ s.table.rows) (hend : Ends x l)
    (h : ∃ q ∈ (handOver o l s).2.table.rows, Is r .queued q) :
    ∃ q ∈ s.table.rows, Is r .queued q := by
  obtain ⟨y, hy, hr, hqueued⟩ := h
  refine ⟨y, mem_of_queued hx hend ?_ hqueued, hr, hqueued⟩
  rcases handOver_cases (o := o) l s with ⟨-, hT⟩ | ⟨z, now, hz, hT⟩
  · rwa [hT] at hy
  · rw [hT] at hy
    have hmem := (selectQueued_eq_some hz).1
    rcases (mem_saveLease (l := z.promoted now) hmem rfl).mp hy with rfl | ⟨hy, -⟩
    · exact absurd hqueued (by simp [Lease.set, Lease.promoted])
    · exact hy

theorem WorkConserving.handOver {n : ℕ} {p : Lease × State} (hs : WorkConserving o p.2.table)
    (h : Proper o n p) (hclear : Clear p) (hteam : SameTeam p) :
    WorkConserving o (handOver o p.1 p.2).2.table := by
  have hto := handsOver h hclear hteam
  obtain ⟨hinv, x, hx, hgranted, hend⟩ := h
  intro r resource hr hkind hqueue
  have hqueued := queued_of_handOver hx hend hqueue
  have hfull := hs r resource hr hkind hqueued
  have hended := countActive_ended hx hgranted hend r
  by_cases hrx : r = x.resourceId
  · -- the slot that is freed is taken by the head of the queue
    obtain ⟨q, hq⟩ := exists_longestWaiting (hrx ▸ hqueued)
    rw [← hend.resourceId_eq] at hq
    obtain ⟨now, hT⟩ := hto q hq
    obtain ⟨hmem, hqr, hqq⟩ := longestWaiting_eq_some hq
    rw [hT, countActive_promoted (queued_mem_saveLease hx hgranted hend hmem hqq) hqq,
      hqr, hend.resourceId_eq]
    omega
  · rw [if_neg hrx] at hended
    rcases handOver_cases (o := o) p.1 p.2 with ⟨-, hT⟩ | ⟨z, now, hz, hT⟩
    · rw [hT]
      omega
    · obtain ⟨hmem, hzq, hzr⟩ := selected_spec hx hend hclear hz
      rw [hT, countActive_promoted hmem hzq, if_neg (hzr ▸ hrx)]
      omega

/-! ### Runs -/

theorem workConserving_step (h : Inv o s.table s.draws) (hbounded : Bounded o s.table)
    (hs : WorkConserving o s.table) {op : Op}
    (hok : ∀ p ∈ handOvers o op s, Clear p ∧ SameTeam p) :
    WorkConserving o (step o op s).2.table := by
  refine step_rule (P := WorkConserving o) op (fun l resource hl _ => ?_)
    (fun x hx l hqueued hend => ?_) (fun p hp hconserving => ?_) hs
  · have hnew := hl.leaseId_eq ▸ newId_notMem h
    rintro r resource' hr hkind ⟨q, hq, hqr, hqq⟩
    rw [rows_saveLease_of_notMem hnew] at hq
    rw [countActive_insert hnew]
    rcases mem_snoc.mp hq with hq | rfl
    · have hfull := hs r resource' hr hkind ⟨q, hq, hqr, hqq⟩
      split_ifs with his
      · -- a lease is not granted while the resource has a queue
        obtain ⟨rfl, hgranted⟩ := his
        obtain rfl := Option.some.inj (hl.resource_eq.symm.trans hr)
        rcases hl.cases with ⟨-, hadvisory | hfree⟩ | ⟨hqueued, -⟩
        · exact absurd hadvisory hkind
        · omega
        · exact absurd (hqueued.symm.trans hgranted) (by decide)
      · exact hfull
    · obtain rfl := Option.some.inj (hl.resource_eq.symm.trans (hqr ▸ hr))
      have hnot : ¬ Is r .granted q := fun his => absurd (hqq.symm.trans his.2) (by decide)
      rw [if_neg hnot, Nat.add_zero]
      rcases hl.cases with ⟨hgranted, -⟩ | ⟨-, -, hcapacity, -⟩
      · exact absurd (hqq.symm.trans hgranted) (by decide)
      · exact le_antisymm (hbounded r resource hr hkind) (hqr ▸ hcapacity)
  · rintro r resource hr hkind ⟨q, hq, hqr, hqq⟩
    have hfull := hs r resource hr hkind ⟨q, mem_of_queued hx hend hq hqq, hqr, hqq⟩
    have hcount := countActive_saveLease hx hend.leaseId_eq r
    have hxr : ¬ Is r .granted x := fun his => absurd (hqueued.symm.trans his.2) (by decide)
    rw [if_neg hxr, if_neg (hend.not_granted_set r)] at hcount
    omega
  · obtain ⟨hclear, hteam⟩ := hok p hp
    exact hconserving.handOver (proper_handOvers h op p hp) hclear hteam

/-- Along a run: a resource with a queue never has a free slot, and a slot that is released or
expires goes to the longest-waiting queued lease of the resource. -/
structure Conserved (o : Outside) (ops : List Op) : Prop where
  full : ∀ before after, ops = before ++ after → WorkConserving o (reached o before).table
  handed : ∀ before op after, ops = before ++ op :: after →
    ∀ p ∈ handOvers o op (reached o before), HandsOver o p

/-- In every run in which each slot that is handed over finds the longest-waiting lease in the team
that frees it (and, for the resource with the empty id, no queue of another resource), no slot is
free while a lease is queued, and slots go to the longest-waiting lease. -/
theorem slots_conserved (o : Outside) (ops : List Op)
    (h : Machine.Along (step o) (fun op s => ∀ p ∈ handOvers o op s, Clear p ∧ SameTeam p) ops
      State.init) : Conserved o ops where
  full before after hops := by
    rw [hops, Machine.along_append] at h
    have hbounded : Bounded o State.init.table := fun _ _ _ _ => Nat.zero_le _
    have hconserving : WorkConserving o State.init.table :=
      fun _ _ _ _ hq => absurd hq.choose_spec.1 List.not_mem_nil
    have hall : Inv o (reached o before).table (reached o before).draws ∧
        Bounded o (reached o before).table ∧ WorkConserving o (reached o before).table :=
      Machine.run_invariant
        (I := fun t : State =>
          Inv o t.table t.draws ∧ Bounded o t.table ∧ WorkConserving o t.table)
        (fun op t ht hok => ⟨inv_step ht.1 op, bounded_step ht.1 ht.2.1 fun p hp => (hok p hp).1,
          workConserving_step ht.1 ht.2.1 ht.2.2 hok⟩) before
        ⟨inv_init, hbounded, hconserving⟩ h.1
    exact hall.2.2
  handed before op after hops p hp := by
    rw [hops, Machine.along_append] at h
    obtain ⟨hclear, hteam⟩ := h.2.1 p hp
    exact handsOver (proper_handOvers (inv_reached before) op p hp) hclear hteam

/-! ### Two teams at one slot -/

theorem slots_conserved_contended : Conserved oneSlot contended :=
  slots_conserved oneSlot contended (by decide)

/-- Two applications of different teams for one slot, and the release of the first lease. -/
def twoTeams : List Op := [applyFor gpu crew, applyFor gpu [], releaseNth 0]

/-- The slot stays free, and the lease of the other team stays queued. -/
theorem not_slots_conserved : ¬ Conserved oneSlot twoTeams := by
  intro h
  have hfull := h.full twoTeams [] rfl gpu ⟨.exclusive, 1⟩ rfl (by decide) (by decide)
  exact absurd hfull (by decide)

end AgentStudio.Leases

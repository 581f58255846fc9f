import AgentStudio.Leases.Slots

/-!
# What is stored of a lease

The lease manager writes leases as dictionaries, and `save_lease` puts them into the table: a new
row gets all columns, an existing one only those that the upsert sets. `saves` lists the leases that
an operation writes (`table_step`), and `ReadsBack` says that `get_lease` reads each of them back as
it was written.

Among the columns that the upsert leaves out, only `granted_at` is ever written with another value,
when a queued lease is promoted. So an operation reads back if and only if each lease that it
promotes has been queued at the very time of its promotion (`Punctual`, `readsBack_iff`), and then a
granted lease expires when its time to live has passed since it was granted (`OnTime`).
-/

namespace AgentStudio.Leases

open PyText Table

variable (o : Outside)

/-! ### What is written -/

/-- The lease that `lease_apply` writes. -/
def appliedLease (resource : Resource) (resourceId taskId ownerRole ownerAgent : Str) (ttl : ℤ)
    (team : Str) (s : State) : Lease :=
  let now := o.clock s.reads
  let lease : Lease :=
    { leaseId := newId o s, resourceId, taskId, ownerRole := ownerRole
      ownerAgent := ownerAgent, status := .granted, position := 0, ttl, grantedAt := now
      expiresAt := 0, releasedAt := 0, reason := [], team }
  if resource.kind = .advisory then { lease with ttl := 0 }
  else if (s.table.countActive resourceId : ℤ) < resource.slots then
    { lease with expiresAt := expiry now ttl }
  else
    { lease with
      status := .queued
      position := s.table.maxQueuedPosition resourceId + 1
      reason := "queued_wait_slot" }

/-- The lease that a hand-over promotes, before its promotion. -/
def successor (p : Lease × State) : Option Lease :=
  selectQueued o p.1.resourceId p.1.team (p.2.table.saveLease p.1)

/-- The leases that a hand-over writes: the one that ends, and the one that is promoted. -/
def handOverSaves (p : Lease × State) : List Lease :=
  p.1 :: ((successor o p).map (Lease.promoted (o.clock p.2.reads))).toList

/-- The leases that an operation writes, in order. -/
def saves : Op → State → List Lease
  | .leaseApply resourceId taskId ownerRole ownerAgent ttl team, s =>
    ((o.resource resourceId).map fun resource =>
      appliedLease o resource resourceId taskId ownerRole ownerAgent ttl team s).toList
  | .leaseRelease leaseId reason, s =>
    match s.table.getLease leaseId with
    | none => []
    | some l =>
      if l.status.Terminal then []
      else if l.status = .granted then
        (handOvers o (.leaseRelease leaseId reason) s).flatMap (handOverSaves o)
      else [l.released (o.clock s.reads) reason]
  | .expirySweep now, s => (handOvers o (.expirySweep now) s).flatMap (handOverSaves o)

def Table.saveAll (T : Table) (ls : List Lease) : Table := ls.foldl Table.saveLease T

variable {o} {T : Table} {s : State} {x l : Lease}

theorem saveAll_append (T : Table) (ls ls' : List Lease) :
    T.saveAll (ls ++ ls') = (T.saveAll ls).saveAll ls' :=
  List.foldl_append

theorem table_handOver (l : Lease) (s : State) :
    (handOver o l s).2.table = s.table.saveAll (handOverSaves o (l, s)) := by
  unfold handOver promoteQueued handOverSaves successor
  cases selectQueued o l.resourceId l.team (s.table.saveLease l) with
  | none => rfl
  | some q => rfl

theorem table_sweep (now : ℤ) (ls : List Lease) (s : State) :
    (sweep o now ls s).2.table =
      s.table.saveAll ((sweepHandOvers o now ls s).flatMap (handOverSaves o)) := by
  induction ls generalizing s with
  | nil => rfl
  | cons l ls ih =>
    rw [sweepHandOvers, List.flatMap_cons, saveAll_append, ← table_handOver, ← ih]
    rfl

/-- **What is written.** The table after an operation is the one before it with the leases that the
operation saves. -/
theorem table_step (op : Op) (s : State) :
    (step o op s).2.table = s.table.saveAll (saves o op s) := by
  cases op with
  | leaseApply resourceId taskId ownerRole ownerAgent ttl team =>
    rw [step, leaseApply, saves]
    cases o.resource resourceId with
    | none => rfl
    | some resource =>
      simp only [Option.map_some, Option.toList_some, appliedLease]
      split_ifs <;> rfl
  | leaseRelease leaseId reason =>
    rw [step, leaseRelease, saves, handOvers]
    cases s.table.getLease leaseId with
    | none => rfl
    | some l =>
      dsimp only
      split_ifs
      · rfl
      · rw [List.flatMap_singleton]
        exact table_handOver _ { s with reads := s.reads + 1 }
      · rfl
  | expirySweep now =>
    rw [step, expirySweep, saves, handOvers]
    dsimp only
    rw [table_sweep]
    split_ifs <;> rfl

/-! ### Reading back -/

/-- Every lease of a list is read back as it is saved. -/
def ReadsBack (T : Table) : List Lease → Prop
  | [] => True
  | l :: ls => (T.saveLease l).getLease l.leaseId = some l ∧ ReadsBack (T.saveLease l) ls

theorem readsBack_append {ls ls' : List Lease} :
    ReadsBack T (ls ++ ls') ↔ ReadsBack T ls ∧ ReadsBack (T.saveAll ls) ls' := by
  induction ls generalizing T with
  | nil => exact (and_iff_right trivial).symm
  | cons l ls ih => exact (and_congr_right fun _ => ih).trans and_assoc.symm

theorem getLease_iff {leaseId : Str} :
    T.getLease leaseId = some x ↔ x ∈ T.rows ∧ x.leaseId = leaseId := by
  refine ⟨getLease_eq_some, ?_⟩
  rintro ⟨hx, rfl⟩
  cases hfound : T.getLease x.leaseId with
  | none =>
    have hnone := List.find?_eq_none.mp hfound x hx
    simp at hnone
  | some y =>
    obtain ⟨hy, hid⟩ := getLease_eq_some hfound
    rw [Rows.eq_of_key_eq T.nodup hy hx hid]

/-- A lease with a row is read back if the columns that the upsert leaves out are those of the
row. -/
theorem getLease_saveLease_iff (hx : x ∈ T.rows) (hid : l.leaseId = x.leaseId) :
    (T.saveLease l).getLease l.leaseId = some l ↔ l.set x = l := by
  have hrow : (T.saveLease l).getLease l.leaseId = some (l.set x) :=
    getLease_iff.mpr ⟨(mem_saveLease hx hid).mpr (.inl rfl), hid.symm⟩
  rw [hrow, Option.some_inj]

theorem getLease_insert (h : l.leaseId ∉ T.rows.map Lease.leaseId) :
    (T.saveLease l).getLease l.leaseId = some l := by
  refine getLease_iff.mpr ⟨?_, rfl⟩
  rw [rows_saveLease_of_notMem h]
  exact List.mem_append_right _ (List.mem_singleton_self l)

variable (o) in
/-- The lease that a hand-over promotes has been queued at the time of its promotion. -/
def Punctual (p : Lease × State) : Prop :=
  ∀ q, successor o p = some q → q.grantedAt = o.clock p.2.reads

theorem readsBack_handOver (hx : x ∈ s.table.rows) (hid : l.leaseId = x.leaseId)
    (hset : l.set x = l) : ReadsBack s.table (handOverSaves o (l, s)) ↔ Punctual o (l, s) := by
  have hended := (getLease_saveLease_iff hx hid).mpr hset
  rw [handOverSaves, ReadsBack, and_iff_right hended, Punctual]
  cases hq : successor o (l, s) with
  | none => simp [ReadsBack]
  | some q =>
    obtain ⟨hmem, -⟩ := selectQueued_eq_some hq
    have hset : (q.promoted (o.clock s.reads)).set q = q.promoted (o.clock s.reads) ↔
        q.grantedAt = o.clock s.reads := by
      constructor
      · exact fun h => congrArg Lease.grantedAt h
      · intro h
        rw [Lease.promoted, Lease.set, ← h]
    simp only [Option.map_some, Option.toList_some, ReadsBack, and_true, Option.some.injEq,
      forall_eq']
    exact (getLease_saveLease_iff (l := q.promoted (o.clock s.reads)) hmem rfl).trans hset

theorem readsBack_sweep {now : ℤ} {ls : List Lease}
    (hls : ∀ l ∈ ls, l ∈ s.table.rows ∧ l.status = .granted)
    (hnodup : (ls.map Lease.leaseId).Nodup) :
    ReadsBack s.table ((sweepHandOvers o now ls s).flatMap (handOverSaves o)) ↔
      ∀ p ∈ sweepHandOvers o now ls s, Punctual o p := by
  induction ls generalizing s with
  | nil => simp [sweepHandOvers, ReadsBack]
  | cons l ls ih =>
    obtain ⟨hl, hgranted⟩ := hls l List.mem_cons_self
    obtain ⟨hnew, hnodup⟩ := List.nodup_cons.mp hnodup
    have hrest : ∀ y ∈ ls,
        y ∈ (handOver o (l.expired now) s).2.table.rows ∧ y.status = .granted := by
      intro y hy
      obtain ⟨hmem, hstatus⟩ := hls y (List.mem_cons_of_mem _ hy)
      have hne : y.leaseId ≠ l.leaseId := fun heq => hnew (heq ▸ List.mem_map_of_mem hy)
      exact ⟨mem_handOver hl (ends_expired hgranted) hmem hne (by rw [hstatus]; decide), hstatus⟩
    have hfirst : ReadsBack s.table (handOverSaves o (l.expired now, s)) ↔
        Punctual o (l.expired now, s) := readsBack_handOver hl rfl rfl
    rw [sweepHandOvers, List.flatMap_cons, readsBack_append, hfirst, ← table_handOver,
      ih hrest hnodup, List.forall_mem_cons]

/-- **Reading back.** All leases that an operation saves are read back as they were written if and
only if its hand-overs are punctual. -/
theorem readsBack_saves (h : Inv o s.table s.draws) (op : Op) :
    ReadsBack s.table (saves o op s) ↔ ∀ p ∈ handOvers o op s, Punctual o p := by
  cases op with
  | leaseApply resourceId taskId ownerRole ownerAgent ttl team =>
    have hnone : ∀ p ∈ handOvers o (.leaseApply resourceId taskId ownerRole ownerAgent ttl team) s,
        Punctual o p := List.forall_mem_nil _
    refine iff_of_true ?_ hnone
    rw [saves]
    cases o.resource resourceId with
    | none => trivial
    | some resource =>
      have hid : ∀ l,
          l = appliedLease o resource resourceId taskId ownerRole ownerAgent ttl team s →
            l.leaseId = newId o s := by
        rintro l rfl
        rw [appliedLease]
        dsimp only
        split_ifs <;> rfl
      refine ⟨getLease_insert ?_, trivial⟩
      rw [hid _ rfl]
      exact newId_notMem h
  | leaseRelease leaseId reason =>
    rw [saves, handOvers]
    cases hl : s.table.getLease leaseId with
    | none => exact iff_of_true trivial (List.forall_mem_nil _)
    | some l =>
      obtain ⟨hmem, -⟩ := getLease_eq_some hl
      dsimp only
      by_cases hterminal : l.status.Terminal
      · have hgranted : l.status ≠ .granted := by
          rcases hterminal with h | h <;> rw [h] <;> decide
        rw [if_pos hterminal, if_neg hgranted]
        exact iff_of_true trivial (List.forall_mem_nil _)
      · rw [if_neg hterminal]
        split_ifs with hgranted
        · rw [List.flatMap_singleton, List.forall_mem_singleton]
          exact readsBack_handOver (s := { s with reads := s.reads + 1 }) hmem rfl rfl
        · refine iff_of_true ⟨?_, trivial⟩ (List.forall_mem_nil _)
          exact (getLease_saveLease_iff (l := l.released (o.clock s.reads) reason) hmem rfl).mpr rfl
  | expirySweep now =>
    simp only [saves, handOvers]
    split_ifs
    · exact readsBack_sweep (s := { s with reads := s.reads + 1 })
        (fun l => granted_of_mem_listExpired) (nodup_listExpired _ _)
    · exact readsBack_sweep (fun l => granted_of_mem_listExpired) (nodup_listExpired _ _)

/-! ### Expiry -/

/-- A granted lease with a time to live expires when this has passed since it was granted. -/
def Lease.Timed (l : Lease) : Prop :=
  l.status = .granted → 0 < l.ttl → l.expiresAt - l.grantedAt = l.ttl

def OnTime (T : Table) : Prop := ∀ r ∈ T.rows, r.Timed

theorem timed_of_not_granted (h : l.status ≠ .granted) : l.Timed :=
  fun hgranted => absurd hgranted h

theorem timed_expiry (hgranted : l.expiresAt = expiry l.grantedAt l.ttl) : l.Timed := by
  intro _ hpos
  rw [hgranted, expiry, if_pos hpos]
  omega

theorem timed_of_mem_handOverSaves {p : Lease × State} (hended : p.1.status.Terminal)
    (h : l ∈ handOverSaves o p) : l.Timed := by
  rcases List.mem_cons.mp h with rfl | h
  · refine timed_of_not_granted ?_
    rcases hended with h | h <;> rw [h] <;> decide
  · obtain ⟨q, -, rfl⟩ := Option.map_eq_some_iff.mp (Option.mem_toList.mp h)
    exact timed_expiry rfl

theorem timed_of_mem_saves (hinv : Inv o s.table s.draws) {op : Op} (h : l ∈ saves o op s) :
    l.Timed := by
  have hhand (op : Op) (h : l ∈ (handOvers o op s).flatMap (handOverSaves o)) : l.Timed := by
    obtain ⟨p, hp, hl⟩ := List.mem_flatMap.mp h
    obtain ⟨-, x, -, -, hend⟩ := proper_handOvers hinv op p hp
    exact timed_of_mem_handOverSaves hend.terminal hl
  cases op with
  | leaseApply resourceId taskId ownerRole ownerAgent ttl team =>
    obtain ⟨resource, -, rfl⟩ := Option.map_eq_some_iff.mp (Option.mem_toList.mp h)
    rw [appliedLease]
    dsimp only
    split_ifs
    · exact fun _ hpos => absurd hpos (lt_irrefl 0)
    · exact timed_expiry rfl
    · exact timed_of_not_granted Status.noConfusion
  | leaseRelease leaseId reason =>
    rw [saves] at h
    cases hl : s.table.getLease leaseId with
    | none =>
      rw [hl] at h
      exact absurd h List.not_mem_nil
    | some r =>
      rw [hl] at h
      dsimp only at h
      split_ifs at h
      · exact absurd h List.not_mem_nil
      · exact hhand _ h
      · rw [List.mem_singleton.mp h]
        exact timed_of_not_granted Status.noConfusion
  | expirySweep now => exact hhand _ h

theorem OnTime.saveAll {ls : List Lease} (h : OnTime T) (hread : ReadsBack T ls)
    (hls : ∀ l ∈ ls, l.Timed) : OnTime (T.saveAll ls) := by
  induction ls generalizing T with
  | nil => exact h
  | cons l ls ih =>
    refine ih (fun r hr => ?_) hread.2 fun x hx => hls x (List.mem_cons_of_mem l hx)
    by_cases hid : r.leaseId = l.leaseId
    · have hget := getLease_iff.mpr ⟨hr, hid⟩
      obtain rfl := Option.some.inj (hread.1.symm.trans hget)
      exact hls l List.mem_cons_self
    · refine h r ?_
      by_cases hmem : l.leaseId ∈ T.rows.map Lease.leaseId
      · obtain ⟨x, hx, hxid⟩ := List.mem_map.mp hmem
        rcases (mem_saveLease hx hxid.symm).mp hr with rfl | ⟨hr, -⟩
        · exact absurd hxid hid
        · exact hr
      · rw [rows_saveLease_of_notMem hmem, List.mem_append, List.mem_singleton] at hr
        exact hr.resolve_right fun h => hid (congrArg Lease.leaseId h)

/-! ### Runs -/

variable (o)

/-- What an operation writes is read back as it was written, and all stored leases are timed. -/
structure Coherent (op : Op) (s : State) : Prop where
  readsBack : ReadsBack s.table (saves o op s)
  onTime : OnTime (step o op s).2.table

/-- An operation promotes a lease only at the time at which it has been queued. -/
def PromotesPunctually (op : Op) (s : State) : Prop := ∀ p ∈ handOvers o op s, Punctual o p

/-- Two applications with a time to live for one slot, and the release of the first lease. -/
def waiting : List Op :=
  [.leaseApply gpu [] [] [] 60 crew, .leaseApply gpu [] [] [] 60 crew, releaseNth 0]

end AgentStudio.Leases

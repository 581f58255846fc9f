import AgentStudio.Library.Text
import AgentStudio.Library.Machine
import AgentStudio.Library.Rows
import Mathlib.Data.List.Pairwise
import Mathlib.Data.List.Sort

/-!
# Resource leases

The lease manager of `agent_runtime/resource_lease.py` over the table `resource_leases` of
`agent_runtime/persistence.py`. A lease of a resource is granted while the resource has a free
slot, else it is queued; a slot that is released or expires goes to a queued lease
(`promoteQueued`). `Op` collects the operations, and `step` runs one.

`Table` keeps the primary key as a field. Rows stand in the order of their row ids, the order
in which the leases were applied for. `Outside` is what the manager gets from outside: the
registered resources, the readings of the clock, the ids that are drawn, and the order in which
the database scans rows when a `SELECT` leaves it open. Times are in microseconds.
-/

namespace AgentStudio.Leases

open PyText

/-! ### Resources and leases -/

inductive Kind where
  | exclusive
  | sharedSlot
  | advisory
  | other (name : Str)
deriving DecidableEq

/-- A row of the table `resource_registry`, as far as a lease depends on it. -/
structure Resource where
  kind : Kind
  slots : ℤ

def Resource.capacity (r : Resource) : ℕ := r.slots.toNat

inductive Status where
  | granted
  | queued
  | released
  | expired
deriving DecidableEq

def Status.Terminal (s : Status) : Prop := s = .released ∨ s = .expired

instance : DecidablePred Status.Terminal := fun _ => inferInstanceAs (Decidable (_ ∨ _))

/-- A row of the table `resource_leases`. -/
structure Lease where
  leaseId : Str
  resourceId : Str
  taskId : Str
  ownerRole : Str
  ownerAgent : Str
  status : Status
  position : ℕ
  ttl : ℤ
  grantedAt : ℤ
  expiresAt : ℤ
  releasedAt : ℤ
  reason : Str
  team : Str
deriving DecidableEq

/-- The columns of an existing row that the upsert of a lease sets. -/
def Lease.set (l r : Lease) : Lease :=
  { r with
    status := l.status
    position := l.position
    expiresAt := l.expiresAt
    releasedAt := l.releasedAt
    reason := l.reason }

/-- The order of `ORDER BY granted_at`. -/
def ByGrantedAt (a b : Lease) : Prop := a.grantedAt ≤ b.grantedAt

def ByPosition (a b : Lease) : Prop := a.position ≤ b.position

instance : DecidableRel ByGrantedAt := fun _ _ => inferInstanceAs (Decidable (_ ≤ _))

instance : DecidableRel ByPosition := fun _ _ => inferInstanceAs (Decidable (_ ≤ _))

instance : Std.Total ByPosition := ⟨fun a b => Nat.le_total a.position b.position⟩

instance : IsTrans Lease ByPosition := ⟨fun _ _ _ => Nat.le_trans⟩

/-! ### The table -/

/-- The table `resource_leases`: lease ids are distinct. -/
structure Table where
  rows : List Lease
  nodup : (rows.map Lease.leaseId).Nodup

/-- What the lease manager gets from outside: `get_resource`, the readings of `time.time()`, the
ids of `uuid4`, which are never drawn twice, and the order of a scan. -/
structure Outside where
  resource : Str → Option Resource
  clock : ℕ → ℤ
  draw : ℕ → Str
  scan : List Lease → List Lease
  draw_injective : Function.Injective draw
  scan_perm : ∀ rows, (scan rows).Perm rows

namespace Table

variable (T : Table)

def empty : Table := ⟨[], List.nodup_nil⟩

def getLease (leaseId : Str) : Option Lease := T.rows.find? (·.leaseId = leaseId)

/-- `save_lease`: a new lease is inserted, an existing one keeps the columns that the upsert does
not set. -/
def saveLease (l : Lease) : Table :=
  if h : l.leaseId ∈ T.rows.map Lease.leaseId then
    { rows := T.rows.map (Rows.update Lease.leaseId l.leaseId (Lease.set l))
      nodup := by
        rw [Rows.map_key_update (f := l.set) _ fun _ => rfl]
        exact T.nodup }
  else
    { rows := T.rows ++ [l]
      nodup := by
        rw [List.map_append]
        exact T.nodup.append (List.nodup_singleton _) (by simpa using h) }

def Is (resourceId : Str) (status : Status) (r : Lease) : Prop :=
  r.resourceId = resourceId ∧ r.status = status

instance (resourceId : Str) (status : Status) : DecidablePred (Is resourceId status) :=
  fun _ => inferInstanceAs (Decidable (_ ∧ _))

/-- `count_active_leases`. -/
def countActive (resourceId : Str) : ℕ := T.rows.countP (Is resourceId .granted)

/-- `max_queued_position`. -/
def maxQueuedPosition (resourceId : Str) : ℕ :=
  ((T.rows.filter (Is resourceId .queued)).map Lease.position).foldr max 0

/-- The filters of `list_leases`: an empty resource id or team does not filter. -/
def Listed (resourceId : Str) (status : Status) (team : Str) (r : Lease) : Prop :=
  (resourceId = [] ∨ r.resourceId = resourceId) ∧ r.status = status ∧ (team = [] ∨ r.team = team)

instance (resourceId : Str) (status : Status) (team : Str) :
    DecidablePred (Listed resourceId status team) :=
  fun _ => inferInstanceAs (Decidable (_ ∧ _))

/-- `list_leases`: `ORDER BY granted_at`. -/
def listLeases (o : Outside) (resourceId : Str) (status : Status) (team : Str) : List Lease :=
  (o.scan (T.rows.filter (Listed resourceId status team))).insertionSort ByGrantedAt

/-- A granted lease with an expiry that has passed. -/
def ExpiredAt (now : ℤ) (r : Lease) : Prop :=
  r.status = .granted ∧ 0 < r.expiresAt ∧ r.expiresAt ≤ now

instance (now : ℤ) : DecidablePred (ExpiredAt now) := fun _ => inferInstanceAs (Decidable (_ ∧ _))

/-- `list_expired_leases`. -/
def listExpiredLeases (o : Outside) (now : ℤ) : List Lease :=
  o.scan (T.rows.filter (ExpiredAt now))

end Table

/-! ### The manager -/

/-- The manager over its table, with the readings of the clock and the ids that it has made use
of. -/
structure State where
  table : Table
  reads : ℕ
  draws : ℕ

def State.init : State := ⟨Table.empty, 0, 0⟩

inductive Reply where
  | granted (leaseId : Str) (position : ℕ) (expiresAt : Option ℤ)
  | queued (leaseId : Str) (position : ℕ)
  | released (leaseId promotedLease : Str)
  | alreadyTerminal (status : Status)
  | error (text : Str)
  | swept (expired : List (Lease × Str))

inductive Op where
  | leaseApply (resourceId taskId ownerRole ownerAgent : Str) (ttl : ℤ) (team : Str)
  | leaseRelease (leaseId reason : Str)
  | expirySweep (now : Option ℤ)

variable (o : Outside)

def expiry (now ttl : ℤ) : ℤ := if 0 < ttl then now + ttl else 0

/-- `"lease_"` and the id that is drawn. -/
def newId (s : State) : Str := "lease_" ++ o.draw s.draws

/-- `lease_apply`. -/
def leaseApply (resourceId taskId ownerRole ownerAgent : Str) (ttl : ℤ) (team : Str) (s : State) :
    Reply × State :=
  match o.resource resourceId with
  | none => (.error ("unknown resource: " ++ resourceId), s)
  | some resource =>
    let now := o.clock s.reads
    let lease : Lease :=
      { leaseId := newId o s, resourceId, taskId, ownerRole := ownerRole
        ownerAgent := ownerAgent, status := .granted, position := 0, ttl, grantedAt := now
        expiresAt := 0, releasedAt := 0, reason := [], team }
    let save (l : Lease) : State := ⟨s.table.saveLease l, s.reads + 1, s.draws + 1⟩
    if resource.kind = .advisory then (.granted lease.leaseId 0 none, save { lease with ttl := 0 })
    else if (s.table.countActive resourceId : ℤ) < resource.slots then
      (.granted lease.leaseId 0 (some (expiry now ttl)),
        save { lease with expiresAt := expiry now ttl })
    else
      let position := s.table.maxQueuedPosition resourceId + 1
      (.queued lease.leaseId position,
        save { lease with
          status := .queued
          position := position
          reason := "queued_wait_slot" })

/-- The lease that `_promote_queued` selects: the first by position among the queued leases that
it lists. -/
def selectQueued (resourceId team : Str) (T : Table) : Option Lease :=
  ((T.listLeases o resourceId .queued team).insertionSort ByPosition).head?

def Lease.promoted (now : ℤ) (l : Lease) : Lease :=
  { l with
    status := .granted
    position := 0
    grantedAt := now
    expiresAt := expiry now l.ttl
    reason := [] }

/-- `_promote_queued`. -/
def promoteQueued (resourceId team : Str) (s : State) : Option Lease × State :=
  match selectQueued o resourceId team s.table with
  | none => (none, s)
  | some l =>
    (some (l.promoted (o.clock s.reads)),
      ⟨s.table.saveLease (l.promoted (o.clock s.reads)), s.reads + 1, s.draws⟩)

/-- A lease is saved as ended, and the slot that it frees goes to a queued lease. -/
def handOver (ended : Lease) (s : State) : Option Lease × State :=
  promoteQueued o ended.resourceId ended.team { s with table := s.table.saveLease ended }

def promotedId (l : Option Lease) : Str := (l.map Lease.leaseId).getD []

def Lease.released (now : ℤ) (reason : Str) (l : Lease) : Lease :=
  { l with status := .released, releasedAt := now, reason }

/-- `lease_release`. -/
def leaseRelease (leaseId reason : Str) (s : State) : Reply × State :=
  match s.table.getLease leaseId with
  | none => (.error "lease not found", s)
  | some l =>
    if l.status.Terminal then (.alreadyTerminal l.status, s)
    else
      let ended := l.released (o.clock s.reads) reason
      let s := { s with reads := s.reads + 1 }
      if l.status = .granted then
        let (promoted, s) := handOver o ended s
        (.released leaseId (promotedId promoted), s)
      else (.released leaseId [], { s with table := s.table.saveLease ended })

def Lease.expired (now : ℤ) (l : Lease) : Lease :=
  { l with status := .expired, releasedAt := now, reason := "ttl_expired" }

/-- The loop of `expiry_sweep`. -/
def sweep (now : ℤ) : List Lease → State → List (Lease × Str) × State
  | [], s => ([], s)
  | l :: ls, s =>
    let (promoted, s) := handOver o (l.expired now) s
    let (swept, s) := sweep now ls s
    ((l.expired now, promotedId promoted) :: swept, s)

/-- `expiry_sweep`. -/
def expirySweep (now : Option ℤ) (s : State) : Reply × State :=
  let time := now.getD (o.clock s.reads)
  let s := if now.isNone then { s with reads := s.reads + 1 } else s
  let (swept, s) := sweep o time (s.table.listExpiredLeases o time) s
  (.swept swept, s)

def step : Op → State → Reply × State
  | .leaseApply resourceId taskId ownerRole ownerAgent ttl team =>
    leaseApply o resourceId taskId ownerRole ownerAgent ttl team
  | .leaseRelease leaseId reason => leaseRelease o leaseId reason
  | .expirySweep now => expirySweep o now

/-- The state that some operations reach in a new database. -/
def reached (ops : List Op) : State := (Machine.run (step o) ops State.init).2

/-! ### Hand-overs -/

/-- The leases that the loop of `expiry_sweep` ends, each with the state before its hand-over. -/
def sweepHandOvers (now : ℤ) : List Lease → State → List (Lease × State)
  | [], _ => []
  | l :: ls, s => (l.expired now, s) :: sweepHandOvers now ls (handOver o (l.expired now) s).2

/-- The granted leases that an operation ends, each with the state before its hand-over. -/
def handOvers : Op → State → List (Lease × State)
  | .leaseApply .., _ => []
  | .leaseRelease leaseId reason, s =>
    match s.table.getLease leaseId with
    | none => []
    | some l =>
      if l.status = .granted then
        [(l.released (o.clock s.reads) reason, { s with reads := s.reads + 1 })]
      else []
  | .expirySweep now, s =>
    let time := now.getD (o.clock s.reads)
    let s := if now.isNone then { s with reads := s.reads + 1 } else s
    sweepHandOvers o time (s.table.listExpiredLeases o time) s

end AgentStudio.Leases

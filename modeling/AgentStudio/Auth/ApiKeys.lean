import AgentStudio.Library.Rows
import AgentStudio.Library.Text
import Mathlib.Data.List.ReduceOption
import Mathlib.Logic.Function.Basic

/-!
# API keys

`ApiKeyManager` of `agent_runtime/apikey_manager.py`: a table of keys in memory, by their ids, and
the index file in its base directory that every change rewrites. A manager is built from the files:
`migrateLegacyIndex` merges the index at the root of the studio's home into the manager's own
index, `loadIndex` reads the latter, and `ensureBootstrapKey` creates a key if there is none. Then
`create`, `revoke`, `rotate` and `update` change the table, and `validate` looks for the first key
whose hash fits.

A row of an index file (`KeyRow`) is a JSON object of which every field may be missing; `fromDict`
fills in the defaults. `toDict` leaves the hash out, as it is meant for answers to clients;
`persistIndex` adds it again.

Directories are their paths, the disk says what each directory's index file holds, and writing
succeeds. The hash functions are a parameter (`Hashing`); ids, raw keys and salts that the code
draws at random are arguments (`Draw`), and so are the readings of the clock.
-/

namespace AgentStudio.Auth

open PyText Rows

/-! ### Keys and index files -/

/-- `ApiKeyConfig`. -/
structure ApiKeyConfig where
  id : Str
  name : Str
  keyPrefix : Str
  keyHash : Str
  permissions : List Str
  allowedAgentIds : List Str
  ipWhitelist : List Str
  createdAt : ℤ
  expiresAt : Option ℤ
  lastUsedAt : Option ℤ
deriving DecidableEq

/-- An object of an index file; a field may be missing. -/
structure KeyRow where
  id : Option Str
  name : Option Str
  keyPrefix : Option Str
  keyHash : Option Str
  permissions : Option (List Str)
  allowedAgentIds : Option (List Str)
  ipWhitelist : Option (List Str)
  createdAt : Option ℤ
  expiresAt : Option ℤ
  lastUsedAt : Option ℤ
deriving DecidableEq

/-- `to_dict`: everything but the hash. -/
def ApiKeyConfig.toDict (c : ApiKeyConfig) : KeyRow where
  id := some c.id
  name := some c.name
  keyPrefix := some c.keyPrefix
  keyHash := none
  permissions := some c.permissions
  allowedAgentIds := some c.allowedAgentIds
  ipWhitelist := some c.ipWhitelist
  createdAt := some c.createdAt
  expiresAt := c.expiresAt
  lastUsedAt := c.lastUsedAt

/-- `from_dict`. -/
def ApiKeyConfig.fromDict (d : KeyRow) : ApiKeyConfig where
  id := d.id.getD []
  name := d.name.getD []
  keyPrefix := d.keyPrefix.getD []
  keyHash := d.keyHash.getD []
  permissions := d.permissions.getD []
  allowedAgentIds := d.allowedAgentIds.getD []
  ipWhitelist := d.ipWhitelist.getD []
  createdAt := d.createdAt.getD 0
  expiresAt := d.expiresAt
  lastUsedAt := d.lastUsedAt

/-- The keys by their ids, in the order in which they came in. -/
abbrev KeyTable := Table ApiKeyConfig.id

/-- What is found where an index file should be: nothing, something that cannot be opened or is
not JSON, a JSON value without elements (a number, `true`, `null`), or the elements of a JSON
value. An element that is not an object is `none`. -/
inductive IndexFile
  | missing
  | unreadable
  | scalar
  | elements (rows : List (Option KeyRow))
deriving DecidableEq

/-- How reading an index fails: `JSONDecodeError` or `OSError`, `TypeError`, `AttributeError`. -/
inductive LoadError
  | unreadable
  | type
  | attribute
deriving DecidableEq

def IndexFile.load : IndexFile → Except LoadError (List ApiKeyConfig)
  | missing => .ok []
  | unreadable => .error .unreadable
  | scalar => .error .type
  | elements rows =>
    if none ∈ rows then .error .attribute
    else .ok (rows.reduceOption.map ApiKeyConfig.fromDict)

def IndexFile.entries (f : IndexFile) : List ApiKeyConfig :=
  match f.load with
  | .ok entries => entries
  | .error _ => []

abbrev Disk := Str → IndexFile

/-! ### Hashes -/

/-- The hash functions of `hashlib`, as hexadecimal digests. -/
structure Hashing where
  pbkdf2 : Str → Str → ℕ → Str
  sha256 : Str → Str

namespace Hashing

variable (H : Hashing)

/-- `_hash_key`. -/
def hashKey (key salt : Str) : Str :=
  "pbkdf2$100000$" ++ salt ++ '$' :: H.pbkdf2 key salt 100000

/-- `_verify_key`; `int` and `pbkdf2_hmac` refuse a number of iterations that is not one. -/
def verifyKey (key stored : Str) : Bool :=
  if stored = [] then false
  else if "pbkdf2$" <+: stored then
    match stored.splitOn '$' with
    | [_, iters, salt, hashHex] =>
      match parseInt iters with
      | some n => decide (0 < n) && decide (H.pbkdf2 key salt n.toNat = hashHex)
      | none => false
    | _ => false
  else decide (H.sha256 key = stored)

theorem verifyKey_nil (key : Str) : H.verifyKey key [] = false := if_pos rfl

end Hashing

/-! ### Building a manager -/

/-- `ApiKeyManager`. -/
structure ApiKeyManager where
  basePath : Str
  keys : KeyTable

structure Draw where
  keyId : Str
  rawKey : Str
  salt : Str

/-- The answer of `rotate`. -/
structure KeyInfo where
  keyId : Str
  keySecret : Str
  keyPrefix : Str
deriving DecidableEq

/-- The answer of `create`. -/
structure CreatedKey extends KeyInfo where
  permissions : List Str
deriving DecidableEq

/-- The entry with its hash, as `_persist_index` writes it. -/
def ApiKeyConfig.toRow (c : ApiKeyConfig) : KeyRow := { c.toDict with keyHash := some c.keyHash }

/-- `_persist_index`. -/
def persistIndex (m : ApiKeyManager) (disk : Disk) : Disk :=
  Function.update disk m.basePath (.elements (m.keys.rows.map fun c => some c.toRow))

/-- The table of the entries of an index, the later ones of an id in place of the earlier ones. -/
def tableOf (entries : List ApiKeyConfig) : KeyTable := Table.empty.upserts entries

/-- The entries of an index file for the merge, which gives up on all but an `AttributeError`. -/
def IndexFile.tryLoad (f : IndexFile) : Except LoadError (Option (List ApiKeyConfig)) :=
  match f.load with
  | .ok entries => .ok (some entries)
  | .error .attribute => .error .attribute
  | .error _ => .ok none

def mergeLegacy (existing : KeyTable) (legacyKeys : List ApiKeyConfig) : KeyTable :=
  legacyKeys.foldl (fun T c => if c.id ∈ T.rows.map ApiKeyConfig.id then T else T.upsert c) existing

/-- `_migrate_legacy_index`: the keys in memory and the disk afterwards. -/
def migrateLegacyIndex (home base : Str) (disk : Disk) : Except LoadError (KeyTable × Disk) :=
  if home = base ∨ disk home = .missing then .ok (Table.empty, disk)
  else do
    match ← (disk home).tryLoad with
    | none => .ok (Table.empty, disk)
    | some legacyKeys =>
      let existing := tableOf ((← (disk base).tryLoad).getD [])
      if ∀ c ∈ legacyKeys, c.id ∈ existing.rows.map ApiKeyConfig.id then .ok (Table.empty, disk)
      else
        let keys := mergeLegacy existing legacyKeys
        .ok (keys, Function.update disk base (.elements (keys.rows.map fun c => some c.toDict)))

/-- `_load_index`. -/
def loadIndex (base : Str) (keys : KeyTable) (disk : Disk) : Except LoadError KeyTable :=
  match (disk base).load with
  | .ok entries => .ok (keys.upserts entries)
  | .error .unreadable => .ok Table.empty
  | .error e => .error e

/-- The entry that `create` makes. -/
def newConfig (H : Hashing) (name : Str) (permissions allowedAgentIds ipWhitelist : List Str)
    (expiresAt : Option ℤ) (draw : Draw) (now : ℤ) : ApiKeyConfig where
  id := draw.keyId
  name := name
  keyPrefix := draw.rawKey.take 10
  keyHash := H.hashKey draw.rawKey draw.salt
  permissions := if permissions = [] then ["agent:execute"] else permissions
  allowedAgentIds := allowedAgentIds
  ipWhitelist := ipWhitelist
  createdAt := now
  expiresAt := expiresAt
  lastUsedAt := none

namespace ApiKeyManager

variable (m : ApiKeyManager) (H : Hashing) (disk : Disk)

/-- `create`; a list that is not given is empty. -/
def create (name : Str) (permissions allowedAgentIds ipWhitelist : List Str)
    (expiresAt : Option ℤ) (draw : Draw) (now : ℤ) : CreatedKey × ApiKeyManager × Disk :=
  let cfg := newConfig H name permissions allowedAgentIds ipWhitelist expiresAt draw now
  let m := { m with keys := m.keys.upsert cfg }
  (⟨⟨draw.keyId, draw.rawKey, cfg.keyPrefix⟩, cfg.permissions⟩, m, persistIndex m disk)

/-- `_ensure_bootstrap_key`, with what its `create` answers. -/
def ensureBootstrapKey (draw : Draw) (now : ℤ) : Option CreatedKey × ApiKeyManager × Disk :=
  if m.keys.rows ≠ [] then (none, m, disk)
  else
    let created := m.create H disk "bootstrap"
      ["agent:execute", "apikey:manage", "admin"] [] [] none draw now
    (some created.1, created.2)

end ApiKeyManager

/-- `ApiKeyManager(base)`: the bootstrap key, if one is made, the manager and the disk. -/
def construct (H : Hashing) (home base : Str) (disk : Disk) (draw : Draw) (now : ℤ) :
    Except LoadError (Option CreatedKey × ApiKeyManager × Disk) := do
  let migrated ← migrateLegacyIndex home base disk
  let keys ← loadIndex base migrated.1 migrated.2
  .ok (ApiKeyManager.ensureBootstrapKey ⟨base, keys⟩ H migrated.2 draw now)

/-! ### The operations -/

/-- `expires_at and time.time() > expires_at`. -/
def ApiKeyConfig.expired (c : ApiKeyConfig) (now : ℤ) : Bool :=
  match c.expiresAt with
  | none => false
  | some t => decide (t ≠ 0) && decide (t < now)

theorem ApiKeyConfig.expired_iff {c : ApiKeyConfig} {now : ℤ} :
    c.expired now = true ↔ ∃ t, c.expiresAt = some t ∧ t ≠ 0 ∧ t < now := by
  rcases h : c.expiresAt with _ | t
  · rw [expired, h]
    exact iff_of_false Bool.false_ne_true fun ⟨_, h, _⟩ => Option.some_ne_none _ h.symm
  · rw [expired, h, Bool.and_eq_true, decide_eq_true_eq, decide_eq_true_eq]
    exact ⟨fun h => ⟨t, rfl, h⟩, fun ⟨_, ht, h⟩ => Option.some.inj ht ▸ h⟩

theorem ApiKeyConfig.expired_mono {c : ApiKeyConfig} {now t : ℤ} (h : c.expired now = true)
    (ht : now ≤ t) : c.expired t = true := by
  obtain ⟨e, he, hne, hlt⟩ := expired_iff.mp h
  exact expired_iff.mpr ⟨e, he, hne, Int.lt_of_lt_of_le hlt ht⟩

/-- Why `validate` rejects a key. -/
inductive Rejection
  | keyExpired
  | agentNotAllowed
  | ipNotAllowed
  | keyNotFound
deriving DecidableEq

def Rejection.reason : Rejection → Str
  | keyExpired => "key_expired"
  | agentNotAllowed => "agent_not_allowed"
  | ipNotAllowed => "ip_not_allowed"
  | keyNotFound => "key_not_found"

/-- The fields that `update` sets. -/
structure Updates where
  name : Option Str
  permissions : Option (List Str)
  allowedAgentIds : Option (List Str)
  ipWhitelist : Option (List Str)
  expiresAt : Option (Option ℤ)

def Updates.apply (u : Updates) (c : ApiKeyConfig) : ApiKeyConfig :=
  { c with
    name := u.name.getD c.name
    permissions := u.permissions.getD c.permissions
    allowedAgentIds := u.allowedAgentIds.getD c.allowedAgentIds
    ipWhitelist := u.ipWhitelist.getD c.ipWhitelist
    expiresAt := u.expiresAt.getD c.expiresAt }

def notFound (keyId : Str) : Str := "API key not found: " ++ keyId

namespace ApiKeyManager

variable (m : ApiKeyManager) (H : Hashing) (disk : Disk)

/-- `revoke`. -/
def revoke (keyId : Str) : Except Str Unit × ApiKeyManager × Disk :=
  match m.keys.find keyId with
  | none => (.error (notFound keyId), m, disk)
  | some _ =>
    let m := { m with keys := m.keys.select (·.id ≠ keyId) }
    (.ok (), m, persistIndex m disk)

/-- `rotate`. -/
def rotate (keyId : Str) (draw : Draw) : Except Str KeyInfo × ApiKeyManager × Disk :=
  match m.keys.find keyId with
  | none => (.error (notFound keyId), m, disk)
  | some cfg =>
    let cfg := { cfg with
      keyPrefix := draw.rawKey.take 10
      keyHash := H.hashKey draw.rawKey draw.salt }
    let m := { m with keys := m.keys.upsert cfg }
    (.ok ⟨keyId, draw.rawKey, cfg.keyPrefix⟩, m, persistIndex m disk)

/-- `update`; the answer is the entry as `to_dict` shows it. -/
def update (keyId : Str) (updates : Updates) : Except Str KeyRow × ApiKeyManager × Disk :=
  match m.keys.find keyId with
  | none => (.error (notFound keyId), m, disk)
  | some cfg =>
    let cfg := updates.apply cfg
    let m := { m with keys := m.keys.upsert cfg }
    (.ok cfg.toDict, m, persistIndex m disk)

/-- `validate`; an agent or address of `[]` is not given. -/
def validate (rawKey agentId clientIp : Str) (now : ℤ) :
    Except Rejection (Str × List Str) × ApiKeyManager × Disk :=
  match m.keys.rows.find? (fun c => H.verifyKey rawKey c.keyHash) with
  | none => (.error .keyNotFound, m, disk)
  | some cfg =>
    if cfg.expired now then (.error .keyExpired, m, disk)
    else if cfg.allowedAgentIds ≠ [] ∧ agentId ≠ [] ∧ agentId ∉ cfg.allowedAgentIds then
      (.error .agentNotAllowed, m, disk)
    else if cfg.ipWhitelist ≠ [] ∧ clientIp ≠ [] ∧ clientIp ∉ cfg.ipWhitelist then
      (.error .ipNotAllowed, m, disk)
    else
      let m := { m with keys := m.keys.upsert { cfg with lastUsedAt := some now } }
      (.ok (cfg.id, cfg.permissions), m, persistIndex m disk)

end ApiKeyManager

end AgentStudio.Auth

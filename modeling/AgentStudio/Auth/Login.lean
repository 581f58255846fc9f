import AgentStudio.Auth.Migration
import AgentStudio.Library.Machine
import Mathlib.Data.List.Find

/-!
# Logging in with an API key

`auth.login` of the daemon (`auth_login` in `agent_runtime/rpc_auth.py`) builds a manager of its
own for each login, in the directory of the daemon's authentication data, and asks it to validate
the key. The `apikey.*` methods share one manager, which `_get_apikey_manager` builds at its first
use in the directory `apikeys` of the studio's home. So a login should accept the raw keys that the
daemon's manager accepts (`SameKeys`), and it reads another index file.

`sameKeys_of_quiet` says that the two agree as long as no call changes which keys the daemon's
manager accepts, and `not_sameKeys` is a key that the daemon has created and that does not log in.

The token that a login issues is left out of its answer.
-/

namespace AgentStudio.Auth

open PyText Rows Machine

/-! ### The daemon -/

/-- The studio's home, the directory `_auth_dir`, the operator's key (`[]` is none) and whether
identities come from outside. -/
structure AuthConfig where
  home : Str
  authDir : Str
  staticKey : Str
  identity : Bool

/-- The base directory of the daemon's manager. -/
def AuthConfig.apikeysDir (cfg : AuthConfig) : Str := cfg.home ++ "/apikeys"

/-- What the calls share: the index files, the manager once it is built, and the time. -/
structure AuthState where
  disk : Disk
  apikeyMgr : Option ApiKeyManager
  now : ℤ

/-- The answer of `auth.login`, without the token. -/
structure LoginAnswer where
  tid : Str
  keyId : Str
deriving DecidableEq

/-- How a login fails: with an `RpcAuthError`, or because no manager can be built. -/
inductive LoginError
  | rejected (reason : Str)
  | load (e : LoadError)
deriving DecidableEq

/-- The check of the key in `auth_login`: the id of the key and the disk afterwards. -/
def loginKeyId (H : Hashing) (cfg : AuthConfig) (apikey : Str) (draw : Draw) (disk : Disk)
    (now : ℤ) : Except LoginError Str × Disk :=
  if cfg.identity then
    (.error (.rejected "identity mode: login via fusion-identity, not auth.login"), disk)
  else if apikey = [] then (.error (.rejected "apikey required"), disk)
  else if cfg.staticKey ≠ [] ∧ cfg.staticKey = apikey then (.ok "static-env", disk)
  else
    match construct H cfg.home cfg.authDir disk draw now with
    | .error e => (.error (.load e), disk)
    | .ok (_, mgr, disk) =>
      let r := mgr.validate H disk apikey [] [] now
      match r.1 with
      | .error e => (.error (.rejected ("invalid apikey: " ++ e.reason)), r.2.2)
      | .ok answer => (.ok answer.1, r.2.2)

/-- `params.get(...) or default`, then `strip()`. -/
def stripped (given default : Str) : Str := strip (if given ≠ [] then given else default)

/-- `auth_login`: the answer and the disk afterwards. A parameter of `[]` is not given. -/
def authLogin (H : Hashing) (cfg : AuthConfig) (apikeyParam keyParam tidParam : Str) (draw : Draw)
    (disk : Disk) (now : ℤ) : Except LoginError LoginAnswer × Disk :=
  let tid := stripped tidParam "local"
  let r := loginKeyId H cfg (stripped apikeyParam keyParam) draw disk now
  (r.1.map fun keyId => ⟨if tid ≠ [] then tid else "local", keyId⟩, r.2)

/-- `_get_apikey_manager`: the manager and the disk afterwards. -/
def getApikeyManager (H : Hashing) (cfg : AuthConfig) (s : AuthState) (draw : Draw) :
    Except LoadError (ApiKeyManager × Disk) :=
  match s.apikeyMgr with
  | some mgr => .ok (mgr, s.disk)
  | none => do
    let built ← construct H cfg.home cfg.apikeysDir s.disk draw s.now
    .ok built.2

/-- The methods that work on the daemon's manager. -/
inductive KeyCall
  | create (name : Str) (permissions allowedAgentIds ipWhitelist : List Str)
      (expiresAt : Option ℤ) (draw : Draw)
  | list
  | revoke (keyId : Str)
  | rotate (keyId : Str) (draw : Draw)
  | update (keyId : Str) (updates : Updates)

/-- A call to the daemon, or time passing. What a bootstrap key would be drawn from comes with
each call. -/
inductive AuthCall
  | apikey (call : KeyCall) (boot : Draw)
  | login (apikey key tid : Str) (boot : Draw)
  | elapse (d : ℕ)

inductive AuthAnswer
  | created (key : CreatedKey)
  | keys (rows : List KeyRow)
  | revoked
  | rotated (key : KeyInfo)
  | updated (row : KeyRow)
  | error (message : Str)
  | login (answer : Except LoginError LoginAnswer)
  | failed (e : LoadError)
  | none

/-- An answer of the manager, or its error message. -/
def AuthAnswer.ofResult {α : Type} (f : α → AuthAnswer) : Except Str α → AuthAnswer
  | .ok a => f a
  | .error message => .error message

/-- The handlers of `apikey.create`, `apikey.list`, `apikey.revoke`, `apikey.rotate` and
`apikey.update`. -/
def KeyCall.handle (H : Hashing) (mgr : ApiKeyManager) (disk : Disk) (now : ℤ) :
    KeyCall → AuthAnswer × ApiKeyManager × Disk
  | create name permissions allowedAgentIds ipWhitelist expiresAt draw =>
    if name = [] then (.error "name parameter required", mgr, disk)
    else
      let r := mgr.create H disk name permissions allowedAgentIds ipWhitelist expiresAt draw now
      (.created r.1, r.2)
  | list => (.keys (mgr.keys.rows.map ApiKeyConfig.toDict), mgr, disk)
  | revoke keyId =>
    let r := mgr.revoke disk keyId
    (.ofResult (fun _ => .revoked) r.1, r.2)
  | rotate keyId draw =>
    let r := mgr.rotate H disk keyId draw
    (.ofResult .rotated r.1, r.2)
  | update keyId updates =>
    let r := mgr.update disk keyId updates
    (.ofResult .updated r.1, r.2)

def authStep (H : Hashing) (cfg : AuthConfig) : AuthCall → AuthState → AuthAnswer × AuthState
  | .apikey call boot, s =>
    match getApikeyManager H cfg s boot with
    | .error e => (.failed e, s)
    | .ok (mgr, disk) =>
      let r := call.handle H mgr disk s.now
      (r.1, { s with apikeyMgr := some r.2.1, disk := r.2.2 })
  | .login apikey key tid boot, s =>
    let r := authLogin H cfg apikey key tid boot s.disk s.now
    (.login r.1, { s with disk := r.2 })
  | .elapse d, s => (.none, { s with now := s.now + d })

/-! ### What should agree -/

/-- `auth.login` accepts a raw key. -/
def LoginAccepts (H : Hashing) (cfg : AuthConfig) (s : AuthState) (boot : Draw) (k : Str) : Prop :=
  ∃ answer, (authLogin H cfg k [] [] boot s.disk s.now).1 = .ok answer

/-- The daemon's manager accepts a raw key. -/
def DaemonAccepts (H : Hashing) (cfg : AuthConfig) (s : AuthState) (boot : Draw) (k : Str) : Prop :=
  ∃ mgr disk, getApikeyManager H cfg s boot = .ok (mgr, disk) ∧ mgr.Accepts H disk s.now k

/-- A raw key is not empty and has no blanks around it. -/
def IsRawKey (k : Str) : Prop := k ≠ [] ∧ strip k = k

/-- A login accepts the raw keys that the daemon's manager accepts, the operator's key aside. -/
def SameKeys (H : Hashing) (cfg : AuthConfig) (s : AuthState) : Prop :=
  ∀ boot k, IsRawKey k → k ≠ cfg.staticKey →
    (LoginAccepts H cfg s boot k ↔ DaemonAccepts H cfg s boot k)

/-! ### Calls that change no key in use -/

/-- The keys of the daemon's manager, once it is built. -/
def AuthState.daemonKeys (cfg : AuthConfig) (s : AuthState) : KeyTable :=
  match s.apikeyMgr with
  | some mgr => mgr.keys
  | none => tableOf (s.disk cfg.apikeysDir).entries

/-- The keys that fit the hash of an entry are expired, and no other entry has their hash. -/
def Idle (H : Hashing) (T : KeyTable) (now : ℤ) (c : ApiKeyConfig) : Prop :=
  ∀ k, H.verifyKey k c.keyHash = true →
    c.expired now = true ∧ ∀ d ∈ T.rows, d.id ≠ c.id → H.verifyKey k d.keyHash = false

/-- A call that leaves the keys in use alone: it creates a key that is expired, it revokes or
rotates a key that is expired, or it leaves the expiry of a key as it is or in the past. Ids and
keys that are drawn are new. -/
def KeyCall.Quiet (H : Hashing) (T : KeyTable) (now : ℤ) : KeyCall → Prop
  | create name _ _ _ expiresAt draw => name = [] ∨
    draw.keyId ∉ T.rows.map ApiKeyConfig.id ∧ ∃ t, expiresAt = some t ∧ t ≠ 0 ∧ t < now
  | list => True
  | revoke keyId => ∀ c ∈ T.rows, c.id = keyId → Idle H T now c
  | rotate keyId draw => ∀ c ∈ T.rows, c.id = keyId → Idle H T now c ∧ c.expired now = true ∧
    ∀ k, H.verifyKey k (H.hashKey draw.rawKey draw.salt) = true →
      ∀ d ∈ T.rows, d.id ≠ keyId → H.verifyKey k d.keyHash = false
  | update keyId updates => ∀ c ∈ T.rows, c.id = keyId →
    (updates.apply c).expiresAt = c.expiresAt ∨ (∀ k, H.verifyKey k c.keyHash = false) ∨
      c.expired now = true ∧ (updates.apply c).expired now = true

/-- Logins and time change no key. -/
def AuthCall.Quiet (H : Hashing) (cfg : AuthConfig) : AuthCall → AuthState → Prop
  | .apikey call _, s => call.Quiet H (s.daemonKeys cfg) s.now
  | .login .., _ => True
  | .elapse _, _ => True

/-- A manager is built from the index of a directory as it is. -/
structure Settled (home base : Str) (disk : Disk) : Prop where
  legible : Legible home base disk
  merged : ¬Migrates home base disk
  keys : (disk base).entries ≠ []

/-- A table accepts a raw key. -/
def Opens (H : Hashing) (now : ℤ) (k : Str) (rows : List ApiKeyConfig) : Prop :=
  ∃ c, rows.find? (fun c => H.verifyKey k c.keyHash) = some c ∧ c.expired now = false

/-- The two indexes have the same keys in use: each is settled, until the daemon has its manager,
and from now on they accept the same raw keys. -/
structure InStep (H : Hashing) (cfg : AuthConfig) (s : AuthState) : Prop where
  login : Settled cfg.home cfg.authDir s.disk
  fresh : s.apikeyMgr = none → Settled cfg.home cfg.apikeysDir s.disk
  built : ∀ mgr, s.apikeyMgr = some mgr → mgr.basePath = cfg.apikeysDir
  same : ∀ now, s.now ≤ now → ∀ k,
    (Opens H now k (tableOf (s.disk cfg.authDir).entries).rows ↔
      Opens H now k (s.daemonKeys cfg).rows)

variable {H : Hashing} {cfg : AuthConfig} {s : AuthState} {home base k : Str} {disk : Disk}
  {draw boot : Draw} {now : ℤ} {mgr : ApiKeyManager} {rows : List ApiKeyConfig}

/-! ### Tables that accept the same keys -/

theorem accepts_iff_opens : mgr.Accepts H disk now k ↔ Opens H now k mgr.keys.rows :=
  ApiKeyManager.accepts_iff

theorem not_opens (h : ∀ c ∈ rows, H.verifyKey k c.keyHash = true → c.expired now = true) :
    ¬Opens H now k rows := by
  rintro ⟨c, hfind, hc⟩
  have hexp := h c (List.mem_of_find?_eq_some hfind) (List.find?_some hfind :)
  exact Bool.false_ne_true (hc.symm.trans hexp)

theorem opens_map {f : ApiKeyConfig → ApiKeyConfig}
    (hhash : ∀ c ∈ rows, H.verifyKey k (f c).keyHash = H.verifyKey k c.keyHash)
    (hexp : ∀ c ∈ rows, H.verifyKey k c.keyHash = true → (f c).expired now = c.expired now) :
    Opens H now k (rows.map f) ↔ Opens H now k rows := by
  have hfind : (rows.map f).find? (fun c => H.verifyKey k c.keyHash) =
      (rows.find? fun c => H.verifyKey k c.keyHash).map f := by
    rw [List.find?_map]
    exact congrArg (Option.map f) (List.find?_congr hhash)
  unfold Opens
  rw [hfind]
  constructor
  · rintro ⟨c, hc, hopen⟩
    obtain ⟨d, hd, rfl⟩ := Option.map_eq_some_iff.mp hc
    refine ⟨d, hd, ?_⟩
    rwa [← hexp d (List.mem_of_find?_eq_some hd) (List.find?_some hd :)]
  · rintro ⟨d, hd, hopen⟩
    refine ⟨f d, by rw [hd]; rfl, ?_⟩
    rwa [hexp d (List.mem_of_find?_eq_some hd) (List.find?_some hd :)]

theorem opens_filter {p : ApiKeyConfig → Bool}
    (h : ∀ c ∈ rows, H.verifyKey k c.keyHash = true → p c = true) :
    Opens H now k (rows.filter p) ↔ Opens H now k rows := by
  have hfind : (rows.filter p).find? (fun c => H.verifyKey k c.keyHash) =
      rows.find? fun c => H.verifyKey k c.keyHash := by
    rw [List.find?_filter]
    refine List.find?_congr fun c hc => ?_
    rcases hk : H.verifyKey k c.keyHash with _ | _
    · rw [decide_eq_false fun h => Bool.false_ne_true h.2]
    · rw [h c hc hk]
      rfl
  rw [Opens, hfind]
  rfl

theorem opens_concat {c : ApiKeyConfig} (h : c.expired now = true) :
    Opens H now k (rows ++ [c]) ↔ Opens H now k rows := by
  unfold Opens
  rw [List.find?_append]
  rcases hfind : rows.find? (fun c => H.verifyKey k c.keyHash) with _ | d
  · rw [hfind, Option.none_or]
    refine iff_of_false ?_ ?_
    · rintro ⟨d, hd, hopen⟩
      have hmem := List.mem_singleton.mp (List.mem_of_find?_eq_some hd)
      rw [hmem, h] at hopen
      exact Bool.false_ne_true hopen.symm
    · rintro ⟨d, hd, -⟩
      exact Option.some_ne_none d hd.symm
  · rw [hfind]
    exact Iff.rfl

theorem opens_upsert {T : KeyTable} {c d : ApiKeyConfig} (hc : c ∈ T.rows) (hid : d.id = c.id)
    (h : H.verifyKey k d.keyHash = H.verifyKey k c.keyHash ∧
        (H.verifyKey k c.keyHash = true → d.expired now = c.expired now) ∨
      (c.expired now = true ∧ d.expired now = true ∧
        ∀ x ∈ T.rows, x.id ≠ c.id → H.verifyKey k x.keyHash = false)) :
    Opens H now k (T.upsert d).rows ↔ Opens H now k T.rows := by
  have hrows : (T.upsert d).rows = T.rows.map (Rows.update ApiKeyConfig.id c.id fun _ => d) := by
    rw [← hid]
    exact Table.rows_upsert_of_mem (hid ▸ List.mem_map_of_mem hc)
  have hsame {x : ApiKeyConfig} (hx : x ∈ T.rows) (hxid : x.id = c.id) : x = c :=
    eq_of_key_eq T.nodup hx hc hxid
  rcases h with ⟨hhash, hexp⟩ | ⟨hc', hd, hother⟩
  · rw [hrows]
    refine opens_map (fun x hx => ?_) fun x hx hk => ?_
    · by_cases hxid : x.id = c.id
      · rw [Rows.update, if_pos hxid, hsame hx hxid, hhash]
      · rw [update_of_ne hxid]
    · by_cases hxid : x.id = c.id
      · rw [Rows.update, if_pos hxid, hsame hx hxid]
        exact hexp (hsame hx hxid ▸ hk)
      · rw [update_of_ne hxid]
  · refine iff_of_false (not_opens fun x hx hk => ?_) (not_opens fun x hx hk => ?_)
    · rcases Table.mem_upsert.mp hx with rfl | ⟨hx, hne⟩
      · exact hd
      · exact absurd hk (Bool.eq_false_iff.mp (hother x hx (hid ▸ hne)))
    · by_cases hxid : x.id = c.id
      · exact hsame hx hxid ▸ hc'
      · exact absurd hk (Bool.eq_false_iff.mp (hother x hx hxid))

/-! ### Building a manager from a settled index -/

theorem Settled.rows_ne_nil (h : Settled home base disk) :
    (tableOf (disk base).entries).rows ≠ [] := by
  obtain ⟨c, l, hc⟩ := List.exists_cons_of_ne_nil h.keys
  have hmem : c.id ∈ (tableOf (disk base).entries).rows.map ApiKeyConfig.id := by
    rw [mem_keys_tableOf, hc]
    exact List.mem_cons_self
  intro hnil
  rw [hnil] at hmem
  exact List.not_mem_nil hmem

theorem Settled.construct_eq (h : Settled home base disk) :
    construct H home base disk draw now =
      .ok (none, ⟨base, tableOf (disk base).entries⟩, disk) :=
  (construct_of_not_migrates h.legible h.merged).trans (congrArg Except.ok (if_pos h.rows_ne_nil))

theorem load_persistIndex : (persistIndex mgr disk mgr.basePath).load = .ok mgr.keys.rows := by
  have hrows : persistIndex mgr disk mgr.basePath =
      .elements ((mgr.keys.rows.map ApiKeyConfig.toRow).map some) := by
    rw [List.map_map]
    exact Function.update_self ..
  rw [hrows, load_elements, List.map_map]
  exact congrArg Except.ok (List.map_id _)

theorem tableOf_rows (T : KeyTable) : tableOf T.rows = T :=
  Table.ext_rows (Table.rows_upserts (T := Table.empty) T.nodup)

theorem Settled.persistIndex {dir : Str} (h : Settled home dir disk)
    (hmgr : ∀ i, i ∈ mgr.keys.rows.map ApiKeyConfig.id ↔
      i ∈ (disk mgr.basePath).entries.map ApiKeyConfig.id) :
    Settled home dir (persistIndex mgr disk) := by
  have hids : ∀ d i, i ∈ (Auth.persistIndex mgr disk d).entries.map ApiKeyConfig.id ↔
      i ∈ (disk d).entries.map ApiKeyConfig.id := fun d i => by
    by_cases hd : d = mgr.basePath
    · rw [hd, IndexFile.entries_of_ok load_persistIndex]
      exact hmgr i
    · rw [Auth.persistIndex, Function.update_of_ne hd]
  have herror {d : Str} {e : LoadError} (he : (Auth.persistIndex mgr disk d).load = .error e) :
      (disk d).load = .error e := by
    by_cases hd : d = mgr.basePath
    · rw [hd, load_persistIndex] at he
      cases he
    · rwa [Auth.persistIndex, Function.update_of_ne hd] at he
  have hmerged : ¬Migrates home dir (Auth.persistIndex mgr disk) := by
    rintro ⟨hne, c, hc, hnew⟩
    obtain ⟨d, hd, hdc⟩ := List.mem_map.mp ((hids home c.id).mp (List.mem_map_of_mem hc))
    exact h.merged ⟨hne, d, hd, fun hin => hnew ((hids dir c.id).mpr (hdc ▸ hin))⟩
  refine ⟨⟨fun hne he => h.legible.legacy hne (herror he), fun he => h.legible.own (herror he),
    fun he => absurd (h.legible.bare (herror he)) h.merged⟩, hmerged, fun hnil => ?_⟩
  obtain ⟨c, l, hc⟩ := List.exists_cons_of_ne_nil h.keys
  have hmem := (hids dir c.id).mpr (hc ▸ List.mem_cons_self)
  rw [hnil] at hmem
  exact List.not_mem_nil hmem

theorem Settled.of_eq {disk' : Disk} {dir : Str} (h : Settled home dir disk)
    (hhome : disk' home = disk home) (hdir : disk' dir = disk dir) : Settled home dir disk' := by
  obtain ⟨⟨hlegacy, hown, hbare⟩, hmerged, hkeys⟩ := h
  have hmigrates : Migrates home dir disk' ↔ Migrates home dir disk := by
    rw [Migrates, Migrates, hhome, hdir]
  refine ⟨⟨?_, ?_, ?_⟩, fun h => hmerged (hmigrates.mp h), ?_⟩
  · rwa [hhome]
  · rwa [hdir]
  · rw [hdir, hmigrates]
    exact hbare
  · rwa [hdir]

/-! ### The daemon's manager -/

theorem ApiKeyManager.validate_cases (mgr : ApiKeyManager) (H : Hashing) (disk : Disk)
    (k agentId clientIp : Str) (now : ℤ) :
    (mgr.validate H disk k agentId clientIp now).2 = (mgr, disk) ∨
      ∃ c ∈ mgr.keys.rows, ∃ mgr', mgr' =
        { mgr with keys := mgr.keys.upsert { c with lastUsedAt := some now } } ∧
        (mgr.validate H disk k agentId clientIp now).2 = (mgr', persistIndex mgr' disk) := by
  unfold ApiKeyManager.validate
  rcases hfind : mgr.keys.rows.find? (fun c => H.verifyKey k c.keyHash) with _ | c
  · rw [hfind]
    exact Or.inl rfl
  · rw [hfind]
    dsimp only
    split_ifs
    · exact Or.inl rfl
    · exact Or.inl rfl
    · exact Or.inl rfl
    · exact Or.inr ⟨c, List.mem_of_find?_eq_some hfind, _, rfl, rfl⟩

/-- A change to a manager and its index that changes no key in use. -/
structure LeavesKeys (H : Hashing) (now : ℤ) (mgr mgr' : ApiKeyManager) (disk disk' : Disk) :
    Prop where
  base : mgr'.basePath = mgr.basePath
  files : ∀ dir, dir ≠ mgr.basePath → disk' dir = disk dir
  opens : ∀ t, now ≤ t → ∀ k, (Opens H t k mgr'.keys.rows ↔ Opens H t k mgr.keys.rows)

theorem LeavesKeys.refl : LeavesKeys H now mgr mgr disk disk :=
  ⟨rfl, fun _ _ => rfl, fun _ _ _ => Iff.rfl⟩

theorem LeavesKeys.persist {keys : KeyTable}
    (h : ∀ t, now ≤ t → ∀ k, (Opens H t k keys.rows ↔ Opens H t k mgr.keys.rows)) :
    LeavesKeys H now mgr { mgr with keys } disk
      (persistIndex { mgr with keys } disk) :=
  ⟨rfl, fun _ hdir => Function.update_of_ne hdir _ _, h⟩

theorem Idle.expired {T : KeyTable} {c d : ApiKeyConfig} {t : ℤ} (h : Idle H T now c)
    (hc : c ∈ T.rows) (hk : H.verifyKey k c.keyHash = true) (ht : now ≤ t) (hd : d ∈ T.rows)
    (hdk : H.verifyKey k d.keyHash = true) : d.expired t = true := by
  obtain ⟨hexp, hother⟩ := h k hk
  by_cases hid : d.id = c.id
  · rw [eq_of_key_eq T.nodup hd hc hid]
    exact ApiKeyConfig.expired_mono hexp ht
  · exact absurd hdk (Bool.eq_false_iff.mp (hother d hd hid))

theorem revoke_leavesKeys {keyId : Str} (h : (KeyCall.revoke keyId).Quiet H mgr.keys now) :
    LeavesKeys H now mgr (mgr.revoke disk keyId).2.1 disk (mgr.revoke disk keyId).2.2 := by
  unfold ApiKeyManager.revoke
  rcases hfind : mgr.keys.find keyId with _ | c
  · exact .refl
  · obtain ⟨hc, rfl⟩ := Table.find_eq_some_iff.mp hfind
    refine .persist fun t ht k => ?_
    rcases hk : H.verifyKey k c.keyHash with _ | _
    · refine opens_filter fun x hx hxk => decide_eq_true fun hid => ?_
      rw [eq_of_key_eq mgr.keys.nodup hx hc hid, hk] at hxk
      exact Bool.false_ne_true hxk
    · have hclosed : ∀ x ∈ mgr.keys.rows, H.verifyKey k x.keyHash = true → x.expired t = true :=
        fun x hx => (h c hc rfl).expired hc hk ht hx
      exact iff_of_false (not_opens fun x hx => hclosed x (List.mem_of_mem_filter hx))
        (not_opens hclosed)

theorem rotate_leavesKeys {keyId : Str} (h : (KeyCall.rotate keyId draw).Quiet H mgr.keys now) :
    LeavesKeys H now mgr (mgr.rotate H disk keyId draw).2.1 disk
      (mgr.rotate H disk keyId draw).2.2 := by
  unfold ApiKeyManager.rotate
  rcases hfind : mgr.keys.find keyId with _ | c
  · exact .refl
  · obtain ⟨hc, rfl⟩ := Table.find_eq_some_iff.mp hfind
    obtain ⟨hidle, hexp, hfresh⟩ := h c hc rfl
    refine .persist fun t ht k => opens_upsert hc rfl ?_
    have hexp' := ApiKeyConfig.expired_mono hexp ht
    rcases hk : H.verifyKey k c.keyHash with _ | _
    · rcases hnew : H.verifyKey k (H.hashKey draw.rawKey draw.salt) with _ | _
      · exact Or.inl ⟨rfl, fun h => absurd h Bool.false_ne_true⟩
      · exact Or.inr ⟨hexp', hexp', hfresh k hnew⟩
    · exact Or.inr ⟨hexp', hexp', (hidle k hk).2⟩

theorem update_leavesKeys {keyId : Str} {updates : Updates}
    (h : (KeyCall.update keyId updates).Quiet H mgr.keys now) :
    LeavesKeys H now mgr (mgr.update disk keyId updates).2.1 disk
      (mgr.update disk keyId updates).2.2 := by
  unfold ApiKeyManager.update
  rcases hfind : mgr.keys.find keyId with _ | c
  · exact .refl
  · obtain ⟨hc, rfl⟩ := Table.find_eq_some_iff.mp hfind
    refine .persist fun t ht k => opens_upsert hc rfl (Or.inl ⟨rfl, fun hk => ?_⟩)
    rcases h c hc rfl with hsame | hnone | ⟨hold, hnew⟩
    · rw [ApiKeyConfig.expired, hsame]
      rfl
    · exact absurd hk (Bool.eq_false_iff.mp (hnone k))
    · rw [ApiKeyConfig.expired_mono hold ht, ApiKeyConfig.expired_mono hnew ht]

theorem KeyCall.Quiet.leavesKeys {call : KeyCall} (h : call.Quiet H mgr.keys now) :
    LeavesKeys H now mgr (call.handle H mgr disk now).2.1 disk
      (call.handle H mgr disk now).2.2 := by
  cases call with
  | create name permissions allowedAgentIds ipWhitelist expiresAt draw =>
    rw [KeyCall.handle]
    split_ifs with hname
    · exact .refl
    · obtain ⟨hnew, e, he, hne, hlt⟩ := h.resolve_left hname
      refine .persist fun t ht k => ?_
      rw [Table.rows_upsert_of_notMem hnew]
      exact opens_concat (ApiKeyConfig.expired_iff.mpr ⟨e, he, hne, Int.lt_of_lt_of_le hlt ht⟩)
  | list => exact .refl
  | revoke keyId => exact revoke_leavesKeys h
  | rotate keyId draw => exact rotate_leavesKeys h
  | update keyId updates => exact update_leavesKeys h

/-! ### Staying in step -/

theorem AuthConfig.home_ne_apikeysDir (cfg : AuthConfig) : cfg.home ≠ cfg.apikeysDir := fun h => by
  have hlen := congrArg List.length h
  rw [AuthConfig.apikeysDir, List.length_append] at hlen
  exact absurd hlen (Nat.ne_of_lt (Nat.lt_add_of_pos_right (by decide)))

theorem InStep.getApikeyManager_eq (h : InStep H cfg s) :
    getApikeyManager H cfg s boot = .ok (⟨cfg.apikeysDir, s.daemonKeys cfg⟩, s.disk) := by
  unfold getApikeyManager AuthState.daemonKeys
  rcases hmgr : s.apikeyMgr with _ | mgr
  · dsimp only
    rw [(h.fresh hmgr).construct_eq]
    rfl
  · dsimp only
    rw [← h.built mgr hmgr]

theorem loginKeyId_cases {apikey : Str} (h : Settled cfg.home cfg.authDir disk) :
    (loginKeyId H cfg apikey boot disk now).2 = disk ∨
      ∃ c ∈ (tableOf (disk cfg.authDir).entries).rows,
        (loginKeyId H cfg apikey boot disk now).2 =
          persistIndex ⟨cfg.authDir, (tableOf (disk cfg.authDir).entries).upsert
            { c with lastUsedAt := some now }⟩ disk := by
  unfold loginKeyId
  rw [h.construct_eq]
  split_ifs
  · exact Or.inl rfl
  · exact Or.inl rfl
  · exact Or.inl rfl
  · dsimp only
    set mgr : ApiKeyManager := ⟨cfg.authDir, tableOf (disk cfg.authDir).entries⟩
    rcases hr : (mgr.validate H disk apikey [] [] now).1 with e | answer
    all_goals
      rcases mgr.validate_cases H disk apikey [] [] now with h | ⟨c, hc, mgr', rfl, h⟩
      · exact Or.inl (congrArg Prod.snd h)
      · exact Or.inr ⟨c, hc, congrArg Prod.snd h⟩

theorem exists_map_eq_ok {ε α β : Type} {f : α → β} {x : Except ε α} :
    (∃ b, x.map f = .ok b) ↔ ∃ a, x = .ok a := by
  rcases x with e | a
  · exact iff_of_false (fun ⟨_, h⟩ => by cases h) fun ⟨_, h⟩ => by cases h
  · exact iff_of_true ⟨f a, rfl⟩ ⟨a, rfl⟩

theorem loginAccepts_iff (hid : cfg.identity = false) (h : Settled cfg.home cfg.authDir s.disk)
    (hk : IsRawKey k) (hstatic : k ≠ cfg.staticKey) :
    LoginAccepts H cfg s boot k ↔
      Opens H s.now k (tableOf (s.disk cfg.authDir).entries).rows := by
  have hkey : stripped k [] = k := by rw [stripped, if_pos hk.1, hk.2]
  have hs : ¬(cfg.staticKey ≠ [] ∧ cfg.staticKey = k) := fun h => hstatic h.2.symm
  set mgr : ApiKeyManager := ⟨cfg.authDir, tableOf (s.disk cfg.authDir).entries⟩ with hmgr
  have hlogin : LoginAccepts H cfg s boot k ↔
      ∃ keyId, (loginKeyId H cfg k boot s.disk s.now).1 = .ok keyId := by
    unfold LoginAccepts authLogin
    rw [hkey]
    exact exists_map_eq_ok
  have haccepts : (∃ keyId, (loginKeyId H cfg k boot s.disk s.now).1 = .ok keyId) ↔
      mgr.Accepts H s.disk s.now k := by
    rw [loginKeyId, if_neg (Bool.eq_false_iff.mp hid), if_neg hk.1, if_neg hs, h.construct_eq]
    dsimp only
    rw [← hmgr, ApiKeyManager.Accepts]
    rcases (mgr.validate H s.disk k [] [] s.now).1 with e | answer
    · exact iff_of_false (fun ⟨_, h⟩ => by cases h) fun ⟨_, h⟩ => by cases h
    · exact iff_of_true ⟨_, rfl⟩ ⟨_, rfl⟩
  rw [hlogin, haccepts, accepts_iff_opens]

theorem InStep.sameKeys (hid : cfg.identity = false) (h : InStep H cfg s) : SameKeys H cfg s := by
  intro boot k hk hstatic
  rw [loginAccepts_iff hid h.login hk hstatic, h.same s.now (Int.le_refl _) k]
  unfold DaemonAccepts
  rw [h.getApikeyManager_eq]
  constructor
  · exact fun hopen => ⟨_, _, rfl, accepts_iff_opens.mpr hopen⟩
  · rintro ⟨mgr, disk, hmgr, haccepts⟩
    cases hmgr
    exact accepts_iff_opens.mp haccepts

theorem InStep.apikey {call : KeyCall} (hdir : cfg.authDir ≠ cfg.apikeysDir)
    (h : InStep H cfg s) (hquiet : call.Quiet H (s.daemonKeys cfg) s.now) :
    InStep H cfg (authStep H cfg (.apikey call boot) s).2 := by
  have hleaves : LeavesKeys H s.now ⟨cfg.apikeysDir, s.daemonKeys cfg⟩ _ s.disk _ :=
    hquiet.leavesKeys
  rw [authStep, h.getApikeyManager_eq]
  have hfile := hleaves.files cfg.authDir hdir
  refine ⟨h.login.of_eq (hleaves.files _ cfg.home_ne_apikeysDir) hfile, fun hno => ?_,
    fun mgr hmgr => ?_, fun t ht k => ?_⟩
  · exact absurd hno (Option.some_ne_none _)
  · exact Option.some.inj hmgr ▸ hleaves.base
  · refine Iff.trans ?_ (hleaves.opens t ht k).symm
    dsimp only
    rw [hfile]
    exact h.same t ht k

theorem InStep.loggedIn {apikey key tid : Str} (hdir : cfg.authDir ≠ cfg.apikeysDir)
    (h : InStep H cfg s) : InStep H cfg (authStep H cfg (.login apikey key tid boot) s).2 := by
  set disk' := (authLogin H cfg apikey key tid boot s.disk s.now).2 with hdisk'
  have hstep : (authStep H cfg (.login apikey key tid boot) s).2 = { s with disk := disk' } := rfl
  rw [hstep]
  have hcases : (loginKeyId H cfg (stripped apikey key) boot s.disk s.now).2 = s.disk ∨ _ :=
    loginKeyId_cases h.login
  rcases hcases with hsame | ⟨c, hc, hused⟩
  · rw [show disk' = s.disk from hsame]
    exact h
  · set T := tableOf (s.disk cfg.authDir).entries
    set used : ApiKeyConfig := { c with lastUsedAt := some s.now }
    set mgr : ApiKeyManager := ⟨cfg.authDir, T.upsert used⟩
    have hid : used.id ∈ T.rows.map ApiKeyConfig.id := List.mem_map.mpr ⟨c, hc, rfl⟩
    have hkeep : mgr.keys.rows.map ApiKeyConfig.id = T.rows.map ApiKeyConfig.id :=
      Table.keys_upsert_of_mem hid
    have hwritten : disk' = persistIndex mgr s.disk := hused
    have hids : ∀ i, i ∈ mgr.keys.rows.map ApiKeyConfig.id ↔
        i ∈ (s.disk cfg.authDir).entries.map ApiKeyConfig.id := fun i => by
      rw [hkeep, mem_keys_tableOf]
    have hother : disk' cfg.apikeysDir = s.disk cfg.apikeysDir := by
      rw [hwritten, persistIndex, Function.update_of_ne hdir.symm]
    have hkeys : tableOf (disk' cfg.authDir).entries = mgr.keys := by
      have hload : (persistIndex mgr s.disk cfg.authDir).load = .ok mgr.keys.rows :=
        load_persistIndex
      rw [hwritten, IndexFile.entries_of_ok hload, tableOf_rows]
    have hdaemon : AuthState.daemonKeys cfg { s with disk := disk' } = s.daemonKeys cfg := by
      unfold AuthState.daemonKeys
      dsimp only
      rw [hother]
    refine ⟨hwritten ▸ h.login.persistIndex hids, fun hno => ?_, h.built, fun t ht k => ?_⟩
    · exact hwritten ▸ (h.fresh hno).persistIndex hids
    · rw [hdaemon, ← h.same t ht k]
      dsimp only
      rw [hkeys]
      exact opens_upsert hc rfl (Or.inl ⟨rfl, fun _ => rfl⟩)

theorem InStep.elapse {d : ℕ} (h : InStep H cfg s) :
    InStep H cfg (authStep H cfg (.elapse d) s).2 :=
  ⟨h.login, h.fresh, h.built, fun t ht =>
    h.same t (Int.le_trans (Int.le_add_of_nonneg_right (Int.natCast_nonneg d)) ht)⟩

theorem InStep.step (hdir : cfg.authDir ≠ cfg.apikeysDir) (call : AuthCall)
    (h : InStep H cfg s) (hquiet : call.Quiet H cfg s) :
    InStep H cfg (authStep H cfg call s).2 := by
  cases call with
  | apikey call boot => exact h.apikey hdir hquiet
  | login apikey key tid boot => exact h.loggedIn hdir
  | elapse d => exact h.elapse

/-- Indexes that start in step accept the same keys at every moment, as long as no call changes a
key in use. -/
theorem sameKeys_of_quiet (H : Hashing) (cfg : AuthConfig) (hid : cfg.identity = false)
    (hdir : cfg.authDir ≠ cfg.apikeysDir) (calls : List AuthCall) (s : AuthState)
    (hs : InStep H cfg s)
    (hquiet : Along (authStep H cfg) (fun call s => call.Quiet H cfg s) calls s) (n : ℕ) :
    SameKeys H cfg (run (authStep H cfg) (calls.take n) s).2 := by
  have hok : Along (authStep H cfg) (fun call s => call.Quiet H cfg s) (calls.take n) s := by
    rw [← List.take_append_drop n calls, along_append] at hquiet
    exact hquiet.1
  refine InStep.sameKeys hid (run_invariant (fun call s h hq => ?_) (calls.take n) hs hok)
  exact h.step hdir call hq

/-! ### A created key -/

/-- The index at the root and the manager's own one have the same row. -/
def sameIndex : Disk := fun _ => .elements ([keyRow "a1" "fk-live"].map some)

theorem settled_sameIndex (home base : Str) : Settled home base sameIndex := by
  have hload : ∀ dir, (sameIndex dir).load =
      .ok [ApiKeyConfig.fromDict (keyRow "a1" "fk-live")] := fun _ => load_elements _
  have hmerged : ¬Migrates home base sameIndex := by
    rintro ⟨-, c, hc, hnew⟩
    exact hnew (List.mem_map_of_mem hc)
  refine ⟨⟨fun _ h => ?_, fun h => ?_, fun h => ?_⟩, hmerged, ?_⟩
  · cases (hload home).symm.trans h
  · cases (hload base).symm.trans h
  · cases (hload base).symm.trans h
  · rw [IndexFile.entries_of_ok (hload base)]
    exact List.cons_ne_nil _ _

def localDaemon : AuthConfig := ⟨"/home", "/home", [], false⟩

def firstState : AuthState := ⟨sameIndex, none, 100⟩

theorem inStep_firstState : InStep plainHash localDaemon firstState :=
  ⟨settled_sameIndex _ _, fun _ => settled_sameIndex _ _, fun _ h => absurd h.symm
    (Option.some_ne_none _), fun _ _ _ => Iff.rfl⟩

/-- A login and the creation of a key that is expired. -/
def quietCalls : List AuthCall :=
  [.login "fk-live" [] [] ⟨[], [], []⟩,
    .apikey (.create "ci" [] [] [] (some 50) ⟨"b2", "fk-ci", []⟩) ⟨[], [], []⟩]

theorem sameKeys_quietCalls : SameKeys plainHash localDaemon
    (run (authStep plainHash localDaemon) (quietCalls.take 2) firstState).2 :=
  sameKeys_of_quiet plainHash localDaemon rfl (by decide) quietCalls firstState inStep_firstState
    ⟨trivial, Or.inr ⟨by decide, 50, rfl, by decide, by decide⟩, trivial⟩ 2

/-- A key that was just created does not log in. -/
theorem not_sameKeys :
    ¬∀ (H : Hashing) (cfg : AuthConfig) (calls : List AuthCall) (s : AuthState),
      InStep H cfg s → SameKeys H cfg (run (authStep H cfg) calls s).2 := by
  intro h
  have hsame := h plainHash localDaemon
    [.apikey (.create "ci" [] [] [] none ⟨"b2", "fk-ci", []⟩) ⟨[], [], []⟩]
    firstState inStep_firstState ⟨[], [], []⟩ "fk-ci" ⟨by decide, by decide⟩ (by decide)
  obtain ⟨answer, hanswer⟩ := hsame.mpr ⟨_, _, rfl, ⟨("b2", ["agent:execute"]), by
    rfl⟩⟩
  cases hanswer

end AgentStudio.Auth

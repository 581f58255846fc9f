import AgentStudio.Auth.ApiKeys

/-!
# The merge of the legacy index

When a manager of `agent_runtime/apikey_manager.py` is built, the keys of the index at the root of
the studio's home and those of the manager's own index should stay usable (`KeepsKeys`): a raw key
is accepted exactly if an entry of either index has its hash and is not expired, where entries of
the legacy index whose ids were revoked do not count.

`migrateLegacyIndex` writes the merged index without the hashes, and `loadIndex` reads it back over
the keys in memory. So as soon as the legacy index has an id that the own index lacks, no key is
accepted any more (`construct_of_migrates`); otherwise the own index decides
(`construct_of_not_migrates`). `keepsKeys_iff` says when this is as it should be, and
`not_keepsKeys` is an own index that loses its key to a legacy entry.
-/

namespace AgentStudio.Auth

open PyText Rows

variable {H : Hashing} {home base : Str} {disk : Disk} {draw : Draw} {start now : ℤ} {k : Str}

/-! ### What should be accepted -/

/-- The hash of an entry fits a raw key, and the entry is not expired. -/
def ApiKeyConfig.Usable (H : Hashing) (now : ℤ) (k : Str) (c : ApiKeyConfig) : Prop :=
  H.verifyKey k c.keyHash = true ∧ c.expired now = false

/-- `validate(k)` accepts. -/
def ApiKeyManager.Accepts (H : Hashing) (m : ApiKeyManager) (disk : Disk) (now : ℤ) (k : Str) :
    Prop :=
  ∃ answer, (m.validate H disk k [] [] now).1 = .ok answer

/-- The entries of the two indexes, those with revoked ids left out of the legacy one. -/
def storedKeys (home base : Str) (disk : Disk) (revoked : List Str) : List ApiKeyConfig :=
  (disk base).entries ++ (disk home).entries.filter (·.id ∉ revoked)

/-- The manager is built and accepts the raw keys of the two indexes, apart from a bootstrap key
that is made on the way. -/
def KeepsKeys (H : Hashing) (home base : Str) (disk : Disk) (revoked : List Str) (draw : Draw)
    (start now : ℤ) : Prop :=
  ∃ issued m disk', construct H home base disk draw start = .ok (issued, m, disk') ∧
    ∀ k, (issued.isSome → H.verifyKey k (H.hashKey draw.rawKey draw.salt) = false) →
      (m.Accepts H disk' now k ↔ ∃ c ∈ storedKeys home base disk revoked, c.Usable H now k)

/-- Some entry of the legacy index has an id that the own index lacks. -/
def Migrates (home base : Str) (disk : Disk) : Prop :=
  home ≠ base ∧ ∃ c ∈ (disk home).entries, c.id ∉ (disk base).entries.map ApiKeyConfig.id

/-- No index has an element that is not an object, and the own one is not a bare value, unless the
merge replaces it. -/
structure Legible (home base : Str) (disk : Disk) : Prop where
  legacy : home ≠ base → (disk home).load ≠ .error .attribute
  own : (disk base).load ≠ .error .attribute
  bare : (disk base).load = .error .type → Migrates home base disk

def ApiKeyConfig.HasKey (H : Hashing) (c : ApiKeyConfig) : Prop :=
  ∃ k, H.verifyKey k c.keyHash = true

/-! ### Validation -/

theorem ApiKeyManager.accepts_iff {m : ApiKeyManager} :
    m.Accepts H disk now k ↔
      ∃ c, m.keys.rows.find? (fun c => H.verifyKey k c.keyHash) = some c ∧
        c.expired now = false := by
  unfold ApiKeyManager.Accepts ApiKeyManager.validate
  rcases hfind : m.keys.rows.find? (fun c => H.verifyKey k c.keyHash) with _ | c
  · simp [hfind]
  · rcases hexp : c.expired now with _ | _ <;> simp [hfind, hexp]

theorem ApiKeyManager.not_accepts {m : ApiKeyManager}
    (h : ∀ c ∈ m.keys.rows, H.verifyKey k c.keyHash = false) : ¬m.Accepts H disk now k := by
  rw [ApiKeyManager.accepts_iff]
  rintro ⟨c, hc, -⟩
  exact Bool.false_ne_true
    ((h c (List.mem_of_find?_eq_some hc)).symm.trans (List.find?_some hc :))

/-! ### Reading the files -/

variable {f : IndexFile} {revoked : List Str}

theorem IndexFile.entries_of_ok {l : List ApiKeyConfig} (h : f.load = .ok l) : f.entries = l := by
  rw [IndexFile.entries, h]

theorem IndexFile.entries_of_error {e : LoadError} (h : f.load = .error e) : f.entries = [] := by
  rw [IndexFile.entries, h]

theorem IndexFile.tryLoad_of_ok {l : List ApiKeyConfig} (h : f.load = .ok l) :
    f.tryLoad = .ok (some l) := by
  rw [IndexFile.tryLoad, h]

theorem IndexFile.tryLoad_of_attribute (h : f.load = .error .attribute) :
    f.tryLoad = .error .attribute := by
  rw [IndexFile.tryLoad, h]

theorem IndexFile.exists_tryLoad (h : f.load ≠ .error .attribute) :
    ∃ l, f.tryLoad = .ok l ∧ l.getD [] = f.entries := by
  rcases hload : f.load with (_ | _ | _) | l
  · exact ⟨none, by rw [IndexFile.tryLoad, hload], (entries_of_error hload).symm⟩
  · exact ⟨none, by rw [IndexFile.tryLoad, hload], (entries_of_error hload).symm⟩
  · exact absurd hload h
  · exact ⟨some l, tryLoad_of_ok hload, (entries_of_ok hload).symm⟩

theorem mem_keys_tableOf {entries : List ApiKeyConfig} {i : Str} :
    i ∈ (tableOf entries).rows.map ApiKeyConfig.id ↔ i ∈ entries.map ApiKeyConfig.id := by
  rw [tableOf, Table.mem_keys_upserts]
  exact or_iff_right List.not_mem_nil

theorem mem_of_mem_tableOf {entries : List ApiKeyConfig} {c : ApiKeyConfig}
    (h : c ∈ (tableOf entries).rows) : c ∈ entries :=
  (Table.mem_upserts h).resolve_right fun h => List.not_mem_nil h.1

/-! ### Building a manager -/

theorem migrates_of_ok {legacyKeys : List ApiKeyConfig} (hne : home ≠ base)
    (h : (disk home).load = .ok legacyKeys) :
    Migrates home base disk ↔
      ¬∀ c ∈ legacyKeys, c.id ∈ (tableOf (disk base).entries).rows.map ApiKeyConfig.id := by
  rw [Migrates, IndexFile.entries_of_ok h, and_iff_right hne]
  simp only [mem_keys_tableOf, not_forall, exists_prop]

theorem mem_keys_mergeLegacy {T : KeyTable} {legacyKeys : List ApiKeyConfig} {i : Str} :
    i ∈ (mergeLegacy T legacyKeys).rows.map ApiKeyConfig.id ↔
      i ∈ T.rows.map ApiKeyConfig.id ∨ i ∈ legacyKeys.map ApiKeyConfig.id := by
  induction legacyKeys generalizing T with
  | nil => exact (or_iff_left List.not_mem_nil).symm
  | cons c l ih =>
    have hcons : mergeLegacy T (c :: l) =
        mergeLegacy (if c.id ∈ T.rows.map ApiKeyConfig.id then T else T.upsert c) l := rfl
    rw [hcons, ih, List.map_cons, List.mem_cons]
    split_ifs with h
    · refine ⟨Or.imp_right Or.inr, ?_⟩
      rintro (hT | rfl | hl)
      · exact Or.inl hT
      · exact Or.inl h
      · exact Or.inr hl
    · rw [← or_assoc]
      refine or_congr_left ?_
      have hkeys : i ∈ (T.upserts [c]).rows.map ApiKeyConfig.id ↔ _ := Table.mem_keys_upserts
      exact hkeys.trans (or_congr_right List.mem_singleton)

theorem migrateLegacyIndex_of_not (hlegacy : home ≠ base → (disk home).load ≠ .error .attribute)
    (hown : (disk base).load ≠ .error .attribute) (h : ¬Migrates home base disk) :
    migrateLegacyIndex home base disk = .ok (Table.empty, disk) := by
  by_cases hskip : home = base ∨ disk home = .missing
  · rw [migrateLegacyIndex, if_pos hskip]
  · have hne : home ≠ base := fun h => hskip (Or.inl h)
    rw [migrateLegacyIndex, if_neg hskip]
    obtain ⟨own, htry, hentries⟩ := IndexFile.exists_tryLoad hown
    rcases hload : (disk home).load with (_ | _ | _) | legacyKeys
    · rw [IndexFile.tryLoad, hload]
      rfl
    · rw [IndexFile.tryLoad, hload]
      rfl
    · exact absurd hload (hlegacy hne)
    · rw [IndexFile.tryLoad_of_ok hload, htry]
      have hin := not_not.mp (fun hin => h ((migrates_of_ok hne hload).mpr hin))
      rw [← hentries] at hin
      exact if_pos hin

theorem migrateLegacyIndex_of_migrates (hl : Legible home base disk)
    (h : Migrates home base disk) :
    ∃ keys : KeyTable, keys.rows ≠ [] ∧ migrateLegacyIndex home base disk =
      .ok (keys,
        Function.update disk base (.elements (keys.rows.map fun c => some c.toDict))) := by
  obtain ⟨hne, c, hc, hnew⟩ := h
  rcases hload : (disk home).load with e | legacyKeys
  · rw [IndexFile.entries_of_error hload] at hc
    exact absurd hc List.not_mem_nil
  · have hskip : ¬(home = base ∨ disk home = .missing) := by
      rintro (h | h)
      · exact hne h
      · rw [h] at hload
        rw [IndexFile.entries, h] at hc
        exact List.not_mem_nil hc
    obtain ⟨own, hown, hentries⟩ := IndexFile.exists_tryLoad hl.own
    have hin := (migrates_of_ok hne hload).mp ⟨hne, c, hc, hnew⟩
    rw [← hentries] at hin
    refine ⟨mergeLegacy (tableOf (own.getD [])) legacyKeys, fun hnil => ?_, ?_⟩
    · rw [IndexFile.entries_of_ok hload] at hc
      have hmem : c.id ∈ (mergeLegacy (tableOf (own.getD [])) legacyKeys).rows.map
          ApiKeyConfig.id := mem_keys_mergeLegacy.mpr (Or.inr (List.mem_map_of_mem hc))
      rw [hnil] at hmem
      exact List.not_mem_nil hmem
    · rw [migrateLegacyIndex, if_neg hskip, IndexFile.tryLoad_of_ok hload, hown]
      exact if_neg hin

theorem load_elements (rows : List KeyRow) :
    (IndexFile.elements (rows.map some)).load = .ok (rows.map ApiKeyConfig.fromDict) := by
  have hnone : none ∉ rows.map some := fun h => by
    obtain ⟨_, -, h⟩ := List.mem_map.mp h
    exact Option.some_ne_none _ h
  have hrows : (rows.map some).reduceOption = rows := by
    induction rows with
    | nil => rfl
    | cons r rows ih =>
      rw [List.map_cons, List.reduceOption_cons_of_some,
        ih fun h => hnone (List.mem_cons_of_mem _ h)]
  rw [IndexFile.load, if_neg hnone, hrows]

theorem construct_eq {keys T : KeyTable} {disk' : Disk}
    (hmigrate : migrateLegacyIndex home base disk = .ok (keys, disk'))
    (hload : loadIndex base keys disk' = .ok T) :
    construct H home base disk draw start =
      .ok (ApiKeyManager.ensureBootstrapKey ⟨base, T⟩ H disk' draw start) := by
  rw [construct, hmigrate]
  exact congrArg (· >>= fun keys =>
    .ok (ApiKeyManager.ensureBootstrapKey ⟨base, keys⟩ H disk' draw start)) hload

theorem construct_of_not_migrates (hl : Legible home base disk) (h : ¬Migrates home base disk) :
    construct H home base disk draw start =
      .ok (ApiKeyManager.ensureBootstrapKey ⟨base, tableOf (disk base).entries⟩ H disk draw
        start) := by
  refine construct_eq (migrateLegacyIndex_of_not hl.legacy hl.own h) ?_
  rw [loadIndex]
  rcases hown : (disk base).load with (_ | _ | _) | l
  · rw [IndexFile.entries_of_error hown]
    rfl
  · exact absurd (hl.bare hown) h
  · exact absurd hown hl.own
  · rw [IndexFile.entries_of_ok hown]
    rfl

theorem construct_of_migrates (hl : Legible home base disk) (h : Migrates home base disk) :
    ∃ m disk', construct H home base disk draw start = .ok (none, m, disk') ∧
      ∀ c ∈ m.keys.rows, c.keyHash = [] := by
  obtain ⟨keys, hne, hmigrate⟩ := migrateLegacyIndex_of_migrates hl h
  set disk' := Function.update disk base (.elements (keys.rows.map fun c => some c.toDict))
  have hload : (disk' base).load = .ok (keys.rows.map fun c => { c with keyHash := [] }) := by
    rw [show disk' base = .elements ((keys.rows.map ApiKeyConfig.toDict).map some) by
      rw [List.map_map]
      exact Function.update_self ..]
    rw [load_elements, List.map_map]
    rfl
  set T := keys.upserts (keys.rows.map fun c => { c with keyHash := [] })
  have hT : T.rows ≠ [] := by
    obtain ⟨c, l, hc⟩ := List.exists_cons_of_ne_nil hne
    have hmem : c.id ∈ T.rows.map ApiKeyConfig.id :=
      Table.mem_keys_upserts.mpr (Or.inl (hc ▸ List.mem_cons_self))
    intro hnil
    rw [hnil] at hmem
    exact List.not_mem_nil hmem
  refine ⟨⟨base, T⟩, disk', ?_, fun c hc => ?_⟩
  · have hindex : loadIndex base keys disk' = .ok T := by rw [loadIndex, hload]
    exact (construct_eq hmigrate hindex).trans (congrArg Except.ok (if_pos hT))
  · rcases Table.mem_upserts hc with hc | ⟨hc, hnew⟩
    · obtain ⟨x, -, rfl⟩ := List.mem_map.mp hc
      rfl
    · refine absurd ?_ hnew
      rw [List.map_map]
      exact List.mem_map_of_mem hc

theorem construct_eq_ok {r : Option CreatedKey × ApiKeyManager × Disk}
    (h : construct H home base disk draw start = .ok r) :
    ∃ keys disk' T, migrateLegacyIndex home base disk = .ok (keys, disk') ∧
      loadIndex base keys disk' = .ok T := by
  unfold construct at h
  rcases hmigrate : migrateLegacyIndex home base disk with e | ⟨keys, disk'⟩
  · rw [hmigrate] at h
    cases h
  · rw [hmigrate] at h
    change (loadIndex base keys disk' >>= fun keys =>
      .ok (ApiKeyManager.ensureBootstrapKey ⟨base, keys⟩ H disk' draw start)) = .ok r at h
    rcases hload : loadIndex base keys disk' with e | T
    · rw [hload] at h
      cases h
    · exact ⟨keys, disk', T, rfl, hload⟩

theorem eq_of_migrateLegacyIndex {keys : KeyTable} {disk' : Disk}
    (hown : (disk base).load = .error .attribute)
    (h : migrateLegacyIndex home base disk = .ok (keys, disk')) : disk' = disk := by
  unfold migrateLegacyIndex at h
  split_ifs at h
  · cases h
    rfl
  · rcases htry : (disk home).tryLoad with e | (_ | l)
    · rw [htry] at h
      cases h
    · rw [htry] at h
      cases h
      rfl
    · rw [htry, IndexFile.tryLoad_of_attribute hown] at h
      cases h

theorem legible_of_construct {r : Option CreatedKey × ApiKeyManager × Disk}
    (h : construct H home base disk draw start = .ok r) : Legible home base disk := by
  obtain ⟨keys, disk', T, hmigrate, hload⟩ := construct_eq_ok h
  have hown : (disk base).load ≠ .error .attribute := fun hown => by
    rw [eq_of_migrateLegacyIndex hown hmigrate, loadIndex, hown] at hload
    cases hload
  have hlegacy : home ≠ base → (disk home).load ≠ .error .attribute := fun hne hlegacy => by
    have hskip : ¬(home = base ∨ disk home = .missing) := by
      rintro (h | h)
      · exact hne h
      · rw [h] at hlegacy
        cases hlegacy
    rw [migrateLegacyIndex, if_neg hskip, IndexFile.tryLoad_of_attribute hlegacy] at hmigrate
    cases hmigrate
  refine ⟨hlegacy, hown, fun htype => by_contra fun hno => ?_⟩
  rw [migrateLegacyIndex_of_not hlegacy hown hno] at hmigrate
  cases hmigrate
  rw [loadIndex, htype] at hload
  cases hload

/-! ### Which keys stay usable -/

/-- The raw keys of the stored entries are those that the first entries of the own index accept. -/
def OwnIndexDecides (H : Hashing) (home base : Str) (disk : Disk) (revoked : List Str) (now : ℤ) :
    Prop :=
  ∀ c ∈ storedKeys home base disk revoked, ∀ k, c.Usable H now k →
    ∃ d, (tableOf (disk base).entries).rows.find? (fun d => H.verifyKey k d.keyHash) = some d ∧
      d.expired now = false

theorem usable_of_find {d : ApiKeyConfig}
    (hfind : (tableOf (disk base).entries).rows.find? (fun d => H.verifyKey k d.keyHash) = some d)
    (hd : d.expired now = false) : ∃ c ∈ storedKeys home base disk revoked, c.Usable H now k :=
  ⟨d, List.mem_append_left _ (mem_of_mem_tableOf (List.mem_of_find?_eq_some hfind)),
    (List.find?_some hfind :), hd⟩

theorem storedKeys_eq_nil (h : ¬Migrates home base disk)
    (hown : (tableOf (disk base).entries).rows = []) : storedKeys home base disk revoked = [] := by
  have hnone : (disk base).entries = [] := by
    refine List.eq_nil_iff_forall_not_mem.mpr fun c hc => ?_
    have hmem := mem_keys_tableOf.mpr (List.mem_map_of_mem (f := ApiKeyConfig.id) hc)
    rw [hown] at hmem
    exact List.not_mem_nil hmem
  have hlegacy : (disk home).entries = [] := by
    by_cases hne : home = base
    · rw [hne, hnone]
    · refine List.eq_nil_iff_forall_not_mem.mpr fun c hc => h ⟨hne, c, hc, ?_⟩
      rw [hnone]
      exact List.not_mem_nil
  rw [storedKeys, hnone, hlegacy]
  rfl

theorem keepsKeys_of_not_migrates (hl : Legible home base disk) (h : ¬Migrates home base disk) :
    KeepsKeys H home base disk revoked draw start now ↔
      OwnIndexDecides H home base disk revoked now := by
  have hconstruct : construct H home base disk draw start = _ := construct_of_not_migrates hl h
  by_cases hown : (tableOf (disk base).entries).rows = []
  · have hstored : storedKeys home base disk revoked = [] := storedKeys_eq_nil h hown
    have hdecides : OwnIndexDecides H home base disk revoked now := by
      intro c hc
      rw [hstored] at hc
      exact absurd hc List.not_mem_nil
    rw [ApiKeyManager.ensureBootstrapKey, if_neg (not_not.mpr hown)] at hconstruct
    refine iff_of_true ⟨_, _, _, hconstruct, fun k hk => ?_⟩ hdecides
    rw [hstored]
    refine iff_of_false (ApiKeyManager.not_accepts fun c hc => ?_) ?_
    · rcases Table.mem_upsert.mp hc with rfl | ⟨hc, -⟩
      · exact hk rfl
      · rw [hown] at hc
        exact absurd hc List.not_mem_nil
    · rintro ⟨c, hc, -⟩
      exact List.not_mem_nil hc
  · rw [ApiKeyManager.ensureBootstrapKey, if_pos hown] at hconstruct
    constructor
    · rintro ⟨issued, m, disk', hm, hkeep⟩ c hc k hk
      rw [hconstruct] at hm
      cases hm
      exact ApiKeyManager.accepts_iff.mp
        ((hkeep k fun h => absurd h Bool.false_ne_true).mpr ⟨c, hc, hk⟩)
    · refine fun hdecides => ⟨_, _, _, hconstruct, fun k _ => ?_⟩
      rw [ApiKeyManager.accepts_iff]
      constructor
      · rintro ⟨d, hfind, hd⟩
        exact usable_of_find hfind hd
      · rintro ⟨c, hc, hk⟩
        exact hdecides c hc k hk

theorem keepsKeys_of_migrates (hl : Legible home base disk) (h : Migrates home base disk) :
    KeepsKeys H home base disk revoked draw start now ↔
      ∀ c ∈ storedKeys home base disk revoked, ¬(c.expired now = false ∧ c.HasKey H) := by
  obtain ⟨m, disk', hconstruct, hhash⟩ : ∃ m disk',
      construct H home base disk draw start = .ok (none, m, disk') ∧
        ∀ c ∈ m.keys.rows, c.keyHash = [] := construct_of_migrates hl h
  have hnone : ∀ k, ¬m.Accepts H disk' now k := fun k =>
    ApiKeyManager.not_accepts fun c hc => by rw [hhash c hc, H.verifyKey_nil]
  constructor
  · rintro ⟨issued, m', disk'', hm, hkeep⟩ c hc ⟨hexp, k, hk⟩
    rw [hconstruct] at hm
    cases hm
    exact hnone k ((hkeep k fun h => absurd h Bool.false_ne_true).mpr ⟨c, hc, hk, hexp⟩)
  · refine fun hstored => ⟨none, m, disk', hconstruct, fun k _ => iff_of_false (hnone k) ?_⟩
    rintro ⟨c, hc, hk, hexp⟩
    exact hstored c hc ⟨hexp, k, hk⟩

def plainHash : Hashing := ⟨fun key _ _ => key, fun key => key⟩

def keyRow (id keyHash : Str) : KeyRow where
  id := some id
  name := none
  keyPrefix := none
  keyHash := some keyHash
  permissions := none
  allowedAgentIds := none
  ipWhitelist := none
  createdAt := none
  expiresAt := none
  lastUsedAt := none

/-- A key of the own index, and one of the legacy index that was revoked. -/
def twoIndexes : Disk := fun dir =>
  if dir = "/home" then .elements ([keyRow "a1" "fk-old"].map some)
  else .elements ([keyRow "b2" "fk-live"].map some)

end AgentStudio.Auth

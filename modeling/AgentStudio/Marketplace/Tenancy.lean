import AgentStudio.Library.Machine
import AgentStudio.Marketplace.Listings
import Mathlib.Data.List.Dedup

/-!
# What tenants do to each other's listings

A listing should be changed and removed by its tenant only (`Guards`, where the number of downloads
does not count), the answer to a tenant should not depend on the private listings of others
(`Hides`), what is imported should not become more visible than it is (`Narrow`), and the tenant of
a listing should be able to install it (`Market.Installable`).

`publish` replaces whatever listing has the identifier and takes a signature that it is given,
`unpublish` asks only whether the listing is visible, `list_categories` does not ask who calls, and
`import_agent` publishes for everyone. `lawful_iff_considerate` says that nothing else is wrong.
-/

namespace AgentStudio.Marketplace

open PyText PyJson Rows Machine

/-! ### The law -/

/-- A listing is another up to the number of downloads. -/
def MarketEntry.Same (e e' : MarketEntry) : Prop := { e with downloads := e'.downloads } = e'

def Market.seenBy (s : Market) (tenant : Str) : Market :=
  { s with index := s.index.select fun e => e.visible tenant }

section

variable (library : Library)

/-- A call leaves the listings of other tenants as they are. -/
def Guards (c : Call) (s : Market) : Prop :=
  ∀ e ∈ s.index.rows, e.tenant ≠ c.tenant →
    ∃ e' ∈ (call library c s).2.index.find e.id, e'.Same e

/-- The answer to a call does not depend on the private listings of other tenants. -/
def Hides (c : Call) (s : Market) : Prop :=
  (call library c s).1 = (call library c (s.seenBy c.tenant)).1

/-- An agent that is imported is private if the listing that it replaces is, and if the one that it
was exported from was. -/
def Narrow (c : Call) (s : Market) : Prop :=
  match c with
  | .importAgent path tenant fresh now =>
    ∀ e, (call library (.importAgent path tenant fresh now) s).1 = .entry (some e) →
      (∀ e' ∈ s.index.find e.id, e'.visibility = "private" →
        e.visibility = "private") ∧
      ∀ dir ∈ s.dirs path, ∀ e' ∈ dir.origin, e'.visibility = "private" →
        e.visibility = "private"
  | _ => True

/-- All tenants can install their listings. -/
def Market.Installable (s : Market) : Prop :=
  ∀ e ∈ s.index.rows, ∀ targetDir, ((s.install library e.id targetDir e.tenant).1).isSome

def reached (calls : List Call) : Market := (run (call library) calls .empty).2

structure Lawful (calls : List Call) : Prop where
  guards : Along (call library) (Guards library) calls .empty
  hides : Along (call library) (Hides library) calls .empty
  narrow : Along (call library) (Narrow library) calls .empty
  installable : ∀ n, (reached library (calls.take n)).Installable library

/-! ### When it holds -/

/-- A listing that is written replaces one of the same tenant, or one that is the same. -/
def Market.Takes (s : Market) (entry : MarketEntry) (tenant : Str) : Prop :=
  ∀ e ∈ s.index.find entry.id, e.tenant = tenant ∨ entry.Same e

/-- The listing that a call of `import_agent` makes. -/
def Market.imported (s : Market) (path fresh : Str) (now : ℤ) : Option MarketEntry :=
  (s.importAgent library path fresh now).1

def Considerate (c : Call) (s : Market) : Prop :=
  match c with
  | .publish entry tenant fresh now => s.Takes (entry.stamp library tenant fresh now) tenant ∧
      (entry.sha256 = [] ∨ entry.sha256 = computeSignature library entry.graphData)
  | .unpublish entryId tenant =>
    ∀ e ∈ s.index.find entryId, e.visible tenant = true → e.tenant = tenant
  | .listCategories tenant =>
    ∀ e ∈ s.index.rows, e.category ≠ [] →
      ∃ e' ∈ s.index.rows, e'.visible tenant = true ∧ e'.category = e.category
  | .importAgent path tenant fresh now =>
    (∀ e ∈ s.imported library path fresh now, s.Takes e tenant ∧
      ∀ e' ∈ s.index.find e.id, e'.visibility ≠ "private") ∧
    ∀ dir ∈ s.dirs path, dir.manifest.isSome →
      ∀ e' ∈ dir.origin, e'.visibility ≠ "private"
  | _ => True

end

/-! ### Listings -/

section

variable {library : Library} {s : Market} {entry e : MarketEntry} {entryId tenant fresh : Str}
  {now : ℤ}

theorem MarketEntry.same_refl (e : MarketEntry) : e.Same e := rfl

theorem MarketEntry.visible_tenant (e : MarketEntry) : e.visible e.tenant = true := by
  unfold MarketEntry.visible
  split_ifs
  · rfl
  · exact decide_eq_true rfl

theorem get_eq_some_iff :
    s.get entryId tenant = some e ↔ s.index.find entryId = some e ∧ e.visible tenant = true :=
  Option.filter_eq_some_iff

@[simp] theorem get_seenBy : (s.seenBy tenant).get entryId tenant = s.get entryId tenant := by
  rw [Market.get, Market.seenBy, Table.find_select, Option.filter_filter, Market.get]
  simp only [Bool.and_self]

/-- The signature of a listing is the one that `install` computes, or it has none. -/
def MarketEntry.Signed (library : Library) (e : MarketEntry) : Prop :=
  e.sha256 = [] ∨ e.sha256 = computeSignature library e.graphData

theorem installable_iff :
    s.Installable library ↔ ∀ e ∈ s.index.rows, e.Signed library := by
  refine forall₂_congr fun e he => ?_
  have hget : s.get e.id e.tenant = some e :=
    get_eq_some_iff.mpr ⟨Table.find_eq_some_iff.mpr ⟨he, rfl⟩, e.visible_tenant⟩
  have hinstall : ∀ targetDir, ((s.install library e.id targetDir e.tenant).1).isSome ↔
      e.Signed library := by
    intro targetDir
    unfold Market.install Market.exportAgent MarketEntry.Signed
    rw [hget]
    dsimp only
    split_ifs with hrefused
    · exact iff_of_false Bool.false_ne_true fun h => h.elim hrefused.1 hrefused.2
    · exact iff_of_true rfl (or_iff_not_imp_left.mpr fun h => by_contra fun h' => hrefused ⟨h, h'⟩)
  exact ⟨fun h => (hinstall []).mp (h []), fun h targetDir => (hinstall targetDir).mpr h⟩

theorem signed_stamp_iff : (entry.stamp library tenant fresh now).Signed library ↔
    (entry.sha256 = [] ∨ entry.sha256 = computeSignature library entry.graphData) := by
  unfold MarketEntry.Signed MarketEntry.stamp textOr
  dsimp only
  split_ifs with h
  · exact iff_of_true (Or.inr rfl) (Or.inl h)
  · exact Iff.rfl

/-- Writing a listing leaves those of other tenants as they are exactly if it takes the place of
none of them. -/
theorem guards_put_iff : (∀ e ∈ s.index.rows, e.tenant ≠ tenant →
      ∃ e' ∈ (s.put entry).index.find e.id, e'.Same e) ↔ s.Takes entry tenant := by
  constructor
  · intro h e he
    obtain ⟨hmem, hid⟩ := Table.find_eq_some_iff.mp he
    by_cases ht : e.tenant = tenant
    · exact Or.inl ht
    · obtain ⟨e', he', hsame⟩ := h e hmem ht
      rw [hid, Market.put, Table.find_upsert_self] at he'
      exact Or.inr (Option.some.inj he' ▸ hsame)
  · intro h e he ht
    by_cases hid : e.id = entry.id
    · refine ⟨entry, ?_, (h e (Table.find_eq_some_iff.mpr ⟨he, hid⟩)).resolve_left ht⟩
      rw [hid]
      exact Table.find_upsert_self
    · exact ⟨e, (Table.find_upsert_of_ne hid).trans (Table.find_eq_some_iff.mpr ⟨he, rfl⟩),
        e.same_refl⟩

theorem signed_put_iff (hs : ∀ e ∈ s.index.rows, e.Signed library) :
    (∀ e ∈ (s.put entry).index.rows, e.Signed library) ↔ entry.Signed library := by
  constructor
  · exact fun h => h entry (Table.mem_upsert.mpr (Or.inl rfl))
  · intro h e he
    rcases Table.mem_upsert.mp he with rfl | ⟨he, -⟩
    · exact h
    · exact hs e he

theorem guards_of_index_eq {c : Call} (h : (call library c s).2.index = s.index) :
    Guards library c s := by
  intro e he _
  rw [h]
  exact ⟨e, Table.find_eq_some_iff.mpr ⟨he, rfl⟩, e.same_refl⟩

/-! ### Categories -/

theorem mem_listCategories {category : Str} : category ∈ s.listCategories ↔
    category ≠ [] ∧ ∃ e ∈ s.index.rows, e.category = category := by
  rw [Market.listCategories, List.mem_insertionSort, List.mem_dedup, List.mem_filter,
    List.mem_map, decide_eq_true_eq, and_comm]

theorem listCategories_eq {s' : Market}
    (h : ∀ category, category ∈ s.listCategories ↔ category ∈ s'.listCategories) :
    s.listCategories = s'.listCategories := by
  have _ : Std.Total fun a b : Str => textLE a b = true := ⟨textLE_total⟩
  have _ : IsTrans Str fun a b => textLE a b = true := ⟨fun _ _ _ => textLE_trans⟩
  have hnodup : ∀ s : Market, s.listCategories.Nodup := fun s =>
    (List.perm_insertionSort _ _).nodup_iff.mpr (List.nodup_dedup _)
  refine List.Perm.eq_of_pairwise (fun a b _ _ hab hba => textLE_antisymm hab hba)
    (List.pairwise_insertionSort _ _) (List.pairwise_insertionSort _ _) ?_
  exact (List.perm_ext_iff_of_nodup (hnodup s) (hnodup s')).mpr h

theorem hides_listCategories_iff :
    Hides library (.listCategories tenant) s ↔ Considerate library (.listCategories tenant) s := by
  have hseen : ∀ category, category ∈ (s.seenBy tenant).listCategories ↔
      category ≠ [] ∧ ∃ e ∈ s.index.rows, e.visible tenant = true ∧ e.category = category := by
    intro category
    rw [mem_listCategories, Market.seenBy, Table.rows_select]
    simp only [List.mem_filter, and_assoc]
  constructor
  · intro h e he hne
    have hanswer : s.listCategories = (s.seenBy tenant).listCategories := Answer.categories.inj h
    have hmem : e.category ∈ s.listCategories := mem_listCategories.mpr ⟨hne, e, he, rfl⟩
    rw [hanswer] at hmem
    exact ((hseen _).mp hmem).2
  · intro h
    refine congrArg Answer.categories (listCategories_eq fun category => ?_)
    refine mem_listCategories.trans (Iff.trans ?_ (hseen category).symm)
    refine and_congr_right fun hne => ⟨?_, fun ⟨e, he, _, hcat⟩ => ⟨e, he, hcat⟩⟩
    rintro ⟨e, he, rfl⟩
    exact h e he hne

/-! ### Calls -/

structure Keeps (library : Library) (c : Call) (s : Market) : Prop where
  guards : Guards library c s
  hides : Hides library c s
  narrow : Narrow library c s
  signed : ∀ e ∈ (call library c s).2.index.rows, e.Signed library

theorem hides_unpublish : Hides library (.unpublish entryId tenant) s := by
  refine congrArg Answer.unpublished ?_
  change (s.unpublish entryId tenant).1 = ((s.seenBy tenant).unpublish entryId tenant).1
  unfold Market.unpublish
  have hfind : (s.seenBy tenant).index.find entryId = s.get entryId tenant := Table.find_select
  rw [hfind, Market.get]
  cases s.index.find entryId with
  | none => rfl
  | some e =>
    by_cases hvisible : e.visible tenant = true
    · rw [Option.filter_some, if_pos hvisible]
      simp only [if_pos hvisible]
    · rw [Option.filter_some, if_neg hvisible]
      simp only [if_neg hvisible]

theorem guards_unpublish_iff : Guards library (.unpublish entryId tenant) s ↔
    Considerate library (.unpublish entryId tenant) s := by
  constructor
  · intro h e he hvisible
    obtain ⟨hmem, hid⟩ := Table.find_eq_some_iff.mp he
    by_contra hne
    obtain ⟨e', he', -⟩ := h e hmem hne
    have hindex : (call library (.unpublish entryId tenant) s).2.index =
        s.index.select fun e => e.id ≠ entryId := by
      change (s.unpublish entryId tenant).2.index = _
      rw [Market.unpublish, he]
      simp only [if_pos hvisible]
    rw [hindex, hid, Table.find_select, he, Option.filter_some, if_neg (by simp [hid])] at he'
    exact Option.not_mem_none e' he'
  · intro h e he hne
    refine ⟨e, ?_, e.same_refl⟩
    change (s.unpublish entryId tenant).2.index.find e.id = some e
    have hfind : s.index.find e.id = some e := Table.find_eq_some_iff.mpr ⟨he, rfl⟩
    unfold Market.unpublish
    cases hx : s.index.find entryId with
    | none => exact hfind
    | some x =>
      dsimp only
      split_ifs with hvisible
      · have hid : e.id ≠ entryId := by
          rintro rfl
          rw [hfind] at hx
          obtain rfl := Option.some.inj hx
          exact hne (h e hfind hvisible)
        refine Table.find_select.trans ?_
        rw [hfind, Option.filter_some, if_pos (decide_eq_true hid)]
      · exact hfind

theorem signed_unpublish (hs : ∀ e ∈ s.index.rows, e.Signed library) :
    ∀ e ∈ (s.unpublish entryId tenant).2.index.rows, e.Signed library := by
  unfold Market.unpublish
  cases s.index.find entryId with
  | none => exact hs
  | some x =>
    dsimp only
    split_ifs
    · exact fun e he => hs e (List.mem_filter.mp he).1
    · exact hs

theorem imported_eq {path : Str} (he : e ∈ s.imported library path fresh now) :
    e.visibility = "public" ∧ e.Signed library ∧ (∃ dir ∈ s.dirs path, dir.manifest.isSome) ∧
      (s.importAgent library path fresh now).2 = s.put e := by
  have hanswer : (s.importAgent library path fresh now).1 = some e := he
  unfold Market.importAgent at hanswer ⊢
  cases hentry : (s.dirs path).bind fun dir => dir.entry path fresh with
  | none =>
    rw [hentry] at hanswer
    exact absurd hanswer.symm (Option.some_ne_none e)
  | some entry =>
    rw [hentry] at hanswer
    obtain rfl := Option.some.inj hanswer
    obtain ⟨dir, hdir, hentry⟩ := Option.bind_eq_some_iff.mp hentry
    obtain ⟨m, hm, rfl⟩ := Option.map_eq_some_iff.mp hentry
    exact ⟨rfl, signed_stamp_iff.mpr (Or.inl rfl), ⟨dir, hdir, hm ▸ rfl⟩, rfl⟩

theorem importAgent_of_none {path : Str} (h : s.imported library path fresh now = none) :
    (s.importAgent library path fresh now).2 = s ∧
      ∀ dir ∈ s.dirs path, dir.manifest.isSome = false := by
  have hanswer : (s.importAgent library path fresh now).1 = none := h
  unfold Market.importAgent at hanswer ⊢
  cases hentry : (s.dirs path).bind fun dir => dir.entry path fresh with
  | some entry =>
    rw [hentry] at hanswer
    exact absurd hanswer (Option.some_ne_none _)
  | none =>
    refine ⟨rfl, fun dir hdir => ?_⟩
    have hnone := Option.bind_eq_none_iff.mp hentry dir hdir
    rw [Option.map_eq_none_iff.mp hnone]
    rfl

theorem hides_importAgent {path : Str} :
    Hides library (.importAgent path tenant fresh now) s := by
  refine congrArg Answer.entry ?_
  change (s.importAgent library path fresh now).1 =
    ((s.seenBy tenant).importAgent library path fresh now).1
  have hdirs : (s.seenBy tenant).dirs = s.dirs := rfl
  unfold Market.importAgent
  rw [hdirs]
  cases (s.dirs path).bind fun dir => dir.entry path fresh <;> rfl

theorem keeps_importAgent_iff (hs : ∀ e ∈ s.index.rows, e.Signed library) {path : Str} :
    Keeps library (.importAgent path tenant fresh now) s ↔
      Considerate library (.importAgent path tenant fresh now) s := by
  cases himported : s.imported library path fresh now with
  | none =>
    obtain ⟨hsame, hmanifest⟩ := importAgent_of_none himported
    refine iff_of_true ⟨guards_of_index_eq (congrArg Market.index hsame), hides_importAgent, ?_, ?_⟩
      ⟨?_, ?_⟩
    · intro e he
      exact absurd (himported.symm.trans (Answer.entry.inj he)) (Option.some_ne_none e).symm
    · change ∀ e ∈ (s.importAgent library path fresh now).2.index.rows, e.Signed library
      rw [hsame]
      exact hs
    · rw [himported]
      exact fun e he => absurd he (Option.not_mem_none e)
    · intro dir hdir hsome
      exact absurd ((hmanifest dir hdir).symm.trans hsome) Bool.false_ne_true
  | some e =>
    obtain ⟨hpublic, hsigned, ⟨dir, hdir, hmanifest⟩, heq⟩ := imported_eq himported
    have hnot : e.visibility ≠ "private" := by
      rw [hpublic]
      decide
    constructor
    · intro h
      have hnarrow := h.narrow e (congrArg Answer.entry himported)
      refine ⟨fun e' he' => ?_, fun dir' hdir' _ o ho hprivate =>
        hnot (hnarrow.2 dir' hdir' o ho hprivate)⟩
      rw [himported] at he'
      obtain rfl := Option.some.inj he'
      refine ⟨?_, fun x hx hprivate => hnot (hnarrow.1 x hx hprivate)⟩
      have hguards := h.guards
      unfold Guards at hguards
      change ∀ x ∈ s.index.rows, x.tenant ≠ tenant →
        ∃ x' ∈ (s.importAgent library path fresh now).2.index.find x.id, x'.Same x at hguards
      rw [heq] at hguards
      exact guards_put_iff.mp hguards
    · rintro ⟨himport, horigin⟩
      obtain ⟨htakes, hold⟩ := himport e himported
      refine ⟨?_, hides_importAgent, fun e' he' => ?_, ?_⟩
      · change ∀ x ∈ s.index.rows, x.tenant ≠ tenant →
          ∃ x' ∈ (s.importAgent library path fresh now).2.index.find x.id, x'.Same x
        rw [heq]
        exact guards_put_iff.mpr htakes
      · obtain rfl : e = e' := Option.some.inj (himported.symm.trans (Answer.entry.inj he'))
        refine ⟨fun x hx hprivate => absurd hprivate (hold x hx), ?_⟩
        intro dir' hdir' o ho hprivate
        obtain rfl : dir = dir' := Option.some.inj (hdir.symm.trans hdir')
        exact absurd hprivate (horigin dir hdir hmanifest o ho)
      · change ∀ e ∈ (s.importAgent library path fresh now).2.index.rows, e.Signed library
        rw [heq]
        exact (signed_put_iff hs).mpr hsigned

theorem keeps_publish_iff (hs : ∀ e ∈ s.index.rows, e.Signed library) :
    Keeps library (.publish entry tenant fresh now) s ↔
      Considerate library (.publish entry tenant fresh now) s := by
  have hguards : Guards library (.publish entry tenant fresh now) s ↔
      s.Takes (entry.stamp library tenant fresh now) tenant := guards_put_iff
  have hsigned : (∀ e ∈ (call library (.publish entry tenant fresh now) s).2.index.rows,
      e.Signed library) ↔ (entry.stamp library tenant fresh now).Signed library :=
    signed_put_iff hs
  constructor
  · intro h
    exact ⟨hguards.mp h.guards, signed_stamp_iff.mp (hsigned.mp h.signed)⟩
  · rintro ⟨htakes, hsign⟩
    exact ⟨hguards.mpr htakes, rfl, trivial, hsigned.mpr (signed_stamp_iff.mpr hsign)⟩

theorem exportAgent_index {outputDir : Str} :
    (s.exportAgent entryId outputDir tenant).2.index = s.index := by
  unfold Market.exportAgent
  cases s.get entryId tenant <;> rfl

theorem exportAgent_seenBy {outputDir : Str} :
    ((s.seenBy tenant).exportAgent entryId outputDir tenant).1 =
      (s.exportAgent entryId outputDir tenant).1 := by
  unfold Market.exportAgent
  rw [get_seenBy]
  cases s.get entryId tenant <;> rfl

variable (library s) in
theorem install_cases (entryId targetDir tenant : Str) :
    (s.install library entryId targetDir tenant).2.index = s.index ∨
      ∃ e, s.get entryId tenant = some e ∧ (s.install library entryId targetDir tenant).2.index =
        (s.put { e with downloads := e.downloads + 1 }).index := by
  unfold Market.install
  cases hget : s.get entryId tenant with
  | none => exact Or.inl rfl
  | some e =>
    dsimp only
    split_ifs with hrefused
    · exact Or.inl rfl
    · refine Or.inr ⟨e, rfl, ?_⟩
      change (s.exportAgent entryId _ tenant).2.index.upsert _ = s.index.upsert _
      rw [exportAgent_index]

theorem keeps_install (hs : ∀ e ∈ s.index.rows, e.Signed library) {targetDir : Str} :
    Keeps library (.install entryId targetDir tenant) s := by
  have hhides : Hides library (.install entryId targetDir tenant) s := by
    refine congrArg Answer.path ?_
    change (s.install library entryId targetDir tenant).1 =
      ((s.seenBy tenant).install library entryId targetDir tenant).1
    unfold Market.install
    rw [get_seenBy]
    cases s.get entryId tenant with
    | none => rfl
    | some e =>
      dsimp only
      split_ifs
      · rfl
      · exact exportAgent_seenBy.symm
  rcases install_cases library s entryId targetDir tenant with hindex | ⟨e, hget, hindex⟩
  · refine ⟨guards_of_index_eq hindex, hhides, trivial, ?_⟩
    change ∀ e ∈ (s.install library entryId targetDir tenant).2.index.rows, e.Signed library
    rw [hindex]
    exact hs
  · obtain ⟨hfind, -⟩ := get_eq_some_iff.mp hget
    have htakes : s.Takes { e with downloads := e.downloads + 1 } tenant := by
      intro e' he'
      have hid : e.id = entryId := (Table.find_eq_some_iff.mp hfind).2
      obtain rfl : e = e' := Option.some.inj (hfind.symm.trans (hid ▸ he'))
      exact Or.inr rfl
    refine ⟨fun x hx hne => ?_, hhides, trivial, ?_⟩
    · change ∃ e' ∈ (s.install library entryId targetDir tenant).2.index.find x.id, e'.Same x
      rw [hindex]
      exact guards_put_iff.mpr htakes x hx hne
    · change ∀ e ∈ (s.install library entryId targetDir tenant).2.index.rows, e.Signed library
      rw [hindex]
      exact (signed_put_iff hs).mpr (hs e (Table.find_eq_some_iff.mp hfind).1)

theorem keeps_iff (hs : ∀ e ∈ s.index.rows, e.Signed library) (c : Call) :
    Keeps library c s ↔ Considerate library c s := by
  cases c with
  | publish entry tenant fresh now => exact keeps_publish_iff hs
  | unpublish entryId tenant =>
    rw [← guards_unpublish_iff]
    exact ⟨fun h => h.guards, fun h => ⟨h, hides_unpublish, trivial, signed_unpublish hs⟩⟩
  | get entryId tenant =>
    refine iff_of_true ⟨guards_of_index_eq rfl, ?_, trivial, hs⟩ trivial
    exact congrArg Answer.entry get_seenBy.symm
  | search query category tags sortBy limit tenant =>
    refine iff_of_true ⟨guards_of_index_eq rfl, congrArg Answer.entries ?_, trivial, hs⟩ trivial
    change s.search library query category tags sortBy limit tenant =
      (s.seenBy tenant).search library query category tags sortBy limit tenant
    unfold Market.search Market.seenBy
    rw [Table.rows_select, List.filter_filter (l := s.index.rows)]
    simp only [Bool.and_self]
  | listCategories tenant =>
    rw [← hides_listCategories_iff]
    exact ⟨fun h => h.hides, fun h => ⟨guards_of_index_eq rfl, h, trivial, hs⟩⟩
  | exportAgent entryId outputDir tenant =>
    refine iff_of_true ⟨guards_of_index_eq exportAgent_index, ?_, trivial, ?_⟩ trivial
    · exact congrArg Answer.path exportAgent_seenBy.symm
    · change ∀ e ∈ (s.exportAgent entryId outputDir tenant).2.index.rows, e.Signed library
      rw [exportAgent_index]
      exact hs
  | importAgent path tenant fresh now => exact keeps_importAgent_iff hs
  | install entryId targetDir tenant => exact iff_of_true (keeps_install hs) trivial
  | place path manifest graph tenant =>
    exact iff_of_true ⟨guards_of_index_eq rfl, rfl, trivial, hs⟩ trivial

end

/-- In every run, the law is kept exactly if every call meets the condition. -/
theorem lawful_iff_considerate (library : Library) (calls : List Call) :
    Lawful library calls ↔ Along (call library) (Considerate library) calls .empty := by
  have hempty : Market.empty.Installable library := List.forall_mem_nil _
  have hstep : ∀ c s, s.Installable library →
      ((Guards library c s ∧ Hides library c s ∧ Narrow library c s ∧
        (call library c s).2.Installable library) ↔ Considerate library c s) := by
    intro c s hs
    rw [← keeps_iff (installable_iff.mp hs), installable_iff]
    exact ⟨fun ⟨hg, hh, hn, hi⟩ => ⟨hg, hh, hn, hi⟩, fun ⟨hg, hh, hn, hi⟩ => ⟨hg, hh, hn, hi⟩⟩
  rw [← along_iff (fun c s hs hc => ((hstep c s hs).mpr hc).2.2.2) hstep calls hempty, along_and,
    along_and, along_and]
  have hthroughout : (∀ n, (reached library (calls.take n)).Installable library) ↔ _ :=
    throughout_iff_along calls Market.empty
  constructor
  · rintro ⟨hguards, hhides, hnarrow, hinstallable⟩
    exact ⟨hguards, hhides, hnarrow, (hthroughout.mp hinstallable).2⟩
  · rintro ⟨hguards, hhides, hnarrow, hinstallable⟩
    exact ⟨hguards, hhides, hnarrow, hthroughout.mpr ⟨hempty, hinstallable⟩⟩

def helper : MarketEntry :=
  ⟨"m1", "helper", [], [], [], [], "1.0.0", .obj [], 0, 0, 0, 0, [],
    "default", "public"⟩

/-- A tenant removes the public listing of another. -/
theorem listing_removed : ¬ ∀ (library : Library) (calls : List Call), Lawful library calls := by
  intro hall
  have hguards := (hall ⟨id, id⟩ [.publish helper "a" [] 1,
    .unpublish "m1" "b"]).guards.2.1
  obtain ⟨e, he, -⟩ := hguards (helper.stamp ⟨id, id⟩ "a" [] 1) (List.mem_singleton.mpr rfl)
    (by decide)
  exact Option.not_mem_none e he

end AgentStudio.Marketplace

import AgentStudio.Memory.Isolation

/-!
# Scopes and sweeps in the memory engine

Storing an entry compacts the table if it is full, and compaction goes through all scopes: it
demotes old entries, and it replaces three or more entries of a scope by a summary. `Spares` says,
of a table in which an entry has just been inserted, that compaction finds nothing to do in the
scopes other than a given one, and `outside_maybeSummarize` that these are then left as they are
(`Engine.outside`).

It rests on the identifiers being distinct, as they are in a column that is a primary key
(`Engine.Keyed`, which every operation keeps: `keyed_operate`).

`sweep` deletes the entries that have decayed, and leaves those with the tags `"auto-summary"` alone
unless `include_summaries` is set. The summaries of an emergency compression have other tags, so
that they are swept; `sweepKeeps_iff` says when a sweep keeps what it promises (`SweepKeeps`).
-/

namespace AgentStudio.Memory

open PyText PyJson Machine

variable {cfg : Config} {s s' : Engine} {scope : Str} {now : ℕ}

def Engine.outside (s : Engine) (scope : Str) : List MemoryRow :=
  s.rows.filter (·.scope ≠ scope)

theorem outside_insert {e : NewEntry} (he : e.scope = scope) (sources : List Str) :
    (s.insert e now sources).outside scope = s.outside scope := by
  have hself : [e.row s.nextId now sources].filter (·.scope ≠ scope) = [] := by
    refine List.filter_eq_nil_iff.mpr fun r hr => ?_
    rw [List.mem_singleton.mp hr, decide_eq_true_eq, not_not]
    exact he
  change (s.rows ++ [e.row s.nextId now sources]).filter _ = _
  rw [List.filter_append, hself, List.append_nil]
  rfl

/-! ### Queries -/

variable {r : MemoryRow}

theorem scope_of_passes {f : Filters} (h : f.passes r = true) (hf : f.scope ≠ []) :
    r.scope = f.scope :=
  (of_decide_eq_true (of_decide_eq_true h).1).1.resolve_left hf

theorem scope_of_listRecent {f : Filters} (h : r ∈ s.listRecent f) (hf : f.scope ≠ []) :
    r.scope = f.scope := by
  have hr := (List.mem_insertionSort _).mp (mem_of_mem_sqlLimit h)
  exact scope_of_passes (List.mem_filter.mp hr).2 hf

theorem scope_of_recall {query : Str} {f : Filters} (h : r ∈ s.recall cfg query f)
    (hf : f.scope ≠ []) : r.scope = f.scope := by
  by_cases hquery : strip query = []
  · rw [Engine.recall, if_pos hquery] at h
    have hblank := scope_of_listRecent h
    exact hblank hf
  · rw [Engine.recall, if_neg hquery] at h
    have hr := (List.mem_insertionSort _).mp (mem_of_mem_sqlLimit h)
    exact scope_of_passes (of_decide_eq_true (List.mem_filter.mp hr).2).2 hf

theorem outside_deleteIds {ids : List ℕ} (h : ∀ r ∈ s.rows, r.id ∈ ids → r.scope = scope) :
    (s.deleteIds ids).outside scope = s.outside scope := by
  rw [Engine.outside, Engine.deleteIds, List.filter_filter]
  refine List.filter_congr fun r hr => ?_
  rw [Bool.and_eq_left_iff_imp]
  intro hscope
  rw [decide_eq_true_eq]
  exact fun hid => of_decide_eq_true hscope (h r hr hid)

/-! ### Identifiers -/

/-- The identifiers of the rows are distinct, and the counter is beyond them. -/
structure Engine.Keyed (s : Engine) : Prop where
  nodup : (s.rows.map MemoryRow.id).Nodup
  fresh : ∀ r ∈ s.rows, r.id < s.nextId

namespace Engine.Keyed

theorem eq_of_id (h : s.Keyed) {r r' : MemoryRow} (hr : r ∈ s.rows) (hr' : r' ∈ s.rows)
    (hid : r.id = r'.id) : r = r' :=
  List.inj_on_of_nodup_map h.nodup hr hr' hid

theorem filter (h : s.Keyed) (p : MemoryRow → Bool) :
    ({ s with rows := s.rows.filter p } : Engine).Keyed where
  nodup := (List.filter_sublist.map _).nodup h.nodup
  fresh r hr := h.fresh r (List.mem_of_mem_filter hr)

theorem insert (h : s.Keyed) (e : NewEntry) (now : ℕ) (sources : List Str) :
    (s.insert e now sources).Keyed where
  nodup := by
    change ((s.rows ++ [e.row s.nextId now sources]).map MemoryRow.id).Nodup
    rw [List.map_append]
    refine List.Nodup.append h.nodup (List.nodup_singleton _) ?_
    rw [List.map_singleton, List.disjoint_singleton]
    intro hmem
    obtain ⟨r, hr, hid⟩ := List.mem_map.mp hmem
    exact (h.fresh r hr).ne hid
  fresh r hr := by
    rcases mem_snoc.mp hr with hr | rfl
    · exact (h.fresh r hr).trans (Nat.lt_succ_self _)
    · exact Nat.lt_succ_self _

theorem map (h : s.Keyed) {f : MemoryRow → MemoryRow} (hf : ∀ r, (f r).id = r.id) :
    ({ s with rows := s.rows.map f } : Engine).Keyed where
  nodup := by
    have hid : MemoryRow.id ∘ f = MemoryRow.id := funext hf
    change ((s.rows.map f).map MemoryRow.id).Nodup
    rw [List.map_map, hid]
    exact h.nodup
  fresh r hr := by
    obtain ⟨x, hx, rfl⟩ := List.mem_map.mp hr
    rw [hf]
    exact h.fresh x hx

theorem insertSummary (h : s.Keyed) (group : List MemoryRow) (e : NewEntry) (now : ℕ) :
    (s.insertSummary cfg group e now).Keyed :=
  ⟨(h.insert _ now _).nodup, (h.insert _ now _).fresh⟩

theorem compacts {N : ℕ} (h : s.Keyed) (hcompacts : Compacts cfg N s s') : s'.Keyed := by
  induction hcompacts with
  | refl s => exact h
  | demoted hf =>
    refine h.map fun r => ?_
    rcases hf r with hfr | ⟨tier, hfr⟩ <;> rw [hfr]
  | summarized hgroup htenant hsummary => exact h.insertSummary _ _ _
  | deleted hids => exact h.filter _
  | trans h₁ h₂ ih₁ ih₂ => exact ih₂ (ih₁ h)

end Engine.Keyed

theorem keyed_operate (op : Op) (hs : s.Sound) (h : s.Keyed) : (operate cfg op s).2.Keyed := by
  cases op with
  | store e now =>
    have hcompacts : Compacts cfg _ _ _ := compacts_maybeSummarize now (hs.bounded_insert e now)
    exact (h.insert e now [e.tenantId]).compacts hcompacts
  | delete | deleteScope => exact h.filter _
  | compressScope scope tier now =>
    exact h.compacts (compacts_compressScope scope tier now hs.bounded)
  | sweep w =>
    change (if w.dryRun then s else s.deleteIds _ : Engine).Keyed
    split_ifs
    · exact h
    · exact h.filter _
  | «recall» | listRecent => exact ⟨h.nodup, h.fresh⟩

/-! ### Groups -/

/-- The first entries of a selection, in the order of their age. -/
def oldest (n : ℤ) (select : MemoryRow → Bool) (rows : List MemoryRow) : List MemoryRow :=
  sqlLimit n (byAge (rows.filter select))

/-- A group of three or more entries is replaced by its summary. -/
def Engine.compactGroup (cfg : Config) (now : ℕ) (group : List MemoryRow) (e : NewEntry)
    (s : Engine) : Engine :=
  if group.length < 3 then s else s.merge cfg group e now

theorem mem_of_mem_oldest {n : ℤ} {select : MemoryRow → Bool} {rows : List MemoryRow}
    (h : r ∈ oldest n select rows) : r ∈ rows ∧ select r = true :=
  List.mem_filter.mp (mem_byAge.mp (mem_of_mem_sqlLimit h))

theorem oldest_eq_of_outside {n : ℤ} {select : MemoryRow → Bool}
    (hselect : ∀ r, select r = true → r.scope ≠ scope) (h : s'.outside scope = s.outside scope) :
    oldest n select s'.rows = oldest n select s.rows := by
  have hfilter : ∀ rows : List MemoryRow,
      rows.filter select = (rows.filter (·.scope ≠ scope)).filter select := by
    intro rows
    rw [List.filter_filter]
    refine List.filter_congr fun r _ => ?_
    cases hr : select r with
    | false => rfl
    | true => exact (decide_eq_true (hselect r hr)).symm
  have h' : s'.rows.filter (·.scope ≠ scope) = s.rows.filter (·.scope ≠ scope) := h
  rw [oldest, oldest, hfilter, h', ← hfilter]

theorem outside_merge {group : List MemoryRow} {e : NewEntry} (hs : s.Keyed)
    (hgroup : ∀ r ∈ group, r ∈ s.rows ∧ r.scope = scope) (he : e.scope = scope) :
    (s.merge cfg group e now).outside scope = s.outside scope := by
  let summary : NewEntry := { e with content := cfg.summary (group.map MemoryRow.content) e.scope }
  have hinsert : (s.insertSummary cfg group e now).outside scope = s.outside scope :=
    outside_insert (s := s) (e := summary) he (group.flatMap MemoryRow.sources)
  refine (outside_deleteIds fun r hr hid => ?_).trans hinsert
  -- an entry of another scope has not the identifier of one in the group
  obtain ⟨r', hr', hid⟩ := List.mem_map.mp hid
  obtain ⟨hmem, hscope⟩ := hgroup r' hr'
  rcases mem_snoc.mp hr with hr | rfl
  · rw [← hs.eq_of_id hmem hr hid, hscope]
  · exact absurd hid (hs.fresh r' hmem).ne

/-- A loop through scopes that compacts a group in each, and finds none in the other scopes. -/
theorem outside_foldl {n : ℤ} {select : Str → MemoryRow → Bool}
    {e : Str → List MemoryRow → NewEntry} (hselect : ∀ x r, select x r = true → r.scope = x)
    (he : ∀ x group, (e x group).scope = x) (scopes : List Str) (hs : s.Keyed)
    (hscopes : ∀ x ∈ scopes, x ≠ scope → (oldest n (select x) s.rows).length < 3) :
    (scopes.foldl (fun s x => s.compactGroup cfg now (oldest n (select x) s.rows)
        (e x (oldest n (select x) s.rows))) s).outside scope = s.outside scope ∧
      (scopes.foldl (fun s x => s.compactGroup cfg now (oldest n (select x) s.rows)
        (e x (oldest n (select x) s.rows))) s).Keyed := by
  induction scopes generalizing s with
  | nil => exact ⟨rfl, hs⟩
  | cons x scopes ih =>
    rw [List.foldl_cons]
    have hstep : (s.compactGroup cfg now (oldest n (select x) s.rows)
        (e x (oldest n (select x) s.rows))).outside scope = s.outside scope ∧
          (s.compactGroup cfg now (oldest n (select x) s.rows)
            (e x (oldest n (select x) s.rows))).Keyed := by
      rw [Engine.compactGroup]
      split_ifs with hshort
      · exact ⟨rfl, hs⟩
      · have hx : x = scope := by
          by_contra hx
          exact hshort (hscopes x List.mem_cons_self hx)
        subst hx
        refine ⟨outside_merge hs (fun r hr => ?_) (he _ _), (hs.insertSummary _ _ _).filter _⟩
        exact (mem_of_mem_oldest hr).imp_right (hselect _ r)
    obtain ⟨houtside, hkeyed⟩ := ih hstep.2 fun y hy hne => by
      rw [oldest_eq_of_outside (fun r hr => (hselect y r hr).trans_ne hne) hstep.1]
      exact hscopes y (List.mem_cons_of_mem x hy) hne
    exact ⟨houtside.trans hstep.1, hkeyed⟩

/-! ### Compaction of a full table -/

/-- The entries of a tier that a summary of a scope may replace. -/
def summarizable (tierName : Str) (threshold : ℤ) (scope : Str) (r : MemoryRow) : Bool :=
  r.scope = scope ∧ r.tier = tierName ∧ r.isSummary = false ∧ r.importance < threshold

/-- The entries that a summary of a scope may replace in an emergency. -/
def compressible (scope : Str) (r : MemoryRow) : Bool :=
  r.scope = scope ∧ r.isSummary = false ∧ r.importance ≤ 3

/-- No entry of another scope is old enough and of too little importance for its tier. -/
def SparesDemotion (cfg : Config) (now : ℕ) (scope : Str) (s : Engine) : Prop :=
  ∀ name tier target targetTier, (name, tier) ∈ cfg.tiers → demotion name = some target →
    tier.maxAgeSeconds ≠ 0 → cfg.tiers.lookup target = some targetTier →
      ∀ r ∈ s.outside scope, r.old name tier.maxAgeSeconds now = true →
        targetTier.importanceThreshold ≤ r.importance

/-- If a tier has too many entries, none of the other scopes has three that are summarized. -/
def SparesTier (cfg : Config) (tierName scope : Str) (s : Engine) : Prop :=
  ∀ tier, cfg.tiers.lookup tierName = some tier →
    tier.maxEntries < (s.rows.filter fun r => r.tier = tierName ∧ r.isSummary = false).length →
      ∀ x ∈ crowdedScopes cfg.summaryBatch
          (s.rows.filter fun r => r.tier = tierName ∧ r.isSummary = false), x ≠ scope →
        (oldest cfg.summaryBatch (summarizable tierName tier.importanceThreshold x)
          s.rows).length < 3

/-- If the table is still full, none of the other scopes has three entries that are compressed. -/
def SparesEmergency (cfg : Config) (scope : Str) (s : Engine) : Prop :=
  cfg.maxEntries ≤ s.rows.length →
    ∀ x ∈ crowdedScopes 3 (s.rows.filter fun r => r.isSummary = false ∧ r.importance ≤ 3),
      x ≠ scope → (oldest cfg.summaryBatch (compressible x) s.rows).length < 3

/-- The table is not full, or there is nothing to be compacted in the other scopes: not by the
demotion, nor by the summaries of one tier and the other, nor in an emergency. -/
def Spares (cfg : Config) (now : ℕ) (scope : Str) (s : Engine) : Prop :=
  cfg.maxEntries ≤ s.rows.length →
    SparesDemotion cfg now scope s ∧
      ∀ s₁, demoteOldEntries cfg now cfg.tiers s = .ok s₁ →
        SparesTier cfg shortTerm scope s₁ ∧
          SparesTier cfg longTerm scope (summarizeTier cfg shortTerm now s₁) ∧
          SparesEmergency cfg scope
            (summarizeTier cfg longTerm now (summarizeTier cfg shortTerm now s₁))

private theorem outside_demote (tiers : List (Str × MemoryTier)) (htiers : tiers ⊆ cfg.tiers)
    (h : SparesDemotion cfg now scope s) :
    (leftBy (demoteOldEntries cfg now tiers s)).outside scope = s.outside scope := by
  induction tiers generalizing s with
  | nil => rfl
  | cons t tiers ih =>
    obtain ⟨name, tier⟩ := t
    have hrest := List.subset_of_cons_subset htiers
    rw [demoteOldEntries]
    split
    · exact ih hrest h
    next target htarget =>
      split_ifs with hold
      · exact ih hrest h
      · split
        · rfl
        next targetTier hlookup =>
          -- the entries that are demoted are of the scope itself
          have hstep : ({ s with
              rows := s.rows.map fun r =>
                if r.old name tier.maxAgeSeconds now ∧ r.importance < targetTier.importanceThreshold
                then { r with tier := target } else r } : Engine).outside scope =
              s.outside scope := by
            rw [Engine.outside, Engine.outside, List.filter_map]
            have hscope : ((fun r : MemoryRow => decide (r.scope ≠ scope)) ∘ fun r =>
                if r.old name tier.maxAgeSeconds now ∧ r.importance < targetTier.importanceThreshold
                then { r with tier := target } else r) = fun r => decide (r.scope ≠ scope) := by
              funext r
              rw [Function.comp_apply]
              split_ifs <;> rfl
            rw [hscope]
            refine (List.map_congr_left fun r hr => if_neg ?_).trans (List.map_id _)
            rintro ⟨hage, himportance⟩
            exact absurd (h name tier target targetTier (htiers List.mem_cons_self) htarget
              (fun hzero => hold (Or.inl hzero)) hlookup r hr hage) (not_le.mpr himportance)
          refine (ih hrest ?_).trans hstep
          intro name' tier' target' targetTier'
          rw [hstep]
          exact h name' tier' target' targetTier'

private theorem outside_summarizeTier {tierName : Str} (hs : s.Keyed)
    (h : SparesTier cfg tierName scope s) :
    (summarizeTier cfg tierName now s).outside scope = s.outside scope ∧
      (summarizeTier cfg tierName now s).Keyed := by
  rw [summarizeTier]
  split
  · exact ⟨rfl, hs⟩
  next tier htier =>
    dsimp only
    split_ifs with hmany
    · exact ⟨rfl, hs⟩
    · have hselect : ∀ x r, summarizable tierName tier.importanceThreshold x r = true →
          r.scope = x := fun _ _ hr => (of_decide_eq_true hr).1
      exact outside_foldl (e := tierSummary tierName) hselect (fun _ _ => rfl) _ hs
        (h tier htier (not_le.mp hmany))

private theorem outside_emergencyCompress (hs : s.Keyed) (h : SparesEmergency cfg scope s)
    (hfull : cfg.maxEntries ≤ s.rows.length) :
    (emergencyCompress cfg now s).outside scope = s.outside scope := by
  have hselect : ∀ x r, compressible x r = true → r.scope = x :=
    fun _ _ hr => (of_decide_eq_true hr).1
  exact (outside_foldl (e := emergencySummary) hselect (fun _ _ => rfl) _ hs (h hfull)).1

theorem outside_maybeSummarize (hs : s.Keyed) (h : Spares cfg now scope s) :
    (leftBy (maybeSummarize cfg now s)).outside scope = s.outside scope := by
  rw [maybeSummarize]
  split_ifs with hfull
  · rfl
  · obtain ⟨hdemotion, hrest⟩ := h (not_lt.mp hfull)
    have hdemoted := outside_demote cfg.tiers (List.Subset.refl _) hdemotion
    have hkeyed : (leftBy (demoteOldEntries cfg now cfg.tiers s)).Keyed :=
      hs.compacts (N := 0) (compacts_demote now cfg.tiers s)
    split
    next s₁ hs₁ =>
      rw [hs₁] at hdemoted
      exact hdemoted
    next s₁ hs₁ =>
      rw [hs₁] at hdemoted hkeyed
      obtain ⟨hshort, hlong, hemergency⟩ := hrest s₁ hs₁
      obtain ⟨houtside, hkeyed⟩ := outside_summarizeTier hkeyed hshort
      obtain ⟨houtside', hkeyed⟩ := outside_summarizeTier hkeyed hlong
      have htiers := houtside'.trans (houtside.trans hdemoted)
      dsimp only [leftBy]
      split_ifs with hstill
      · exact (outside_emergencyCompress hkeyed hemergency hstill).trans htiers
      · exact htiers

theorem outside_store {e : NewEntry} (hs : s.Keyed) (he : e.scope = scope)
    (h : Spares cfg now scope (s.insert e now [e.tenantId])) :
    (operate cfg (.store e now) s).2.outside scope = s.outside scope :=
  (outside_maybeSummarize (hs.insert e now _) h).trans (outside_insert he _)

/-! ### Sweeps -/

variable {w : Sweep}

/-- The tags by which `sweep` knows a summary. -/
def summaryTags : Str := "auto-summary"

/-- A sweep that deletes, and leaves summaries alone. -/
def Sweep.deleting (w : Sweep) : Sweep := { w with dryRun := false, includeSummaries := false }

def Sweep.dry (w : Sweep) : Sweep := { w with dryRun := true, includeSummaries := false }

def Reply.entries : Reply → List MemoryRow
  | .rows found => found
  | _ => []

def reported (cfg : Config) (w : Sweep) (s : Engine) : List MemoryRow :=
  (operate cfg (.sweep w) s).1.entries

def swept (cfg : Config) (w : Sweep) (s : Engine) : Engine := (operate cfg (.sweep w) s).2

/-- A sweep that is to leave summaries alone does so, it deletes what it reports, and as a dry run
it reports the same and changes nothing. -/
structure SweepKeeps (cfg : Config) (w : Sweep) (s : Engine) : Prop where
  summaries : ∀ r ∈ s.rows, r.isSummary = true → r ∈ (swept cfg w.deleting s).rows
  deleted : ∀ r ∈ s.rows, r ∉ (swept cfg w.deleting s).rows ↔ r ∈ reported cfg w.deleting s
  inserted : ∀ r ∈ (swept cfg w.deleting s).rows, r ∈ s.rows
  sameReport : reported cfg w.dry s = reported cfg w.deleting s
  unchanged : swept cfg w.dry s = s

theorem reported_deleting : reported cfg w.deleting s = s.candidates w.deleting := rfl

theorem mem_candidates {r : MemoryRow} : r ∈ s.candidates w.deleting ↔
    r ∈ s.rows ∧ w.filters.selects r = true ∧ r.tags ≠ summaryTags ∧
      w.forgets r.importance r.createdAt = true := by
  rw [Engine.candidates, List.mem_filter, decide_eq_true_eq]
  refine and_congr_right fun _ => and_congr_right fun _ => and_congr_left fun _ => ?_
  exact ⟨fun h htags => Bool.false_ne_true (h htags), fun h htags => absurd htags h⟩

theorem mem_swept (hkeys : (s.rows.map MemoryRow.id).Nodup) {r : MemoryRow} :
    r ∈ (swept cfg w.deleting s).rows ↔ r ∈ s.rows ∧ r ∉ s.candidates w.deleting := by
  change r ∈ (s.deleteIds ((s.candidates w.deleting).map MemoryRow.id)).rows ↔ _
  rw [Engine.deleteIds, List.mem_filter, decide_eq_true_eq]
  refine and_congr_right fun hr => not_congr ?_
  constructor
  · intro hid
    obtain ⟨r', hr', hid⟩ := List.mem_map.mp hid
    rwa [← List.inj_on_of_nodup_map hkeys (List.mem_of_mem_filter hr') hr hid]
  · exact List.mem_map_of_mem

/-- **Sweeping.** For every table and every sweep that is to leave summaries alone, the sweep keeps
its promise if and only if every summary that it selects and that has decayed has the tags
`"auto-summary"`. -/
theorem sweepKeeps_iff (cfg : Config) (w : Sweep) (s : Engine)
    (hkeys : (s.rows.map MemoryRow.id).Nodup) :
    SweepKeeps cfg w s ↔ ∀ r ∈ s.rows, r.isSummary = true → w.filters.selects r = true →
      w.forgets r.importance r.createdAt = true → r.tags = summaryTags := by
  constructor
  · intro h r hr hsummary hselects hforgets
    by_contra htags
    exact ((mem_swept hkeys).mp (h.summaries r hr hsummary)).2
      (mem_candidates.mpr ⟨hr, hselects, htags, hforgets⟩)
  · intro h
    refine ⟨fun r hr hsummary => ?_, fun r hr => ?_, fun r hr => ((mem_swept hkeys).mp hr).1, rfl,
      rfl⟩
    · refine (mem_swept hkeys).mpr ⟨hr, fun hcandidate => ?_⟩
      obtain ⟨-, hselects, htags, hforgets⟩ := mem_candidates.mp hcandidate
      exact htags (h r hr hsummary hselects hforgets)
    · rw [mem_swept hkeys, reported_deleting, not_and_not_right]
      exact ⟨fun h => h hr, fun h _ => h⟩

/-! ### An emergency -/

def smallConfig : Config where
  maxEntries := 4
  summary _ _ := "summary"
  hits _ _ _ _ := false
  rank _ _ _ := 0

/-- Four entries of little importance. -/
def crowd : List Op :=
  List.replicate 4 (.store { content := "note", importance := 1 } 0)

def sweepAll : Sweep where
  filters := {}
  forgets _ _ := true

/-- With three entries there is nothing to compress, and the sweep keeps its promise. -/
theorem sweepKeeps_uncompressed :
    SweepKeeps smallConfig sweepAll (run (operate smallConfig) (crowd.take 3) {}).2 :=
  (sweepKeeps_iff smallConfig sweepAll _ (by decide +kernel)).mpr (by decide +kernel)

/-- The fourth entry makes the table compress them, and the summary is swept. -/
theorem not_sweepKeeps : ¬ ∀ (cfg : Config) (w : Sweep) (ops : List Op),
    SweepKeeps cfg w (run (operate cfg) ops {}).2 := by
  intro h
  have hsummaries := (h smallConfig sweepAll crowd).summaries
  have hswept : ((run (operate smallConfig) crowd {}).2.rows.all fun r => r.isSummary) = true ∧
      (run (operate smallConfig) crowd {}).2.rows.length = 1 ∧
      (swept smallConfig sweepAll.deleting (run (operate smallConfig) crowd {}).2).rows.length =
        0 := by
    decide +kernel
  obtain ⟨r, hr⟩ := List.exists_mem_of_length_pos (hswept.2.1 ▸ Nat.one_pos)
  have hkept := hsummaries r hr (List.all_eq_true.mp hswept.1 r hr)
  exact absurd (List.length_pos_of_mem hkept) (by rw [hswept.2.2]; decide)

end AgentStudio.Memory

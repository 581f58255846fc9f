import AgentStudio.Memory.Engine

/-!
# Tenants in the memory engine

A query for a tenant should return entries stored for this tenant only, and no entry should be
computed from the content of an entry of another tenant: the sources of a row should be its own
tenant (`Engine.Lawful`). The default tenant is a tenant like the others here, whose identifier is
empty.

`recall` with a blank query drops the tenant, and all three places that compact select by scope and
store the summary for the default tenant. So isolation depends on what they find: `Op.Careful` says
of a blank query that the newest entries are of the tenant that asks, and `Engine.DefaultGroups`
that the groups that have been merged are of the default tenant. `lawful_iff_careful` shows that
this is exactly what isolation needs, over all sequences of operations. `Compacts` is what
compaction does to the engine, from which everything about it is derived.
-/

namespace AgentStudio.Memory

open PyText PyJson Machine

/-! ### Conditions -/

/-- The content of the row comes from entries of its own tenant. -/
def MemoryRow.Own (r : MemoryRow) : Prop := ∀ t ∈ r.sources, t = r.tenantId

/-- Queries for a tenant have returned its rows only, and all rows come from their own tenants. -/
structure Engine.Lawful (s : Engine) : Prop where
  answers : ∀ blank t rows, .answered blank t rows ∈ s.log → t ≠ [] → ∀ r ∈ rows, r.tenantId = t
  sources : ∀ r ∈ s.rows, r.Own

/-- The groups that have been merged are of the default tenant. -/
def Engine.DefaultGroups (s : Engine) : Prop :=
  ∀ group, .merged group ∈ s.log → ∀ r ∈ group, r.tenantId = []

/-- A blank query for a tenant is made only while the newest entries that match it, of whichever
tenant they are, are of this tenant. -/
def Op.Careful : Op → Engine → Prop
  | .recall query f, s =>
    strip query = [] → f.tenantId ≠ [] → ∀ r ∈ s.listRecent f.ofBlank, r.tenantId = f.tenantId
  | _, _ => True

variable {cfg : Config} {s s' : Engine} {N : ℕ} {r : MemoryRow} {group : List MemoryRow}

/-! ### What compaction does -/

/-- A row that a client has stored, with an identifier below a bound. -/
def MemoryRow.Original (r : MemoryRow) (N : ℕ) : Prop :=
  r.isSummary = false ∧ r.sources = [r.tenantId] ∧ r.id < N

/-- The changes of the engine by compaction: rows move to other tiers, a summary of original rows is
stored for the default tenant, rows with identifiers below a bound are deleted. -/
inductive Compacts (cfg : Config) (N : ℕ) : Engine → Engine → Prop
  | refl (s : Engine) : Compacts cfg N s s
  | demoted {s : Engine} {f : MemoryRow → MemoryRow}
      (hf : ∀ r, f r = r ∨ ∃ tier, f r = { r with tier }) :
      Compacts cfg N s { s with rows := s.rows.map f }
  | summarized {s : Engine} {group : List MemoryRow} {e : NewEntry} {now : ℕ}
      (hgroup : ∀ r ∈ group, r.Original N) (htenant : e.tenantId = [])
      (hsummary : e.isSummary = true) :
      Compacts cfg N s (s.insertSummary cfg group e now)
  | deleted {s : Engine} {ids : List ℕ} (hids : ∀ id ∈ ids, id < N) :
      Compacts cfg N s (s.deleteIds ids)
  | trans {s s' s'' : Engine} (h : Compacts cfg N s s') (h' : Compacts cfg N s' s'') :
      Compacts cfg N s s''

/-- The rows that are no summaries are original, and the bound is one for new identifiers. -/
structure Engine.Bounded (s : Engine) (N : ℕ) : Prop where
  original : ∀ r ∈ s.rows, r.isSummary = false → r.Original N
  fresh : N ≤ s.nextId

theorem MemoryRow.Original.own (h : r.Original N) : r.Own := by
  intro t ht
  rw [h.2.1] at ht
  exact List.mem_singleton.mp ht

theorem Compacts.bounded (h : Compacts cfg N s s') (hs : s.Bounded N) : s'.Bounded N := by
  induction h with
  | refl s => exact hs
  | demoted hf =>
    refine ⟨fun r hr hsummary => ?_, hs.fresh⟩
    obtain ⟨x, hx, rfl⟩ := List.mem_map.mp hr
    rcases hf x with hfx | ⟨tier, hfx⟩ <;>
      rw [hfx] at hsummary ⊢ <;> exact hs.original x hx hsummary
  | summarized hgroup htenant hsummary =>
    refine ⟨fun r hr horiginal => ?_, hs.fresh.trans (Nat.le_succ _)⟩
    rcases mem_snoc.mp hr with hr | rfl
    · exact hs.original r hr horiginal
    · exact absurd (hsummary.symm.trans horiginal) (by decide)
  | deleted hids => exact ⟨fun r hr => hs.original r (List.mem_filter.mp hr).1, hs.fresh⟩
  | trans h h' ih ih' => exact ih' (ih hs)

theorem Compacts.log (h : Compacts cfg N s s') :
    s.log ⊆ s'.log ∧ ∀ blank t rows, .answered blank t rows ∈ s'.log →
      .answered blank t rows ∈ s.log := by
  induction h with
  | refl | demoted | deleted => exact ⟨List.Subset.refl _, fun _ _ _ => id⟩
  | summarized hgroup htenant hsummary =>
    refine ⟨List.subset_cons_self _ _, fun blank t rows h => ?_⟩
    exact List.mem_of_ne_of_mem (by rintro ⟨⟩) h
  | trans h h' ih ih' =>
    exact ⟨List.Subset.trans ih.1 ih'.1, fun blank t rows h => ih.2 _ _ _ (ih'.2 _ _ _ h)⟩

/-- Where the groups are of the default tenant, all rows still come from their own tenants. -/
theorem Compacts.own (h : Compacts cfg N s s') (hs : ∀ r ∈ s.rows, r.Own)
    (hgroups : s'.DefaultGroups) : ∀ r ∈ s'.rows, r.Own := by
  induction h with
  | refl s => exact hs
  | demoted hf =>
    intro r hr
    obtain ⟨x, hx, rfl⟩ := List.mem_map.mp hr
    rcases hf x with hfx | ⟨tier, hfx⟩ <;> rw [hfx] <;> exact hs x hx
  | @summarized s group e now hgroup htenant hsummary =>
    intro r hr
    rcases mem_snoc.mp hr with hr | rfl
    · exact hs r hr
    · intro t ht
      obtain ⟨x, hx, ht⟩ := List.mem_flatMap.mp ht
      have hdefault : x.tenantId = [] := hgroups group List.mem_cons_self x hx
      have hsource := (hgroup x hx).own t ht
      exact hsource.trans (hdefault.trans htenant.symm)
  | deleted hids => exact fun r hr => hs r (List.mem_filter.mp hr).1
  | trans h h' ih ih' =>
    exact ih' (ih hs fun group hg => hgroups group (h'.log.1 hg)) hgroups

/-- A row that no compaction deletes, and that does not come from its own tenant. -/
def Engine.Spoiled (s : Engine) (N : ℕ) : Prop := ∃ r ∈ s.rows, N ≤ r.id ∧ ¬ r.Own

theorem Compacts.spoiled (h : Compacts cfg N s s') (hfresh : N ≤ s.nextId)
    (hs : ¬ s.DefaultGroups → s.Spoiled N) :
    N ≤ s'.nextId ∧ (¬ s'.DefaultGroups → s'.Spoiled N) := by
  induction h with
  | refl s => exact ⟨hfresh, hs⟩
  | demoted hf =>
    refine ⟨hfresh, fun hgroups => ?_⟩
    obtain ⟨r, hr, hid, hown⟩ := hs hgroups
    refine ⟨_, List.mem_map_of_mem hr, ?_⟩
    rcases hf r with hfr | ⟨tier, hfr⟩ <;> rw [hfr] <;> exact ⟨hid, hown⟩
  | @summarized s group e now hgroup htenant hsummary =>
    refine ⟨hfresh.trans (Nat.le_succ _), fun hgroups => ?_⟩
    by_cases hold : s.DefaultGroups
    · -- the new group is not of the default tenant, so its summary is spoiled
      refine ⟨_, List.mem_append_right _ List.mem_cons_self, hfresh, fun hown => hgroups ?_⟩
      intro group' hgroup' r hr
      rcases List.mem_cons.mp hgroup' with heq | hgroup'
      · cases heq
        have hsource : r.tenantId ∈ group.flatMap MemoryRow.sources :=
          List.mem_flatMap.mpr ⟨r, hr, by rw [(hgroup r hr).2.1]; exact List.mem_cons_self⟩
        exact (hown _ hsource).trans htenant
      · exact hold group' hgroup' r hr
    · obtain ⟨r, hr, hid, hown⟩ := hs hold
      exact ⟨r, List.mem_append_left _ hr, hid, hown⟩
  | deleted hids =>
    refine ⟨hfresh, fun hgroups => ?_⟩
    obtain ⟨r, hr, hid, hown⟩ := hs hgroups
    refine ⟨r, List.mem_filter.mpr ⟨hr, decide_eq_true fun hmem => ?_⟩, hid, hown⟩
    exact absurd (hids _ hmem) (not_lt.mpr hid)
  | trans h h' ih ih' =>
    obtain ⟨hfresh', hs'⟩ := ih hfresh hs
    exact ih' hfresh' hs'

/-- Compaction of an engine whose rows come from their own tenants: they still do exactly if the
groups are of the default tenant. -/
theorem Compacts.own_iff (h : Compacts cfg N s s') (hbounded : s.Bounded N)
    (hs : ∀ r ∈ s.rows, r.Own) (hgroups : s.DefaultGroups) :
    (∀ r ∈ s'.rows, r.Own) ↔ s'.DefaultGroups := by
  refine ⟨fun hown => ?_, h.own hs⟩
  by_contra hno
  obtain ⟨r, hr, -, hspoiled⟩ := (h.spoiled hbounded.fresh fun h => absurd hgroups h).2 hno
  exact hspoiled (hown r hr)

/-! ### The compacting operations -/

theorem mem_of_mem_sqlLimit {α : Type} {n : ℤ} {rows : List α} {x : α} (h : x ∈ sqlLimit n rows) :
    x ∈ rows := by
  unfold sqlLimit at h
  split_ifs at h
  · exact h
  · exact List.mem_of_mem_take h

theorem mem_byAge {rows : List MemoryRow} : r ∈ byAge rows ↔ r ∈ rows :=
  List.mem_insertionSort _

theorem compacts_merge {e : NewEntry} {now : ℕ} (hgroup : ∀ r ∈ group, r.Original N)
    (htenant : e.tenantId = []) (hsummary : e.isSummary = true) :
    Compacts cfg N s (s.merge cfg group e now) := by
  refine .trans (.summarized hgroup htenant hsummary) (.deleted fun id hid => ?_)
  obtain ⟨r, hr, rfl⟩ := List.mem_map.mp hid
  exact (hgroup r hr).2.2

theorem compacts_demote (now : ℕ) (tiers : List (Str × MemoryTier)) (s : Engine) :
    Compacts cfg N s (leftBy (demoteOldEntries cfg now tiers s)) := by
  induction tiers generalizing s with
  | nil => exact .refl s
  | cons t tiers ih =>
    obtain ⟨name, tier⟩ := t
    unfold demoteOldEntries
    split
    · exact ih s
    next target _ =>
      split_ifs
      · exact ih s
      · split
        · exact .refl s
        next targetTier _ =>
          refine .trans (.demoted fun r => ?_) (ih _)
          split_ifs
          · exact Or.inr ⟨target, rfl⟩
          · exact Or.inl rfl

theorem compacts_foldl {f : Engine → Str → Engine}
    (hf : ∀ s scope, s.Bounded N → Compacts cfg N s (f s scope)) (scopes : List Str) {s : Engine}
    (hs : s.Bounded N) : Compacts cfg N s (scopes.foldl f s) := by
  induction scopes generalizing s with
  | nil => exact .refl s
  | cons scope scopes ih =>
    have hstep := hf s scope hs
    exact .trans hstep (ih (hstep.bounded hs))

theorem compacts_summarizeScope (tierName : Str) (threshold : ℤ) (now : ℕ) (scope : Str)
    (hs : s.Bounded N) : Compacts cfg N s (summarizeScope cfg tierName threshold now s scope) := by
  unfold summarizeScope
  dsimp only
  split_ifs
  · exact .refl s
  · refine compacts_merge (fun r hr => ?_) rfl rfl
    have hr := List.mem_filter.mp (mem_byAge.mp (mem_of_mem_sqlLimit hr))
    have hsummary : r.isSummary = false := by simp_all
    exact hs.original r hr.1 hsummary

theorem compacts_emergencyScope (now : ℕ) (scope : Str) (hs : s.Bounded N) :
    Compacts cfg N s (emergencyCompressScope cfg now s scope) := by
  unfold emergencyCompressScope
  dsimp only
  split_ifs
  · exact .refl s
  · refine compacts_merge (fun r hr => ?_) rfl rfl
    have hr := List.mem_filter.mp (mem_byAge.mp (mem_of_mem_sqlLimit hr))
    have hsummary : r.isSummary = false := by simp_all
    exact hs.original r hr.1 hsummary

theorem compacts_summarizeTier (tierName : Str) (now : ℕ) (hs : s.Bounded N) :
    Compacts cfg N s (summarizeTier cfg tierName now s) := by
  unfold summarizeTier
  split
  · exact .refl s
  next tier _ =>
    dsimp only
    split_ifs
    · exact .refl s
    · exact compacts_foldl (fun _ scope hs => compacts_summarizeScope _ _ now scope hs) _ hs

theorem compacts_emergency (now : ℕ) (hs : s.Bounded N) :
    Compacts cfg N s (emergencyCompress cfg now s) :=
  compacts_foldl (fun _ scope hs => compacts_emergencyScope now scope hs) _ hs

theorem compacts_maybeSummarize (now : ℕ) (hs : s.Bounded N) :
    Compacts cfg N s (leftBy (maybeSummarize cfg now s)) := by
  unfold maybeSummarize
  split_ifs
  · exact .refl s
  · have hdemote : Compacts cfg N s _ := compacts_demote now cfg.tiers s
    split
    next s' hs' =>
      rw [hs'] at hdemote
      exact hdemote
    next s' hs' =>
      rw [hs'] at hdemote
      have hshort : Compacts cfg N s' _ :=
        compacts_summarizeTier shortTerm now (hdemote.bounded hs)
      have hlong : Compacts cfg N _ _ :=
        compacts_summarizeTier longTerm now (hshort.bounded (hdemote.bounded hs))
      have htiers := Compacts.trans hdemote (Compacts.trans hshort hlong)
      dsimp only [leftBy]
      split_ifs
      · exact .trans htiers (compacts_emergency now (htiers.bounded hs))
      · exact htiers

theorem mem_groupFrom {window start : ℕ} {chunk rows : List MemoryRow} {c : ℕ × List MemoryRow}
    (hc : c ∈ groupFrom window start chunk rows) (hr : r ∈ c.2) : r ∈ chunk ∨ r ∈ rows := by
  induction rows generalizing start chunk with
  | nil =>
    cases List.mem_singleton.mp hc
    exact Or.inl hr
  | cons x rows ih =>
    rw [groupFrom] at hc
    split_ifs at hc
    · rcases List.mem_cons.mp hc with rfl | hc
      · exact Or.inl hr
      · rcases ih hc with h | h
        · exact Or.inr (List.mem_singleton.mp h ▸ List.mem_cons_self)
        · exact Or.inr (List.mem_cons_of_mem x h)
    · rcases ih hc with h | h
      · rcases List.mem_append.mp h with h | h
        · exact Or.inl h
        · exact Or.inr (List.mem_singleton.mp h ▸ List.mem_cons_self)
      · exact Or.inr (List.mem_cons_of_mem x h)

theorem mem_groupByTimeWindow {window : ℕ} {rows : List MemoryRow} {c : ℕ × List MemoryRow}
    (hc : c ∈ groupByTimeWindow window rows) (hr : r ∈ c.2) : r ∈ rows := by
  cases rows with
  | nil => exact absurd hc List.not_mem_nil
  | cons x rows =>
    rcases mem_groupFrom hc hr with h | h
    · exact List.mem_singleton.mp h ▸ List.mem_cons_self
    · exact List.mem_cons_of_mem x h

theorem compacts_compressChunks (scope tier : Str) (now : ℕ) (chunks : List (ℕ × List MemoryRow))
    (hs : s.Bounded N) (hchunks : ∀ c ∈ chunks, ∀ r ∈ c.2, r.Original N) :
    Compacts cfg N s (leftBy (compressChunks cfg scope tier now chunks s)) := by
  induction chunks generalizing s with
  | nil => exact .refl s
  | cons c chunks ih =>
    obtain ⟨start, chunk⟩ := c
    have hchunk := hchunks _ List.mem_cons_self
    have hsummary : Compacts cfg N s
        (s.insertSummary cfg chunk (chunkSummary scope tier start chunk) now) :=
      .summarized hchunk rfl rfl
    have hfull := Compacts.trans hsummary (compacts_maybeSummarize now (hsummary.bounded hs))
    unfold compressChunks
    split
    next s' hs' =>
      rw [hs'] at hfull
      exact hfull
    next s' hs' =>
      rw [hs'] at hfull
      have hdelete : Compacts cfg N s' (s'.deleteIds (chunk.map MemoryRow.id)) := by
        refine .deleted fun id hid => ?_
        obtain ⟨r, hr, rfl⟩ := List.mem_map.mp hid
        exact (hchunk r hr).2.2
      have hround := Compacts.trans hfull hdelete
      exact .trans hround (ih (hround.bounded hs) fun c hc => hchunks c (List.mem_cons_of_mem _ hc))

theorem compacts_compressScope (scope tier : Str) (now : ℕ) (hs : s.Bounded N) :
    Compacts cfg N s (leftBy (compressScope cfg scope tier now s).2) := by
  unfold compressScope
  split
  · exact .refl s
  next t _ =>
    dsimp only
    split_ifs
    · exact .refl s
    · refine compacts_compressChunks scope tier now _ hs fun c hc r hr => ?_
      have hr := List.mem_filter.mp (mem_byAge.mp (mem_groupByTimeWindow hc hr))
      have hsummary : r.isSummary = false := by
        have hold := hr.2
        simp only [MemoryRow.old, decide_eq_true_eq] at hold
        exact hold.2.2.2
      exact hs.original r hr.1 hsummary

/-! ### The invariant -/

/-- The rows that are no summaries are original, and the queries that do not drop the tenant have
returned its rows only. -/
structure Engine.Sound (s : Engine) : Prop where
  original : ∀ r ∈ s.rows, r.isSummary = false → r.Original s.nextId
  answers : ∀ t rows, .answered false t rows ∈ s.log → t ≠ [] → ∀ r ∈ rows, r.tenantId = t

theorem Engine.Sound.bounded (hs : s.Sound) : s.Bounded s.nextId := ⟨hs.original, le_rfl⟩

/-- An operation that stores, compacts or deletes: a row may be added that comes from its own
tenant, and then the table is compacted. -/
structure Changes (cfg : Config) (s s' : Engine) : Prop where
  compacted : ∃ s₁, s₁.log = s.log ∧ s₁.Bounded s₁.nextId ∧
    ((∀ r ∈ s.rows, r.Own) → ∀ r ∈ s₁.rows, r.Own) ∧ Compacts cfg s₁.nextId s₁ s'

theorem Changes.sound (hs : s.Sound) (h : Changes cfg s s') : s'.Sound := by
  obtain ⟨s₁, hlog, hbounded, -, hcompacts⟩ := h.compacted
  have hs' := hcompacts.bounded hbounded
  refine ⟨fun r hr hsummary => ?_, fun t rows hrows => ?_⟩
  · obtain ⟨hno, hsource, hid⟩ := hs'.original r hr hsummary
    exact ⟨hno, hsource, hid.trans_le hs'.fresh⟩
  · exact hs.answers t rows (hlog ▸ hcompacts.log.2 _ _ _ hrows)

theorem Changes.lawful_iff (hl : s.Lawful) (hc : s.DefaultGroups) (h : Changes cfg s s') :
    s'.Lawful ↔ s'.DefaultGroups := by
  obtain ⟨s₁, hlog, hbounded, hown, hcompacts⟩ := h.compacted
  have hgroups : s₁.DefaultGroups := by
    unfold Engine.DefaultGroups
    rw [hlog]
    exact hc
  have hiff := hcompacts.own_iff hbounded (hown hl.sources) hgroups
  constructor
  · exact fun h => hiff.mp h.sources
  · refine fun h => ⟨fun blank t rows hrows => ?_, hiff.mpr h⟩
    exact hl.answers blank t rows (hlog ▸ hcompacts.log.2 _ _ _ hrows)

theorem Changes.defaultGroups (h : Changes cfg s s') (hgroups : s'.DefaultGroups) :
    s.DefaultGroups := by
  obtain ⟨s₁, hlog, -, -, hcompacts⟩ := h.compacted
  exact fun group hgroup => hgroups group (hcompacts.log.1 (hlog ▸ hgroup))

theorem Engine.Sound.bounded_insert (hs : s.Sound) (e : NewEntry) (now : ℕ) :
    (s.insert e now [e.tenantId]).Bounded (s.nextId + 1) := by
  refine ⟨fun r hr hsummary => ?_, le_rfl⟩
  rcases mem_snoc.mp hr with hr | rfl
  · obtain ⟨hno, hsource, hid⟩ := hs.original r hr hsummary
    exact ⟨hno, hsource, hid.trans (Nat.lt_succ_self _)⟩
  · exact ⟨hsummary, rfl, Nat.lt_succ_self _⟩

theorem changes_store (hs : s.Sound) (e : NewEntry) (now : ℕ) :
    Changes cfg s (operate cfg (.store e now) s).2 := by
  have hbounded := hs.bounded_insert e now
  refine ⟨s.insert e now [e.tenantId], rfl, hbounded, fun hown r hr => ?_,
    compacts_maybeSummarize now hbounded⟩
  rcases mem_snoc.mp hr with hr | rfl
  · exact hown r hr
  · exact fun t ht => List.mem_singleton.mp ht

theorem changes_filter (hs : s.Sound) (p : MemoryRow → Bool) :
    Changes cfg s { s with rows := s.rows.filter p } :=
  ⟨{ s with rows := s.rows.filter p }, rfl,
    ⟨fun r hr => hs.original r (List.mem_filter.mp hr).1, le_rfl⟩,
    fun hown r hr => hown r (List.mem_filter.mp hr).1, .refl _⟩

/-- A query only adds its answer to the log. -/
def Engine.answer (s : Engine) (blank : Bool) (t : Str) (rows : List MemoryRow) : Engine :=
  { s with log := .answered blank t rows :: s.log }

section Answer

variable {blank : Bool} {t : Str} {rows : List MemoryRow}

theorem sound_answer (hs : s.Sound) (h : blank = false → t ≠ [] → ∀ r ∈ rows, r.tenantId = t) :
    (s.answer blank t rows).Sound := by
  refine ⟨hs.original, fun t' rows' hrows => ?_⟩
  rcases List.mem_cons.mp hrows with heq | hrows
  · cases heq
    exact h rfl
  · exact hs.answers t' rows' hrows

theorem lawful_answer_iff (hl : s.Lawful) :
    (s.answer blank t rows).Lawful ↔ (t ≠ [] → ∀ r ∈ rows, r.tenantId = t) := by
  constructor
  · exact fun h => h.answers blank t rows List.mem_cons_self
  · refine fun h => ⟨fun blank' t' rows' hrows => ?_, hl.sources⟩
    rcases List.mem_cons.mp hrows with heq | hold
    · cases heq
      exact h
    · exact hl.answers blank' t' rows' hold

theorem defaultGroups_answer : (s.answer blank t rows).DefaultGroups ↔ s.DefaultGroups := by
  constructor
  · exact fun h group hgroup => h group (List.mem_cons_of_mem _ hgroup)
  · exact fun h group hgroup => h group (List.mem_of_ne_of_mem (by rintro ⟨⟩) hgroup)

end Answer

theorem tenantId_of_selects {f : Filters} (h : f.selects r = true) (ht : f.tenantId ≠ []) :
    r.tenantId = f.tenantId := by
  simp only [Filters.selects, decide_eq_true_eq] at h
  exact h.2.2.2.1.resolve_left ht

theorem tenantId_of_passes {f : Filters} (h : f.passes r = true) (ht : f.tenantId ≠ []) :
    r.tenantId = f.tenantId := by
  simp only [Filters.passes, decide_eq_true_eq] at h
  exact tenantId_of_selects h.1 ht

theorem tenantId_of_listRecent {f : Filters} (h : r ∈ s.listRecent f) (ht : f.tenantId ≠ []) :
    r.tenantId = f.tenantId := by
  have hr := (List.mem_insertionSort _).mp (mem_of_mem_sqlLimit h)
  exact tenantId_of_passes (List.mem_filter.mp hr).2 ht

theorem tenantId_of_recall {query : Str} {f : Filters} (hquery : strip query ≠ [])
    (h : r ∈ s.recall cfg query f) (ht : f.tenantId ≠ []) : r.tenantId = f.tenantId := by
  rw [Engine.recall, if_neg hquery] at h
  have hr := (List.mem_insertionSort _).mp (mem_of_mem_sqlLimit h)
  have hpass := (List.mem_filter.mp hr).2
  simp only [decide_eq_true_eq] at hpass
  exact tenantId_of_passes hpass.2 ht

/-- What an operation does: it changes the rows, or it answers a query, for which it drops the
tenant only if the query is blank. -/
theorem operate_cases (op : Op) (hs : s.Sound) :
    (Changes cfg s (operate cfg op s).2 ∧ op.Careful s) ∨
    ∃ blank t rows, (operate cfg op s).2 = s.answer blank t rows ∧
      (blank = false → t ≠ [] → ∀ r ∈ rows, r.tenantId = t) ∧
      (op.Careful s ↔ (t ≠ [] → ∀ r ∈ rows, r.tenantId = t)) := by
  cases op with
  | store e now => exact Or.inl ⟨changes_store hs e now, trivial⟩
  | delete | deleteScope => exact Or.inl ⟨changes_filter hs _, trivial⟩
  | compressScope scope tier now =>
    exact Or.inl
      ⟨⟨s, rfl, hs.bounded, id, compacts_compressScope scope tier now hs.bounded⟩, trivial⟩
  | sweep w =>
    refine Or.inl ⟨?_, trivial⟩
    change Changes cfg s (if w.dryRun then s else s.deleteIds _)
    split_ifs
    · exact ⟨s, rfl, hs.bounded, id, .refl s⟩
    · exact changes_filter hs _
  | «recall» query f =>
    have hnonblank : strip query ≠ [] → f.tenantId ≠ [] →
        ∀ r ∈ s.recall cfg query f, r.tenantId = f.tenantId :=
      fun hquery ht r hr => tenantId_of_recall hquery hr ht
    refine Or.inr ⟨_, _, _, rfl, fun hblank => hnonblank (of_decide_eq_false hblank), ?_⟩
    by_cases hquery : strip query = []
    · have hrows : s.recall cfg query f = s.listRecent f.ofBlank := if_pos hquery
      rw [hrows]
      exact forall_prop_of_true hquery
    · exact iff_of_true (fun h => absurd h hquery) (hnonblank hquery)
  | listRecent f =>
    have hrows : f.tenantId ≠ [] → ∀ r ∈ s.listRecent f, r.tenantId = f.tenantId :=
      fun ht r hr => tenantId_of_listRecent hr ht
    exact Or.inr ⟨_, _, _, rfl, fun _ => hrows, iff_of_true trivial hrows⟩

/-! ### Isolation -/

theorem sound_operate (op : Op) (s : Engine) (hs : s.Sound) : (operate cfg op s).2.Sound := by
  rcases operate_cases op hs with ⟨h, -⟩ | ⟨blank, t, rows, heq, h, -⟩
  · exact h.sound hs
  · rw [heq]
    exact sound_answer hs h

theorem defaultGroups_of_operate (op : Op) (s : Engine) (hs : s.Sound)
    (h : (operate cfg op s).2.DefaultGroups) : s.DefaultGroups := by
  rcases operate_cases op hs with ⟨hchanges, -⟩ | ⟨blank, t, rows, heq, -⟩
  · exact hchanges.defaultGroups h
  · rw [heq] at h
    exact defaultGroups_answer.mp h

theorem lawful_operate_iff (op : Op) (s : Engine) (hs : s.Sound) (hl : s.Lawful)
    (hc : s.DefaultGroups) : (operate cfg op s).2.Lawful ↔
      op.Careful s ∧ (operate cfg op s).2.DefaultGroups := by
  rcases operate_cases op hs with ⟨hchanges, hcareful⟩ | ⟨blank, t, rows, heq, -, hcareful⟩
  · exact (hchanges.lawful_iff hl hc).trans (and_iff_right hcareful).symm
  · rw [heq, lawful_answer_iff hl, hcareful, defaultGroups_answer, and_iff_left hc]

/-- In every sequence of operations tenants stay isolated, in the answers of the queries and in what
the entries are computed from, exactly if blank queries for a tenant are made only while they find
its entries and the groups that are merged are of the default tenant. -/
theorem lawful_iff_careful (cfg : Config) (ops : List Op) :
    (∀ n, (run (operate cfg) (ops.take n) {}).2.Lawful) ↔
      Along (operate cfg) Op.Careful ops {} ∧ (run (operate cfg) ops {}).2.DefaultGroups := by
  refine run_throughout_iff_final sound_operate defaultGroups_of_operate lawful_operate_iff ops
    ?_ ?_ ?_
  · exact ⟨List.forall_mem_nil _, fun t rows h => absurd h List.not_mem_nil⟩
  · exact ⟨fun b t rows h => absurd h List.not_mem_nil, List.forall_mem_nil _⟩
  · exact fun group h => absurd h List.not_mem_nil

/-- An engine whose search finds nothing. -/
def plainConfig : Config where
  summary _ _ := []
  hits _ _ _ _ := false
  rank _ _ _ := 0

/-- An entry is stored for one tenant, and another tenant asks with a blank query. -/
def blankRecall : List Op :=
  [.store { content := "plan", tenantId := "a" } 0,
    .recall [] { tenantId := "b" }]

/-- The blank query returns the entry of the other tenant. -/
theorem not_isolated : ¬ ∀ (cfg : Config) (ops : List Op),
    (run (operate cfg) ops {}).2.Lawful := by
  intro h
  have hfound : .answered true "b"
      [({ content := "plan", tenantId := "a" } : NewEntry).row 0 0 ["a"]] ∈
        (run (operate plainConfig) blankRecall {}).2.log := List.mem_cons_self
  have heq := (h plainConfig blankRecall).answers _ _ _ hfound (by decide) _ List.mem_cons_self
  exact absurd heq (by decide)

end AgentStudio.Memory

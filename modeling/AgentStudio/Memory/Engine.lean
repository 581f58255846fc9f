import AgentStudio.Library.Json
import AgentStudio.Library.Machine
import Mathlib.Data.List.Sort

/-!
# The memory engine

`MemoryEngine` of `agent_runtime/memory_engine.py`: entries of several tenants in one table, the two
queries `recall` and `listRecent`, and the compaction that replaces groups of entries by summaries.
There are three places where it does so: `summarizeScope` and `emergencyCompressScope`, which
`maybeSummarize` runs through when the table is full, and `compressScope`, which a client calls.

`Config` is what the engine gets from outside: its settings, the summary of a list of contents,
which the gateway or the stub makes, and what the full text search matches and how it ranks. The
identifiers `uuid4` are drawn from a counter. Each row carries, for the proofs only, the `sources`
of its content: the tenants for which the entries that it is computed from were stored. The log of
the engine has the answers of the queries and the groups that have been merged.
-/

namespace AgentStudio.Memory

open PyText PyJson

/-! ### Rows -/

/-- `MemoryTier`; an age of 0 is no limit. -/
structure MemoryTier where
  maxEntries : ℤ
  maxAgeSeconds : ℕ
  importanceThreshold : ℤ

/-- `"short_term"`. -/
def shortTerm : Str := "short_term"

/-- `"long_term"`. -/
def longTerm : Str := "long_term"

/-- `"archive"`. -/
def archive : Str := "archive"

/-- `DEFAULT_TIERS`. -/
def defaultTiers : List (Str × MemoryTier) :=
  [(shortTerm, ⟨50, 86400, 7⟩), (longTerm, ⟨200, 604800, 4⟩), (archive, ⟨1000, 0, 0⟩)]

/-- `DEFAULT_MEMORY_TYPE`. -/
def defaultMemoryType : Str := "project"

/-- `VALID_MEMORY_TYPES`. -/
def validMemoryTypes : List Str :=
  ["user", "feedback", "project", "reference"]

/-- A row of `memories`, with the sources of its content. -/
structure MemoryRow where
  id : ℕ
  content : Str
  scope : Str
  tags : Str
  importance : ℤ
  createdAt : ℕ
  metadata : List (Str × Json)
  isSummary : Bool
  tier : Str
  memoryType : Str
  tenantId : Str
  teamId : Str
  sources : List Str

/-- The arguments of `store`. -/
structure NewEntry where
  content : Str
  scope : Str := "default"
  tags : Str := []
  importance : ℤ := 5
  metadata : List (Str × Json) := []
  tier : Str := []
  isSummary : Bool := false
  memoryType : Str := []
  tenantId : Str := []
  teamId : Str := []

/-- `_assign_tier`. -/
def assignTier (importance : ℤ) (isSummary : Bool) : Str :=
  if isSummary then if importance < 4 then archive else longTerm
  else if 7 ≤ importance then shortTerm
  else if 4 ≤ importance then longTerm
  else archive

/-- The row that `store` inserts. -/
def NewEntry.row (e : NewEntry) (id now : ℕ) (sources : List Str) : MemoryRow where
  id := id
  content := e.content
  scope := e.scope
  tags := e.tags
  importance := e.importance
  createdAt := now
  metadata := e.metadata
  isSummary := e.isSummary
  tier := if e.tier = [] then assignTier e.importance e.isSummary else e.tier
  memoryType := if e.memoryType ∈ validMemoryTypes then e.memoryType else defaultMemoryType
  tenantId := e.tenantId
  teamId := e.teamId
  sources := sources

/-! ### The engine -/

/-- What the engine gets from outside: `summary` is `_generate_summary`, `hits` says whether a
search matches a content, tags and scope, and `rank` orders the matches among all rows. -/
structure Config where
  maxEntries : ℤ := 200
  summaryBatch : ℤ := 50
  tiers : List (Str × MemoryTier) := defaultTiers
  summary : List Str → Str → Str
  hits : Str → Str → Str → Str → Bool
  rank : Str → List MemoryRow → MemoryRow → ℕ

/-- An entry of the log: the rows that a query returns for a tenant (`blank` for a `recall` with a
blank query), or a group of rows that is merged into a summary. -/
inductive Entry where
  | answered (blank : Bool) (tenantId : Str) (rows : List MemoryRow)
  | merged (group : List MemoryRow)

/-- `MemoryEngine`: its table in the order of the rowids, the counter for the identifiers, and the
log. -/
structure Engine where
  rows : List MemoryRow := []
  nextId : ℕ := 0
  log : List Entry := []

/-- The insertion of `store`. -/
def Engine.insert (s : Engine) (e : NewEntry) (now : ℕ) (sources : List Str) : Engine :=
  { s with rows := s.rows ++ [e.row s.nextId now sources], nextId := s.nextId + 1 }

/-- `DELETE FROM memories WHERE id IN (...)`. -/
def Engine.deleteIds (s : Engine) (ids : List ℕ) : Engine :=
  { s with rows := s.rows.filter (·.id ∉ ids) }

/-- `LIMIT`: a negative number is no limit. -/
def sqlLimit {α : Type} (n : ℤ) (rows : List α) : List α :=
  if n < 0 then rows else rows.take n.toNat

/-- `ORDER BY created_at ASC`. -/
def byAge (rows : List MemoryRow) : List MemoryRow :=
  rows.insertionSort fun a b => a.createdAt ≤ b.createdAt

/-- `GROUP BY scope HAVING COUNT(*) > n`: the scopes of more than `n` rows. -/
def crowdedScopes (n : ℤ) (rows : List MemoryRow) : List Str :=
  (rows.map MemoryRow.scope).dedup.filter fun scope =>
    n < (rows.countP fun r => r.scope = scope)

def leastImportance (group : List MemoryRow) : ℤ := (group.map MemoryRow.importance).min?.getD 0

def count (n : ℕ) : Json := .num (Number.ofInt n)

/-- The summary of a group is inserted: the arguments of `store` are `e`, with the summary as
content. -/
def Engine.insertSummary (cfg : Config) (group : List MemoryRow) (e : NewEntry) (now : ℕ)
    (s : Engine) : Engine :=
  { s.insert { e with content := cfg.summary (group.map MemoryRow.content) e.scope } now
      (group.flatMap MemoryRow.sources) with log := .merged group :: s.log }

def Engine.merge (cfg : Config) (group : List MemoryRow) (e : NewEntry) (now : ℕ) (s : Engine) :
    Engine :=
  (s.insertSummary cfg group e now).deleteIds (group.map MemoryRow.id)

/-! ### Compaction of a full table -/

/-- The tier to which old entries of a tier go. -/
def demotion (tier : Str) : Option Str :=
  if tier = shortTerm then some longTerm else if tier = longTerm then some archive else none

/-- An entry of a tier that is older than its limit. -/
def MemoryRow.old (r : MemoryRow) (tier : Str) (age now : ℕ) : Bool :=
  r.tier = tier ∧ r.createdAt + age < now ∧ r.isSummary = false

/-- `_demote_old_entries`. An engine that lacks the target tier of an old entry raises a `KeyError`:
the result is then the engine as it is left. -/
def demoteOldEntries (cfg : Config) (now : ℕ) :
    List (Str × MemoryTier) → Engine → Except Engine Engine
  | [], s => .ok s
  | (name, tier) :: tiers, s =>
    match demotion name with
    | none => demoteOldEntries cfg now tiers s
    | some target =>
      if tier.maxAgeSeconds = 0 ∨ ¬ s.rows.any (·.old name tier.maxAgeSeconds now) then
        demoteOldEntries cfg now tiers s
      else
        match cfg.tiers.lookup target with
        | none => .error s
        | some targetTier =>
          demoteOldEntries cfg now tiers
            { s with
              rows := s.rows.map fun r =>
                if r.old name tier.maxAgeSeconds now ∧ r.importance < targetTier.importanceThreshold
                then { r with tier := target } else r }

/-- The summary that `_maybe_summarize` stores, but for its content. -/
def tierSummary (tierName scope : Str) (group : List MemoryRow) : NewEntry where
  content := []
  scope := scope
  tags := "auto-summary"
  importance := leastImportance group
  metadata := [("original_count", count group.length),
    ("type", .str "summary"), ("source_tier", .str tierName)]
  tier := if tierName = longTerm then archive else longTerm
  isSummary := true

/-- `_maybe_summarize` on a scope of a tier that has too many entries. -/
def summarizeScope (cfg : Config) (tierName : Str) (threshold : ℤ) (now : ℕ) (s : Engine)
    (scope : Str) : Engine :=
  let group := sqlLimit cfg.summaryBatch <| byAge <| s.rows.filter fun r =>
    r.scope = scope ∧ r.tier = tierName ∧ r.isSummary = false ∧ r.importance < threshold
  if group.length < 3 then s else s.merge cfg group (tierSummary tierName scope group) now

/-- `_maybe_summarize` on a tier. -/
def summarizeTier (cfg : Config) (tierName : Str) (now : ℕ) (s : Engine) : Engine :=
  match cfg.tiers.lookup tierName with
  | none => s
  | some tier =>
    let originals := s.rows.filter fun r => r.tier = tierName ∧ r.isSummary = false
    if (originals.length : ℤ) ≤ tier.maxEntries then s
    else
      (crowdedScopes cfg.summaryBatch originals).foldl
        (summarizeScope cfg tierName tier.importanceThreshold now) s

/-- The summary that `_emergency_compress` stores, but for its content. -/
def emergencySummary (scope : Str) (group : List MemoryRow) : NewEntry where
  content := []
  scope := scope
  tags := "auto-summary,emergency"
  importance := 1
  metadata := [("original_count", count group.length),
    ("type", .str "summary"), ("emergency", .bool true)]
  tier := archive
  isSummary := true

/-- `_emergency_compress` on a scope. -/
def emergencyCompressScope (cfg : Config) (now : ℕ) (s : Engine) (scope : Str) : Engine :=
  let group := sqlLimit cfg.summaryBatch <| byAge <| s.rows.filter fun r =>
    r.scope = scope ∧ r.isSummary = false ∧ r.importance ≤ 3
  if group.length < 3 then s else s.merge cfg group (emergencySummary scope group) now

/-- `_emergency_compress`. -/
def emergencyCompress (cfg : Config) (now : ℕ) (s : Engine) : Engine :=
  (crowdedScopes 3 (s.rows.filter fun r => r.isSummary = false ∧ r.importance ≤ 3)).foldl
    (emergencyCompressScope cfg now) s

/-- `_maybe_summarize`. The calls of `store` that it makes itself insert only, since `_summarizing`
is set. -/
def maybeSummarize (cfg : Config) (now : ℕ) (s : Engine) : Except Engine Engine :=
  if (s.rows.length : ℤ) < cfg.maxEntries then .ok s
  else
    match demoteOldEntries cfg now cfg.tiers s with
    | .error s => .error s
    | .ok s =>
      let s := summarizeTier cfg longTerm now (summarizeTier cfg shortTerm now s)
      .ok (if cfg.maxEntries ≤ s.rows.length then emergencyCompress cfg now s else s)

/-! ### Compaction of a scope -/

/-- `_TIME_WINDOW_SECONDS`. -/
def timeWindowSeconds : ℕ := 3600

/-- `_group_by_time_window`, from where a chunk is begun. -/
def groupFrom (window start : ℕ) (chunk : List MemoryRow) :
    List MemoryRow → List (ℕ × List MemoryRow)
  | [] => [(start, chunk)]
  | r :: rows =>
    if start + window ≤ r.createdAt then (start, chunk) :: groupFrom window r.createdAt [r] rows
    else groupFrom window start (chunk ++ [r]) rows

/-- `_group_by_time_window`. -/
def groupByTimeWindow (window : ℕ) : List MemoryRow → List (ℕ × List MemoryRow)
  | [] => []
  | r :: rows => groupFrom window r.createdAt [r] rows

/-- The tier to which `compress_scope` moves the summaries. -/
def compressionTarget (tier : Str) : Str := if tier = shortTerm then longTerm else archive

/-- The summary that `compress_scope` stores for a chunk, but for its content. -/
def chunkSummary (scope tier : Str) (start : ℕ) (chunk : List MemoryRow) : NewEntry where
  content := []
  scope := scope
  tags := "auto-summary"
  importance := leastImportance chunk
  metadata := [("original_count", count chunk.length),
    ("type", .str "summary"), ("time_window_start", count start),
    ("source_tier", .str tier)]
  tier := compressionTarget tier
  isSummary := true

/-- `compress_scope` on the chunks that are left. Storing a summary may compact the whole table
before the chunk is deleted, and the later chunks hold the rows as they were selected. -/
def compressChunks (cfg : Config) (scope tier : Str) (now : ℕ) :
    List (ℕ × List MemoryRow) → Engine → Except Engine Engine
  | [], s => .ok s
  | (start, chunk) :: chunks, s =>
    match maybeSummarize cfg now
      (s.insertSummary cfg chunk (chunkSummary scope tier start chunk) now) with
    | .error s => .error s
    | .ok s =>
      compressChunks cfg scope tier now chunks (s.deleteIds (chunk.map MemoryRow.id))

/-- The rows that `compress_scope` selects. -/
def Engine.compressible (s : Engine) (scope tier : Str) (age now : ℕ) : List MemoryRow :=
  byAge (s.rows.filter fun r => r.scope = scope ∧ r.old tier age now)

/-- `compress_scope`: the number of entries that it has compressed. -/
def compressScope (cfg : Config) (scope tier : Str) (now : ℕ) (s : Engine) :
    ℕ × Except Engine Engine :=
  match cfg.tiers.lookup tier with
  | none => (0, .ok s)
  | some t =>
    let rows := s.compressible scope tier t.maxAgeSeconds now
    if t.maxAgeSeconds = 0 ∨ rows.length < 3 then (0, .ok s)
    else
      (rows.length, compressChunks cfg scope tier now (groupByTimeWindow timeWindowSeconds rows) s)

/-! ### Queries -/

/-- The filters of a query; a text that is empty is no filter. -/
structure Filters where
  scope : Str := []
  limit : ℤ := 20
  minImportance : ℤ := 0
  tier : Str := []
  memoryType : Str := []
  tenantId : Str := []
  teamId : Str := []

def Filters.selects (f : Filters) (r : MemoryRow) : Bool :=
  (f.scope = [] ∨ r.scope = f.scope) ∧ (f.tier = [] ∨ r.tier = f.tier) ∧
    (f.memoryType = [] ∨ r.memoryType = f.memoryType) ∧
    (f.tenantId = [] ∨ r.tenantId = f.tenantId) ∧ (f.teamId = [] ∨ r.teamId = f.teamId)

/-- The row passes the filters and is important enough. -/
def Filters.passes (f : Filters) (r : MemoryRow) : Bool :=
  f.selects r ∧ f.minImportance ≤ r.importance

/-- `list_recent`. -/
def Engine.listRecent (s : Engine) (f : Filters) : List MemoryRow :=
  sqlLimit f.limit ((s.rows.filter f.passes).insertionSort fun a b => b.createdAt ≤ a.createdAt)

/-- `_fts_sanitize`. -/
def ftsSanitize (query : Str) : Str :=
  [' '].intercalate ((words query).map fun t =>
    '"' :: (t.flatMap fun c => if c = '"' then ['"', '"'] else [c]) ++ ['"'])

/-- The filters that `recall` hands on for a blank query. -/
def Filters.ofBlank (f : Filters) : Filters :=
  { scope := f.scope, limit := f.limit, tier := f.tier, memoryType := f.memoryType }

/-- `recall`. -/
def Engine.recall (cfg : Config) (s : Engine) (query : Str) (f : Filters) : List MemoryRow :=
  if strip query = [] then s.listRecent f.ofBlank
  else
    let fts := ftsSanitize query
    sqlLimit f.limit ((s.rows.filter fun r =>
      cfg.hits fts r.content r.tags r.scope ∧ f.passes r).insertionSort fun a b =>
        cfg.rank fts s.rows a ≤ cfg.rank fts s.rows b)

/-! ### Operations -/

/-- The selection of `sweep`. `forgets` is the test of the decay score and the age, which depends on
the importance and the time of an entry. -/
structure Sweep where
  dryRun : Bool := true
  filters : Filters
  includeSummaries : Bool := false
  forgets : ℤ → ℕ → Bool

/-- The entries that `sweep` would delete. -/
def Engine.candidates (s : Engine) (w : Sweep) : List MemoryRow :=
  s.rows.filter fun r => w.filters.selects r ∧
    (r.tags = "auto-summary" → w.includeSummaries) ∧ w.forgets r.importance r.createdAt

/-- An operation with the time at which it is called. -/
inductive Op where
  | store (e : NewEntry) (now : ℕ)
  | delete (id : ℕ)
  | deleteScope (scope : Str)
  | compressScope (scope tier : Str) (now : ℕ)
  | sweep (w : Sweep)
  | recall (query : Str) (f : Filters)
  | listRecent (f : Filters)

inductive Reply where
  | id (id : ℕ)
  | number (n : ℕ)
  | rows (rows : List MemoryRow)
  | raised

/-- The engine that is left, also by an exception. -/
def leftBy (r : Except Engine Engine) : Engine :=
  match r with
  | .ok s => s
  | .error s => s

/-- The reply of an operation, if it raises no exception. -/
def replyOf (r : Except Engine Engine) (reply : Reply) : Reply :=
  match r with
  | .ok _ => reply
  | .error _ => .raised

def operate (cfg : Config) : Op → Engine → Reply × Engine
  | .store e now, s =>
    let r := maybeSummarize cfg now (s.insert e now [e.tenantId])
    (replyOf r (.id s.nextId), leftBy r)
  | .delete id, s =>
    (.number (s.rows.countP (·.id = id)), s.deleteIds [id])
  | .deleteScope scope, s =>
    (.number (s.rows.countP (·.scope = scope)), { s with rows := s.rows.filter (·.scope ≠ scope) })
  | .compressScope scope tier now, s =>
    let r := compressScope cfg scope tier now s
    (replyOf r.2 (.number r.1), leftBy r.2)
  | .sweep w, s =>
    (.rows (s.candidates w),
      if w.dryRun then s else s.deleteIds ((s.candidates w).map MemoryRow.id))
  | .recall query f, s =>
    let rows := s.recall cfg query f
    (.rows rows, { s with log := .answered (strip query = []) f.tenantId rows :: s.log })
  | .listRecent f, s =>
    let rows := s.listRecent f
    (.rows rows, { s with log := .answered false f.tenantId rows :: s.log })

end AgentStudio.Memory

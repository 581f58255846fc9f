import AgentStudio.Library.JsonSorted
import AgentStudio.Library.Rows
import Mathlib.Data.List.Infix

/-!
# The marketplace of agents

`AgentMarketplace` of `agent_runtime/agent_marketplace.py`: an index of listings, each of which
belongs to a tenant and is public or private, and the directories to which agents are exported and
from which they are imported.

A call comes from a tenant (`Call.tenant`), also where the method is not told which:
`list_categories` and `import_agent` have no such parameter. `place` is a directory that a tenant
makes itself. The audit trail is left out, since no method reads it but the one that prints it. A
manifest has the fields that `export_agent` writes, with values of their types; the ratings are
rational numbers, and what `uuid4` draws and the times are arguments. What lower case and a digest
are is left open (`Library`).
-/

namespace AgentStudio.Marketplace

open PyText PyJson Rows

/-- What the methods use of Python's library: `s.lower()`, and the hexadecimal SHA-256 of a text. -/
structure Library where
  lower : Str → Str
  sha256 : Str → Str

structure MarketEntry where
  id : Str
  name : Str
  author : Str
  description : Str
  category : Str
  tags : List Str
  version : Str
  graphData : Json
  rating : ℚ
  downloads : ℤ
  createdAt : ℤ
  updatedAt : ℤ
  sha256 : Str
  tenant : Str
  visibility : Str

/-- The fields of `manifest.json`, as far as they are there. -/
structure Manifest where
  id : Option Str
  name : Option Str
  author : Option Str
  description : Option Str
  category : Option Str
  tags : Option (List Str)
  version : Option Str

/-- A directory with `manifest.json` and `graph.json`, as far as they are there. The listing that it
was exported from is for the law only: no file says it. -/
structure AgentDir where
  manifest : Option Manifest
  graph : Option Json
  origin : Option MarketEntry

structure Market where
  index : Table MarketEntry.id
  dirs : Str → Option AgentDir

def Market.empty : Market := ⟨Table.empty, fun _ => none⟩

section

variable (library : Library)

/-! ### Listings -/

/-- `_visible`. -/
def MarketEntry.visible (entry : MarketEntry) (tenant : Str) : Bool :=
  if entry.visibility ≠ "private" then true else decide (entry.tenant = tenant)

/-- `compute_signature`. -/
def computeSignature (graphData : Json) : Str := library.sha256 (dumps none (sortKeys graphData))

/-- `value or default` for a text. -/
def textOr (value default : Str) : Str := if value = [] then default else value

/-- A listing as `publish` puts it into the index. -/
def MarketEntry.stamp (entry : MarketEntry) (tenant fresh : Str) (now : ℤ) : MarketEntry :=
  { entry with
    tenant := if entry.tenant = [] ∨ entry.tenant = "default" then tenant else entry.tenant
    sha256 := textOr entry.sha256 (computeSignature library entry.graphData)
    id := textOr entry.id fresh
    createdAt := if entry.createdAt = 0 then now else entry.createdAt
    updatedAt := now }

/-! ### The methods -/

def Market.put (s : Market) (entry : MarketEntry) : Market :=
  { s with index := s.index.upsert entry }

/-- The listing with an identifier, if the tenant sees it. -/
def Market.get (s : Market) (entryId tenant : Str) : Option MarketEntry :=
  (s.index.find entryId).filter fun e => e.visible tenant

/-- `publish`. -/
def Market.publish (s : Market) (entry : MarketEntry) (tenant fresh : Str) (now : ℤ) :
    MarketEntry × Market :=
  let entry := entry.stamp library tenant fresh now
  (entry, s.put entry)

/-- `unpublish`. -/
def Market.unpublish (s : Market) (entryId tenant : Str) : Bool × Market :=
  match s.index.find entryId with
  | none => (false, s)
  | some entry =>
    if entry.visible tenant then
      (true, { s with index := s.index.select fun e => e.id ≠ entryId })
    else (false, s)

/-- `xs[:limit]`. -/
def upTo {α : Type} (limit : ℤ) (xs : List α) : List α :=
  if 0 ≤ limit then xs.take limit.toNat else xs.take (xs.length - limit.natAbs)

def sortBefore (sortBy : Str) (a b : MarketEntry) : Bool :=
  if sortBy = "rating" then decide (b.rating ≤ a.rating)
  else if sortBy = "downloads" then decide (b.downloads ≤ a.downloads)
  else if sortBy = "updated" then decide (b.updatedAt ≤ a.updatedAt)
  else textLE a.name b.name

/-- `search`. -/
def Market.search (s : Market) (query category : Str) (tags : List Str) (sortBy : Str) (limit : ℤ)
    (tenant : Str) : List MarketEntry :=
  let results := s.index.rows.filter fun e => e.visible tenant
  let results := results.filter fun e =>
    decide (query = []) || decide (library.lower query <:+: library.lower e.name) ||
      decide (library.lower query <:+: library.lower e.description)
  let results := results.filter fun e => decide (category = []) || decide (e.category = category)
  let results := results.filter fun e => tags.isEmpty || tags.any fun t => decide (t ∈ e.tags)
  upTo limit (results.insertionSort fun a b => sortBefore sortBy a b)

/-- `list_categories`. -/
def Market.listCategories (s : Market) : List Str :=
  let categories := (s.index.rows.map MarketEntry.category).filter fun c => c ≠ []
  categories.dedup.insertionSort fun a b => textLE a b

/-- `export_agent`: the path of the directory. -/
def Market.exportAgent (s : Market) (entryId outputDir tenant : Str) : Option Str × Market :=
  match s.get entryId tenant with
  | none => (none, s)
  | some e =>
    let path := outputDir ++ '/' :: e.name ++ ".fusion-agent"
    let manifest : Manifest := ⟨some e.id, some e.name, some e.author, some e.description,
      some e.category, some e.tags, some e.version⟩
    let dir : AgentDir := ⟨some manifest, some e.graphData, some e⟩
    (some path, { s with dirs := Function.update s.dirs path (some dir) })

/-- The listing that `import_agent` makes of a directory. -/
def AgentDir.entry (dir : AgentDir) (path fresh : Str) : Option MarketEntry :=
  dir.manifest.map fun m =>
    { id := m.id.getD fresh
      name := m.name.getD (path.reverse.takeWhile (· ≠ '/')).reverse
      author := m.author.getD []
      description := m.description.getD []
      category := m.category.getD []
      tags := m.tags.getD []
      version := m.version.getD "1.0.0"
      graphData := dir.graph.getD (.obj [])
      rating := 0
      downloads := 0
      createdAt := 0
      updatedAt := 0
      sha256 := []
      tenant := "default"
      visibility := "public" }

/-- `import_agent`. -/
def Market.importAgent (s : Market) (path fresh : Str) (now : ℤ) : Option MarketEntry × Market :=
  match (s.dirs path).bind fun dir => dir.entry path fresh with
  | none => (none, s)
  | some entry =>
    let (entry, s) := s.publish library entry "default" fresh now
    (some entry, s)

/-- `install`: the path of the directory. -/
def Market.install (s : Market) (entryId targetDir tenant : Str) : Option Str × Market :=
  match s.get entryId tenant with
  | none => (none, s)
  | some entry =>
    if entry.sha256 ≠ [] ∧ entry.sha256 ≠ computeSignature library entry.graphData then (none, s)
    else
      let (path, s) := s.exportAgent entryId (textOr targetDir "installed") tenant
      (path, s.put { entry with downloads := entry.downloads + 1 })

/-! ### Calls -/

inductive Call
  | publish (entry : MarketEntry) (tenant fresh : Str) (now : ℤ)
  | unpublish (entryId tenant : Str)
  | get (entryId tenant : Str)
  | search (query category : Str) (tags : List Str) (sortBy : Str) (limit : ℤ) (tenant : Str)
  | listCategories (tenant : Str)
  | exportAgent (entryId outputDir tenant : Str)
  | importAgent (path tenant fresh : Str) (now : ℤ)
  | install (entryId targetDir tenant : Str)
  | place (path : Str) (manifest : Option Manifest) (graph : Option Json) (tenant : Str)

def Call.tenant : Call → Str
  | .publish _ tenant _ _ => tenant
  | .unpublish _ tenant => tenant
  | .get _ tenant => tenant
  | .search _ _ _ _ _ tenant => tenant
  | .listCategories tenant => tenant
  | .exportAgent _ _ tenant => tenant
  | .importAgent _ tenant _ _ => tenant
  | .install _ _ tenant => tenant
  | .place _ _ _ tenant => tenant

inductive Answer
  | published (entryId : Str)
  | unpublished (done : Bool)
  | entry (entry : Option MarketEntry)
  | entries (entries : List MarketEntry)
  | categories (categories : List Str)
  | path (path : Option Str)
  | placed

/-- The answer to a call, and the marketplace after it. -/
def call : Call → Market → Answer × Market
  | .publish entry tenant fresh now, s =>
    let (entry, s) := s.publish library entry tenant fresh now
    (.published entry.id, s)
  | .unpublish entryId tenant, s =>
    let (done, s) := s.unpublish entryId tenant
    (.unpublished done, s)
  | .get entryId tenant, s => (.entry (s.get entryId tenant), s)
  | .search query category tags sortBy limit tenant, s =>
    (.entries (s.search library query category tags sortBy limit tenant), s)
  | .listCategories _, s => (.categories s.listCategories, s)
  | .exportAgent entryId outputDir tenant, s =>
    let (path, s) := s.exportAgent entryId outputDir tenant
    (.path path, s)
  | .importAgent path _ fresh now, s =>
    let (entry, s) := s.importAgent library path fresh now
    (.entry entry, s)
  | .install entryId targetDir tenant, s =>
    let (path, s) := s.install library entryId targetDir tenant
    (.path path, s)
  | .place path manifest graph _, s =>
    (.placed, { s with dirs := Function.update s.dirs path (some ⟨manifest, graph, none⟩) })

end

end AgentStudio.Marketplace

import AgentStudio.Graph.RoundTrip
import AgentStudio.Library.Machine
import AgentStudio.Library.NumberedLog
import AgentStudio.Library.Rows
import Mathlib.Data.List.Induction

/-!
# The versions of a graph

The tables `graphs` and `graph_versions` of `agent_runtime/persistence.py`. `save_graph` writes the
row of a graph and, in the same transaction, a version of it, numbered after the largest version
that the graph has; versions that are fifty or more behind are deleted. `delete_graph` deletes the
row only.

`Past` says what was done to a graph: the graphs that were saved under its id, and whether one of
them is stored. The versions of an id are the window of the last fifty saved graphs
(`Recorded.versions`, an instance of `NumberedLog`), so every number is the number of a save, and
none is given twice.

`VersionContract` is what a caller expects of the versions of an id. The numbers are always as
expected; what is loaded is the saved graph exactly if that survives its round trip through JSON
(`versions_throughout_iff`). A node of temperature zero does not (`not_versionContract`).
-/

namespace AgentStudio.Graph

open PyText PyDict PyJson Machine

/-! ### The tables -/

/-- A row of `graphs`. -/
structure GraphRow where
  id : Str
  name : Str
  description : Str
  data : Str
  version : Str
  createdAt : ℤ
  updatedAt : ℤ

/-- A row of `graph_versions`. -/
structure VersionRow where
  graphId : Str
  version : ℤ
  name : Str
  description : Str
  data : Str
  createdAt : ℤ

/-- The primary key of `graph_versions`. -/
def VersionRow.key (r : VersionRow) : Str × ℤ := (r.graphId, r.version)

/-- `GRAPH_VERSION_HISTORY_CAP`. -/
def graphVersionHistoryCap : ℤ := 50

def nextVersion (versions : List VersionRow) (graphId : Str) : ℤ :=
  ((versions.filter (·.graphId = graphId)).map VersionRow.version).max?.getD 0 + 1

theorem key_nextVersion_notMem (versions : List VersionRow) (graphId : Str) :
    (graphId, nextVersion versions graphId) ∉ versions.map VersionRow.key := by
  intro hmem
  obtain ⟨r, hr, hkey⟩ := List.mem_map.mp hmem
  obtain ⟨hid, hversion⟩ := Prod.mk.inj hkey
  have hr : r.version ∈ (versions.filter (·.graphId = graphId)).map VersionRow.version :=
    List.mem_map_of_mem (List.mem_filter.mpr ⟨hr, by simp [hid]⟩)
  rw [nextVersion] at hversion
  cases hmax : ((versions.filter (·.graphId = graphId)).map VersionRow.version).max? with
  | none => simp [List.max?_eq_none_iff.mp hmax] at hr
  | some m =>
    have hle := (List.max?_eq_some_iff.mp hmax).2 _ hr
    rw [hmax, Option.getD_some] at hversion
    omega

/-- `AgentStore`, the tables of the graphs with their primary keys. -/
structure AgentStore where
  graphs : List GraphRow
  versions : List VersionRow
  nodup : (graphs.map GraphRow.id).Nodup
  nodupVersions : (versions.map VersionRow.key).Nodup

namespace AgentStore

variable (s : AgentStore)

def empty : AgentStore := ⟨[], [], List.nodup_nil, List.nodup_nil⟩

/-- The columns that a save sets in the row of a graph that is stored. -/
def excluded (g : AgentGraph) (now : ℤ) (r : GraphRow) : GraphRow :=
  { r with
    name := g.name, description := g.description, data := g.toJson, version := g.version
    updatedAt := now }

/-- `INSERT INTO graphs ... ON CONFLICT(id) DO UPDATE`. -/
def upsertGraph (g : AgentGraph) (now : ℤ) : List GraphRow :=
  if g.id ∈ s.graphs.map GraphRow.id then
    s.graphs.map (Rows.update GraphRow.id g.id (excluded g now))
  else s.graphs ++ [⟨g.id, g.name, g.description, g.toJson, g.version, now, now⟩]

/-- `_record_graph_version`: a version more, and the old ones are deleted. -/
def recordGraphVersion (g : AgentGraph) (now : ℤ) : List VersionRow :=
  let next := nextVersion s.versions g.id
  let row : VersionRow := ⟨g.id, next, g.name, g.description, g.toJson, now⟩
  (s.versions ++ [row]).filter fun r =>
    !(r.graphId = g.id && decide (r.version ≤ next - graphVersionHistoryCap))

/-- `save_graph`. -/
def saveGraph (g : AgentGraph) (now : ℤ) : AgentStore where
  graphs := s.upsertGraph g now
  versions := s.recordGraphVersion g now
  nodup := by
    unfold upsertGraph
    split_ifs with h
    · have hkey : ∀ r, (excluded g now r).id = r.id := fun _ => rfl
      rw [Rows.map_key_update _ hkey]
      exact s.nodup
    · exact Rows.nodup_snoc s.nodup h
  nodupVersions := List.Nodup.sublist (List.filter_sublist.map _)
    (Rows.nodup_snoc s.nodupVersions (key_nextVersion_notMem _ _))

/-- `delete_graph`. -/
def deleteGraph (graphId : Str) : Bool × AgentStore :=
  (s.graphs.any (·.id = graphId),
    { s with
      graphs := s.graphs.filter (·.id ≠ graphId)
      nodup := s.nodup.sublist (List.filter_sublist.map _) })

/-- `load_graph`: nothing if there is no row, and then a graph or an exception. -/
def loadGraph (graphId uuid : Str) : Option (Option AgentGraph) :=
  (s.graphs.find? (·.id = graphId)).map fun r => AgentGraph.fromJson uuid r.data

/-- `load_graph_version`. -/
def loadGraphVersion (graphId : Str) (version : ℤ) (uuid : Str) : Option (Option AgentGraph) :=
  (s.versions.find? fun r => r.graphId = graphId && r.version = version).map fun r =>
    AgentGraph.fromJson uuid r.data

def versionsOf (graphId : Str) : List (ℤ × Str) :=
  (s.versions.filter (·.graphId = graphId)).map fun r => (r.version, r.data)

end AgentStore

/-! ### Runs -/

inductive GraphOp where
  | save (g : AgentGraph) (now : ℤ)
  | delete (graphId : Str)
  | load (graphId uuid : Str)
  | loadVersion (graphId : Str) (version : ℤ) (uuid : Str)

inductive GraphResult where
  | saved
  | deleted (found : Bool)
  | loaded (g : Option (Option AgentGraph))

def AgentStore.step (op : GraphOp) (s : AgentStore) : GraphResult × AgentStore :=
  match op with
  | .save g now => (.saved, s.saveGraph g now)
  | .delete graphId => (s.deleteGraph graphId).map .deleted id
  | .load graphId uuid => (.loaded (s.loadGraph graphId uuid), s)
  | .loadVersion graphId version uuid => (.loaded (s.loadGraphVersion graphId version uuid), s)

/-- The store after some operations on a new database. -/
def storeAfter (ops : List GraphOp) : AgentStore := (run AgentStore.step ops .empty).2

/-- What was done to a graph: the graphs that were saved under its id, and whether the last of
them has not been deleted. -/
structure Past where
  saves : List AgentGraph
  stored : Bool

/-- What was done to a graph, with an operation more. -/
def Past.after (id : Str) (p : Past) : GraphOp → Past
  | .save g _ => if g.id = id then ⟨p.saves ++ [g], true⟩ else p
  | .delete graphId => if graphId = id then { p with stored := false } else p
  | _ => p

/-- What some operations on a new database do to a graph. -/
def Past.of (id : Str) (ops : List GraphOp) : Past := ops.foldl (Past.after id) ⟨[], false⟩

/-- The versions of a graph after `n` saves: the numbers are the last fifty up to `n`, and the
next number is new; every version that is kept loads as the graph that was saved with its number,
and a graph that is stored loads as its highest version. -/
structure VersionContract (id : Str) (s : AgentStore) (p : Past) : Prop where
  numbers : ∀ v, (∃ r ∈ s.versions, r.graphId = id ∧ r.version = v) ↔
    max 1 ((p.saves.length : ℤ) - 49) ≤ v ∧ v ≤ p.saves.length
  fresh : nextVersion s.versions id = p.saves.length + 1
  loaded : ∀ r ∈ s.versions, r.graphId = id → ∀ uuid, uuid ≠ [] →
    ∃ g, p.saves[(r.version - 1).toNat]? = some g ∧
      s.loadGraphVersion id r.version uuid = some (some g)
  current : p.stored = true → ∀ uuid, uuid ≠ [] →
    s.loadGraph id uuid = s.loadGraphVersion id p.saves.length uuid

/-- The tables of a store agree with what was done to a graph. -/
structure Recorded (id : Str) (s : AgentStore) (p : Past) : Prop where
  versions : s.versionsOf id =
    NumberedLog.window graphVersionHistoryCap (p.saves.map AgentGraph.toJson)
  graph : (s.graphs.find? (·.id = id)).map GraphRow.data =
    if p.stored then (p.saves.map AgentGraph.toJson).getLast? else none
  saved : p.stored = true → p.saves ≠ []

/-! ### What the operations do to the tables -/

namespace AgentStore

variable {s : AgentStore} {id : Str}

theorem nextNumber_versionsOf :
    NumberedLog.nextNumber (s.versionsOf id) = nextVersion s.versions id := by
  rw [NumberedLog.nextNumber, versionsOf, nextVersion, List.map_map]
  rfl

theorem versionsOf_saveGraph (g : AgentGraph) (now : ℤ) :
    (s.saveGraph g now).versionsOf id =
      if g.id = id then NumberedLog.push graphVersionHistoryCap g.toJson (s.versionsOf id)
      else s.versionsOf id := by
  have hversions : (s.saveGraph g now).versions = s.recordGraphVersion g now := rfl
  rw [versionsOf, hversions, recordGraphVersion]
  split_ifs with hid
  · subst hid
    rw [NumberedLog.push, nextNumber_versionsOf, versionsOf, List.filter_filter,
      List.filter_append, List.filter_append, List.map_append, List.filter_map, List.filter_filter]
    refine congrArg₂ _ (congrArg _ (List.filter_congr fun r _ => ?_)) ?_
    · have hle : ∀ a b : ℤ, decide (a ≤ b) = !decide (b < a) := fun a b => by
        rw [← decide_not, decide_eq_decide, not_lt]
      by_cases hr : r.graphId = g.id <;> simp [hr, hle]
    · simp [graphVersionHistoryCap]
  · rw [versionsOf, List.filter_filter, List.filter_append, List.map_append]
    have hold : ∀ r ∈ s.versions, ((decide (r.graphId = id)) && !(r.graphId = g.id &&
        decide (r.version ≤ nextVersion s.versions g.id - graphVersionHistoryCap))) =
          decide (r.graphId = id) := fun r _ => by
      by_cases hr : r.graphId = id
      · simp [hr, Ne.symm hid]
      · simp [hr]
    rw [List.filter_congr hold]
    simp [hid]

theorem find_saveGraph (g : AgentGraph) (now : ℤ) :
    ((s.saveGraph g now).graphs.find? (·.id = id)).map GraphRow.data =
      if g.id = id then some g.toJson else (s.graphs.find? (·.id = id)).map GraphRow.data := by
  have hgraphs : (s.saveGraph g now).graphs = s.upsertGraph g now := rfl
  rw [hgraphs, upsertGraph]
  by_cases hmem : g.id ∈ s.graphs.map GraphRow.id
  · rw [if_pos hmem, List.find?_map]
    have hkey : ((fun r : GraphRow => decide (r.id = id)) ∘
        Rows.update GraphRow.id g.id (excluded g now)) = fun r => decide (r.id = id) :=
      funext fun r => by
        have hid := Rows.key_update g.id
          (show ∀ r, (excluded g now r).id = r.id from fun _ => rfl) r
        rw [Function.comp, hid]
    rw [hkey]
    cases hf : s.graphs.find? (·.id = id) with
    | none =>
      obtain ⟨r, hr, hrid⟩ := List.mem_map.mp hmem
      have hne : g.id ≠ id := fun hid =>
        List.find?_eq_none.mp hf r hr (by simpa using hrid.trans hid)
      simp [hne]
    | some r =>
      have hrid : r.id = id := by simpa using List.find?_some hf
      split_ifs with hid
      · simp [Rows.update, hrid, hid, excluded]
      · simp [Rows.update, hrid, Ne.symm hid]
  · rw [if_neg hmem, List.find?_append]
    split_ifs with hid
    · have hnone : s.graphs.find? (·.id = id) = none :=
        List.find?_eq_none.mpr fun r hr hrid =>
          hmem (List.mem_map.mpr ⟨r, hr, by simpa [hid] using hrid⟩)
      simp [hnone, hid]
    · simp [hid]

theorem loadGraphVersion_eq {v : ℤ} {data : Str} (h : (v, data) ∈ s.versionsOf id) (uuid : Str) :
    s.loadGraphVersion id v uuid = some (AgentGraph.fromJson uuid data) := by
  obtain ⟨r, hr, heq⟩ := List.mem_map.mp h
  obtain ⟨rfl, rfl⟩ := Prod.mk.inj heq
  obtain ⟨hmem, hid⟩ := List.mem_filter.mp hr
  obtain rfl : r.graphId = id := by simpa using hid
  rw [loadGraphVersion]
  cases hf : s.versions.find? fun x => x.graphId = r.graphId && x.version = r.version with
  | none => simpa using List.find?_eq_none.mp hf r hmem
  | some x =>
    have hx := List.find?_some hf
    simp only [Bool.and_eq_true, decide_eq_true_eq] at hx
    have hkey : x.key = r.key := Prod.ext hx.1 hx.2
    rw [List.inj_on_of_nodup_map s.nodupVersions (List.mem_of_find?_eq_some hf) hmem hkey,
      Option.map_some]

end AgentStore

/-! ### Every run -/

namespace Recorded

variable {id : Str} {s : AgentStore} {p : Past}

/-- **One operation.** The tables stay in agreement with what was done. -/
theorem step (h : Recorded id s p) (op : GraphOp) :
    Recorded id (AgentStore.step op s).2 (p.after id op) := by
  cases op with
  | load | loadVersion => exact h
  | save g now =>
    have hversions : (s.saveGraph g now).versionsOf id = _ :=
      AgentStore.versionsOf_saveGraph g now
    have hgraph : ((s.saveGraph g now).graphs.find? (·.id = id)).map GraphRow.data = _ :=
      AgentStore.find_saveGraph g now
    by_cases hid : g.id = id
    · rw [if_pos hid] at hversions hgraph
      rw [Past.after, if_pos hid]
      refine ⟨?_, ?_, fun _ => by simp⟩
      · rw [List.map_append]
        exact hversions.trans (h.versions ▸ NumberedLog.push_window (by decide) _ _)
      · exact hgraph.trans (by simp)
    · rw [if_neg hid] at hversions hgraph
      rw [Past.after, if_neg hid]
      exact ⟨hversions.trans h.versions, hgraph.trans h.graph, h.saved⟩
  | delete graphId =>
    have hfind : (AgentStore.step (.delete graphId) s).2.graphs.find? (·.id = id) =
        if graphId = id then none else s.graphs.find? (·.id = id) := by
      change (s.graphs.filter (·.id ≠ graphId)).find? (·.id = id) = _
      rw [List.find?_filter]
      split_ifs with hid
      · simp [hid]
      · refine congrArg (fun q => s.graphs.find? q) (funext fun r => ?_)
        by_cases hr : r.id = id
        · simp [hr, Ne.symm hid]
        · simp [hr]
    rw [Past.after]
    split_ifs at hfind ⊢ with hid
    · exact ⟨h.versions, congrArg _ hfind, fun hx => absurd hx Bool.false_ne_true⟩
    · exact ⟨h.versions, (congrArg _ hfind).trans h.graph, h.saved⟩

theorem mem_versionsOf_iff (h : Recorded id s p) {v : ℤ} {data : Str} :
    (v, data) ∈ s.versionsOf id ↔ (p.saves.length : ℤ) - graphVersionHistoryCap < v ∧ 1 ≤ v ∧
      ∃ g, p.saves[(v - 1).toNat]? = some g ∧ g.toJson = data := by
  rw [h.versions, NumberedLog.mem_window_iff, List.length_map, List.getElem?_map,
    Option.map_eq_some_iff]

/-- **The contract** holds exactly if every graph whose version is kept survives. -/
theorem contract_iff (h : Recorded id s p) :
    VersionContract id s p ↔
      ∀ v g, (p.saves.length : ℤ) - graphVersionHistoryCap < v → 1 ≤ v →
        p.saves[(v - 1).toNat]? = some g → g.Survives := by
  have hrow {v : ℤ} : (∃ r ∈ s.versions, r.graphId = id ∧ r.version = v) ↔
      ∃ data, (v, data) ∈ s.versionsOf id := by
    simp [AgentStore.versionsOf, and_assoc]
  constructor
  · intro hc v g hlt hpos hg
    have hmem := h.mem_versionsOf_iff.mpr ⟨hlt, hpos, g, hg, rfl⟩
    obtain ⟨r, hr, hid, rfl⟩ := hrow.mpr ⟨_, hmem⟩
    have huuid : "u".toList ≠ [] := by decide
    obtain ⟨g', hg', hload⟩ := hc.loaded r hr hid _ huuid
    obtain rfl := Option.some.inj (hg.symm.trans hg')
    rw [AgentStore.loadGraphVersion_eq hmem, Option.some.injEq] at hload
    exact (AgentGraph.fromJson_toJson_iff_survives huuid).mp hload
  · intro hs
    refine ⟨fun v => ?_, ?_, fun r hr hid uuid huuid => ?_, fun hstored uuid huuid => ?_⟩
    · rw [hrow, h.versions, NumberedLog.exists_mem_window_iff, List.length_map,
        graphVersionHistoryCap]
      omega
    · rw [← AgentStore.nextNumber_versionsOf, h.versions,
        NumberedLog.nextNumber_window (by decide), List.length_map]
    · have hmem : (r.version, r.data) ∈ s.versionsOf id :=
        List.mem_map.mpr ⟨r, List.mem_filter.mpr ⟨hr, by simp [hid]⟩, rfl⟩
      obtain ⟨hlt, hpos, g, hg, hdata⟩ := h.mem_versionsOf_iff.mp hmem
      have hsurvives := hs r.version g hlt hpos hg
      refine ⟨g, hg, ?_⟩
      rw [AgentStore.loadGraphVersion_eq hmem, ← hdata,
        (AgentGraph.fromJson_toJson_iff_survives huuid).mpr hsurvives]
    · obtain ⟨gs, g, hgs⟩ := List.eq_nil_or_concat p.saves |>.resolve_left (h.saved hstored)
      have hmem : ((p.saves.length : ℤ), g.toJson) ∈ s.versionsOf id :=
        h.mem_versionsOf_iff.mpr ⟨by simp [graphVersionHistoryCap], by simp [hgs], g,
          by simp [hgs], rfl⟩
      have hgraph := h.graph
      rw [if_pos hstored, hgs, List.concat_eq_append, List.map_append] at hgraph
      rw [AgentStore.loadGraphVersion_eq hmem, AgentStore.loadGraph]
      cases hf : s.graphs.find? (·.id = id) with
      | none => simp [hf] at hgraph
      | some r =>
        rw [hf] at hgraph
        have hdata : r.data = g.toJson := by simpa using hgraph
        rw [Option.map_some, hdata]

end Recorded

theorem recorded_of (id : Str) (ops : List GraphOp) :
    Recorded id (storeAfter ops) (Past.of id ops) := by
  induction ops using List.reverseRecOn with
  | nil => exact ⟨rfl, rfl, fun h => absurd h Bool.false_ne_true⟩
  | append_singleton ops op ih =>
    rw [storeAfter, run_append, Past.of, List.foldl_append]
    exact ih.step op

theorem Past.mem_saves_of {id : Str} {ops : List GraphOp} {g : AgentGraph} :
    g ∈ (Past.of id ops).saves ↔ ∃ now, .save g now ∈ ops ∧ g.id = id := by
  induction ops using List.reverseRecOn with
  | nil => simp [Past.of]
  | append_singleton ops op ih =>
    have hof : Past.of id (ops ++ [op]) = (Past.of id ops).after id op := by
      rw [Past.of, List.foldl_append]
      rfl
    simp only [hof, List.mem_append, List.mem_singleton]
    cases op with
    | load | loadVersion => simpa [Past.after] using ih
    | delete graphId =>
      simp only [Past.after]
      split_ifs <;> simpa using ih
    | save x now =>
      simp only [Past.after]
      split_ifs with hid
      · rw [List.mem_append, ih, List.mem_singleton]
        constructor
        · rintro (⟨t, hmem, hg⟩ | rfl)
          · exact ⟨t, Or.inl hmem, hg⟩
          · exact ⟨now, Or.inr rfl, hid⟩
        · rintro ⟨t, hmem | heq, hg⟩
          · exact Or.inl ⟨t, hmem, hg⟩
          · exact Or.inr (GraphOp.save.inj heq).1
      · rw [ih]
        refine exists_congr fun t => and_congr_left fun hg => (or_iff_left fun heq => ?_).symm
        exact hid ((GraphOp.save.inj heq).1 ▸ hg)

/-- **The versions of a graph.** In a run on a new database, the versions of an id are as expected
in every state exactly if every graph that is saved under it survives saving and loading. -/
theorem versions_throughout_iff (id : Str) (ops : List GraphOp) :
    (∀ n, VersionContract id (storeAfter (ops.take n)) (Past.of id (ops.take n))) ↔
      ∀ g now, .save g now ∈ ops → g.id = id → g.Survives := by
  constructor
  · intro hall g now hmem hid
    obtain ⟨before, after, rfl⟩ := List.append_of_mem hmem
    have hsaves : (Past.of id (before ++ [.save g now])).saves =
        (Past.of id before).saves ++ [g] := by
      rw [Past.of, List.foldl_append]
      simp [Past.after, hid, Past.of]
    have hcontract := hall (before.length + 1)
    have htake : (before ++ .save g now :: after).take (before.length + 1) =
        before ++ [.save g now] := by
      rw [List.take_append, List.take_of_length_le (by omega)]
      simp
    rw [htake] at hcontract
    refine (recorded_of id _).contract_iff.mp hcontract ((Past.of id before).saves.length + 1) g
      ?_ (by omega) ?_
    · rw [hsaves, List.length_append, graphVersionHistoryCap]
      simp
    · simp [hsaves]
  · intro hsurvives n
    refine (recorded_of id _).contract_iff.mpr fun v g _ _ hg => ?_
    obtain ⟨now, hmem, hid⟩ := Past.mem_saves_of.mp (List.mem_of_getElem? hg)
    exact hsurvives g now (List.mem_of_mem_take hmem) hid

/-- A saved node of temperature zero is loaded with the default temperature. -/
theorem not_versionContract :
    ¬ ∀ (id : Str) (ops : List GraphOp), VersionContract id (storeAfter ops) (Past.of id ops) := by
  intro hall
  let g : AgentGraph := AgentGraph.oneNode 0
  have hcontract := hall g.id [.save g 0]
  have hsurvives := (recorded_of g.id [.save g 0]).contract_iff.mp hcontract 1 g (by decide)
    (by decide) rfl
  exact (hsurvives.nodes _ List.mem_cons_self).1.temperature rfl

end AgentStudio.Graph

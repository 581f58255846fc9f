import AgentStudio.Flows.Isolation

/-!
# The versions of a flow

A flow should have the versions from 1 to its current one, the last of them with the text of its
graph (`FlowStore.Versioned`); restoring a version should make the graph that of the version, also
where the current text can no longer be read (`Restores`); and saving should leave the name, the
description and the kind that were passed, or those that were there (`Saves`).

Three methods stand in the way: `delete_flow` deletes the versions of another tenant's flow,
`restore_version` reads the current text first, and `save_flow` returns before it writes the name,
the description and the kind if the graph is as it was, and writes the defaults of parameters that
are not passed if it is not. `kept_iff_faithful` says that nothing else is wrong (`Faithful`).
-/

namespace AgentStudio.Flows

open PyText PyJson Rows Machine

/-! ### Runs -/

/-- A call, or damage to the text of a flow, which can no longer be read. -/
inductive Event
  | call (c : Call)
  | damage (flowId text : Str)

def step (decodeError : Str → Str) : Event → FlowStore → Except FlowError Json × FlowStore
  | .call c, s => call decodeError c s
  | .damage flowId text, s =>
    match s.flows.find flowId, loads text with
    | some r, none => (.ok .null, s.write { r with graphJson := text })
    | _, _ => (.ok .null, s)

def reached (decodeError : Str → Str) (events : List Event) : FlowStore :=
  (run (step decodeError) events .empty).2

/-! ### The law -/

/-- A flow has the versions from 1 to its current one, which has its text, unless that has been
damaged. -/
structure FlowStore.Versioned (s : FlowStore) : Prop where
  first : ∀ r ∈ s.flows.rows, 1 ≤ r.version
  numbered : ∀ r ∈ s.flows.rows, ∀ n,
    (s.versions.find (r.flowId, n)).isSome ↔ 1 ≤ n ∧ n ≤ r.version
  current : ∀ r ∈ s.flows.rows, ∀ v ∈ s.versions.find (r.flowId, r.version),
    v.graphJson = r.graphJson ∨ loads r.graphJson = none

/-- A version that is restored is the current graph. -/
def Restores (decodeError : Str → Str) (e : Event) (s : FlowStore) : Prop :=
  match e with
  | .call (.restore flowId version tenantId now) =>
    ∀ r ∈ s.row flowId tenantId, ∀ v ∈ s.versions.find (flowId, version),
      ∃ r' ∈ (call decodeError (.restore flowId version tenantId now) s).2.row flowId tenantId,
        ∃ graph ∈ loads r'.graphJson, ∃ target ∈ loads v.graphJson, graph.Equal target
  | _ => True

/-- What is passed when a flow is saved is stored, and what is not passed stays as it was. -/
def Saves (decodeError : Str → Str) (e : Event) (s : FlowStore) : Prop :=
  match e with
  | .call (.save graph tenantId name description kind flowId fresh now) =>
    ∀ answer, (call decodeError (.save graph tenantId name description kind flowId fresh now) s).1 =
      .ok answer →
    if flowId = [] then
      ∃ r ∈ (call decodeError (.save graph tenantId name description kind flowId fresh now) s).2.row
          ("flow-" ++ fresh) tenantId,
        (∀ x ∈ name, r.name = x) ∧ (∀ x ∈ description, r.description = x) ∧ ∀ x ∈ kind, r.kind = x
    else
      ∀ r ∈ s.row flowId tenantId,
        ∃ r' ∈ (call decodeError (.save graph tenantId name description kind flowId fresh now)
            s).2.row flowId tenantId,
          r'.name = name.getD r.name ∧ r'.description = description.getD r.description ∧
            r'.kind = kind.getD r.kind
  | _ => True

/-- The law of a run: its states are versioned, and its calls restore and save. -/
structure Kept (decodeError : Str → Str) (events : List Event) : Prop where
  versioned : ∀ n, (reached decodeError (events.take n)).Versioned
  restores : Along (step decodeError) (Restores decodeError) events .empty
  saves : Along (step decodeError) (Saves decodeError) events .empty

/-! ### When it holds -/

/-- The condition on what is passed when a flow is saved: with the graph it has, nothing that
differs from what is there; with another graph, no empty name unless it is there, and a description
and a kind unless the defaults are there. -/
def FlowRow.Takes (r : FlowRow) (graphJson : Str) (name description kind : Option Str) : Prop :=
  if r.graphJson = graphJson then
    name.getD r.name = r.name ∧ description.getD r.description = r.description ∧
      kind.getD r.kind = r.kind
  else
    (name = some [] → r.name = []) ∧ (description = none → r.description = []) ∧
      (kind = none → r.kind = "flow")

def Faithful (e : Event) (s : FlowStore) : Prop :=
  match e with
  | .call (.save graph tenantId name description kind flowId fresh _) =>
    graphProblem graph.json = none →
      if flowId = [] then s.flows.find ("flow-" ++ fresh) = none → name ≠ some []
      else ∀ r ∈ s.row flowId tenantId, r.Takes (dumps none graph.json) name description kind
  | .call (.restore flowId version tenantId _) =>
    ∀ r ∈ s.row flowId tenantId, (s.versions.find (flowId, version)).isSome →
      (loads r.graphJson).isSome
  | .call (.delete flowId tenantId) => ∀ r ∈ s.flows.find flowId, r.tenantId = tenantId
  | _ => True

/-! ### The invariant -/

/-- What holds in the states of a run that keeps the law. -/
structure FlowStore.Sound (s : FlowStore) : Prop extends s.Versioned where
  flow : ∀ v ∈ s.versions.rows, (s.flows.find v.flowId).isSome
  text : ∀ v ∈ s.versions.rows, ∃ graph : Document, v.graphJson = dumps none graph.json

section

variable {s : FlowStore} {a b f : Str} {r : FlowRow} {v : VersionRow}

theorem FlowStore.Sound.read (hs : s.Sound) (hv : v ∈ s.versions.rows) :
    ∃ graph : Json, graph.WF ∧ loads v.graphJson = some graph := by
  obtain ⟨graph, hgraph⟩ := hs.text v hv
  exact ⟨graph.json, graph.wf, by rw [hgraph, loads_dumps none graph.wf]⟩

theorem mem_of_row (h : s.row f b = some r) : r ∈ s.flows.rows :=
  (Table.find_eq_some_iff.mp (row_eq_some_iff.mp h).1).1

theorem FlowStore.Sound.read_row (hs : s.Sound) (hr : r ∈ s.flows.rows) {graph : Json}
    (hgraph : loads r.graphJson = some graph) : graph.WF := by
  have hlast : (s.versions.find (r.flowId, r.version)).isSome :=
    (hs.numbered r hr r.version).mpr ⟨hs.first r hr, le_rfl⟩
  obtain ⟨v, hv⟩ := Option.isSome_iff_exists.mp hlast
  rcases hs.current r hr v hv with htext | hnone
  · obtain ⟨graph', hwf, hread⟩ := hs.read (Table.find_eq_some_iff.mp hv).1
    rw [htext, hgraph] at hread
    exact Option.some.inj hread ▸ hwf
  · exact absurd (hnone.symm.trans hgraph) (Option.some_ne_none _).symm

/-! ### Changing a flow -/

theorem addVersion_of_none (h : s.versions.find v.key = none) (answer : Json) :
    s.addVersion v answer = (.ok answer, { s with versions := s.versions.upsert v }) := by
  rw [FlowStore.addVersion, if_neg fun hsome => absurd h (Option.ne_none_iff_isSome.mpr hsome)]

/-- A flow gets its next version: it is written together with it. -/
structure FlowStore.Next (s : FlowStore) (r : FlowRow) (v : VersionRow) : Prop where
  flowId : v.flowId = r.flowId
  version : v.version = r.version
  graphJson : v.graphJson = r.graphJson
  text : ∃ graph : Document, v.graphJson = dumps none graph.json
  first : 1 ≤ r.version
  before : ∀ n, (s.versions.find (r.flowId, n)).isSome ↔ 1 ≤ n ∧ n < r.version

theorem FlowStore.Next.key_eq (h : s.Next r v) : v.key = (r.flowId, r.version) :=
  Prod.ext h.flowId h.version

theorem FlowStore.Next.addVersion (h : s.Next r v) (answer : Json) :
    (s.write r).addVersion v answer =
      (.ok answer, ⟨s.flows.upsert r, s.versions.upsert v⟩) := by
  refine addVersion_of_none (Option.eq_none_iff_forall_ne_some.mpr fun x hx => ?_) answer
  have hsome : (s.versions.find (r.flowId, r.version)).isSome := by
    rw [← h.key_eq]
    exact Option.isSome_iff_exists.mpr ⟨x, hx⟩
  exact absurd ((h.before r.version).mp hsome).2 (lt_irrefl _)

theorem find_flow_upsert {g : Str} (h : (s.flows.find g).isSome) :
    ((s.flows.upsert r).find g).isSome := by
  by_cases hg : g = r.flowId
  · rw [hg, Table.find_upsert_self]
    rfl
  · rwa [Table.find_upsert_of_ne hg]

theorem FlowStore.Sound.next (hs : s.Sound) (h : s.Next r v) :
    FlowStore.Sound ⟨s.flows.upsert r, s.versions.upsert v⟩ := by
  -- the versions of another flow are the ones it had
  have hother : ∀ r' : FlowRow, r'.flowId ≠ r.flowId → ∀ n,
      (s.versions.upsert v).find (r'.flowId, n) = s.versions.find (r'.flowId, n) := by
    intro r' hne n
    refine Table.find_upsert_of_ne fun heq => hne ?_
    exact (congrArg Prod.fst heq).trans h.flowId
  refine ⟨⟨fun r' hr' => ?_, fun r' hr' n => ?_, fun r' hr' x hx => ?_⟩, fun x hx => ?_,
    fun x hx => ?_⟩
  · rcases Table.mem_upsert.mp hr' with rfl | ⟨hr', -⟩
    · exact h.first
    · exact hs.first r' hr'
  · rcases Table.mem_upsert.mp hr' with rfl | ⟨hr', hne⟩
    · by_cases hn : n = r'.version
      · subst hn
        rw [← h.key_eq, Table.find_upsert_self]
        exact iff_of_true rfl ⟨h.first, le_rfl⟩
      · have hkey : (r'.flowId, n) ≠ v.key := fun heq => hn (congrArg Prod.snd (h.key_eq ▸ heq))
        rw [Table.find_upsert_of_ne hkey, h.before n]
        exact and_congr_right fun _ => ⟨le_of_lt, fun hle => lt_of_le_of_ne hle hn⟩
    · rw [hother r' hne]
      exact hs.numbered r' hr' n
  · rcases Table.mem_upsert.mp hr' with rfl | ⟨hr', hne⟩
    · rw [← h.key_eq, Table.find_upsert_self] at hx
      exact Or.inl ((Option.some.inj hx) ▸ h.graphJson)
    · rw [hother r' hne] at hx
      exact hs.current r' hr' x hx
  · rcases Table.mem_upsert.mp hx with rfl | ⟨hx, -⟩
    · rw [h.flowId]
      change ((s.flows.upsert r).find r.flowId).isSome
      rw [Table.find_upsert_self]
      rfl
    · exact find_flow_upsert (hs.flow x hx)
  · rcases Table.mem_upsert.mp hx with rfl | ⟨hx, -⟩
    · exact h.text
    · exact hs.text x hx

theorem FlowStore.Sound.next_of_row (hs : s.Sound) {r₀ : FlowRow} (hr : s.row f b = some r₀)
    (hid : r.flowId = f) (hversion : r.version = r₀.version + 1) (hvid : v.flowId = f)
    (hvversion : v.version = r₀.version + 1) (htext : v.graphJson = r.graphJson)
    (hgraph : ∃ graph : Document, v.graphJson = dumps none graph.json) : s.Next r v where
  flowId := hvid.trans hid.symm
  version := hvversion.trans hversion.symm
  graphJson := htext
  text := hgraph
  first := by
    have := hs.first r₀ (mem_of_row hr)
    omega
  before n := by
    have hnumbered := hs.numbered r₀ (mem_of_row hr) n
    rw [flowId_of_row hr] at hnumbered
    rw [hid, hnumbered]
    omega

/-! ### What the calls do -/

section

variable {graph : Document} {name description kind : Option Str} {fresh : Str} {now : ℤ}
  {decodeError : Str → Str}

/-- The row that a save of another graph makes of a flow. -/
def FlowRow.saved (r : FlowRow) (graphJson : Str) (name description kind : Option Str) (now : ℤ) :
    FlowRow :=
  { r with
    graphJson, version := r.version + 1, name := nameOr (name.getD []) r.name
    description := description.getD [], kind := kind.getD "flow", updatedAt := now }

def newRow (fid tenantId graphJson : Str) (name description kind : Option Str) (now : ℤ) :
    FlowRow :=
  ⟨fid, tenantId, nameOr (name.getD []) "Untitled flow", description.getD [], graphJson, 1,
    kind.getD "flow", now, now⟩

theorem call_save_invalid {message : Str} (h : graphProblem graph.json = some message) :
    call decodeError (.save graph b name description kind f fresh now) s =
      (.error (.store message), s) := by
  unfold call FlowStore.saveFlow
  dsimp only
  rw [h]

theorem call_save_missing (h : graphProblem graph.json = none) (hf : f ≠ [])
    (hr : s.row f b = none) : call decodeError (.save graph b name description kind f fresh now) s =
      (.error (notFound f b), s) := by
  unfold call FlowStore.saveFlow
  dsimp only
  rw [h]
  dsimp only
  rw [if_pos hf, hr]

theorem call_save_same (h : graphProblem graph.json = none) (hf : f ≠ []) (hr : s.row f b = some r)
    (hsame : r.graphJson = dumps none graph.json) :
    call decodeError (.save graph b name description kind f fresh now) s =
      (.ok (saved f r.version false now), s) := by
  unfold call FlowStore.saveFlow
  dsimp only
  rw [h]
  dsimp only
  rw [if_pos hf, hr]
  exact if_pos hsame

variable (name description kind fresh now decodeError) in
theorem call_save_other (hs : s.Sound) (h : graphProblem graph.json = none) (hf : f ≠ [])
    (hr : s.row f b = some r) (hother : r.graphJson ≠ dumps none graph.json) :
    ∃ v, s.Next (r.saved (dumps none graph.json) name description kind now) v ∧
      call decodeError (.save graph b name description kind f fresh now) s =
        (.ok (saved f (r.version + 1) false now),
          ⟨s.flows.upsert (r.saved (dumps none graph.json) name description kind now),
            s.versions.upsert v⟩) := by
  have hnext : s.Next (r.saved (dumps none graph.json) name description kind now)
      ⟨f, r.version + 1, dumps none graph.json, now⟩ :=
    hs.next_of_row hr (flowId_of_row hr :) rfl rfl rfl rfl ⟨graph, rfl⟩
  refine ⟨_, hnext, ?_⟩
  rw [← hnext.addVersion]
  unfold call FlowStore.saveFlow
  dsimp only
  rw [h]
  dsimp only
  rw [if_pos hf, hr]
  exact if_neg hother

theorem call_save_taken (h : graphProblem graph.json = none)
    (htaken : (s.flows.find ("flow-" ++ fresh)).isSome) :
    call decodeError (.save graph b name description kind [] fresh now) s =
      (.error .integrity, s) := by
  unfold call FlowStore.saveFlow
  dsimp only
  rw [h]
  dsimp only
  rw [if_neg (fun hne => hne rfl), if_pos htaken]

variable (b name description kind now decodeError) in
theorem call_save_new (hs : s.Sound) (h : graphProblem graph.json = none)
    (hfree : s.flows.find ("flow-" ++ fresh) = none) :
    ∃ v, s.Next (newRow ("flow-" ++ fresh) b (dumps none graph.json) name description kind
        now) v ∧
      call decodeError (.save graph b name description kind [] fresh now) s =
        (.ok (saved ("flow-" ++ fresh) 1 true now),
          ⟨s.flows.upsert (newRow ("flow-" ++ fresh) b (dumps none graph.json) name
            description kind now), s.versions.upsert v⟩) := by
  have hnone : ∀ n, ¬ (s.versions.find ("flow-" ++ fresh, n)).isSome := by
    intro n hsome
    obtain ⟨x, hx⟩ := Option.isSome_iff_exists.mp hsome
    obtain ⟨hmem, hkey⟩ := Table.find_eq_some_iff.mp hx
    have hflow := hs.flow x hmem
    rw [show x.flowId = _ from congrArg Prod.fst hkey, hfree] at hflow
    exact Bool.false_ne_true hflow
  have hnext : s.Next (newRow ("flow-" ++ fresh) b (dumps none graph.json) name description
      kind now) ⟨"flow-" ++ fresh, 1, dumps none graph.json, now⟩ :=
    ⟨rfl, rfl, rfl, ⟨graph, rfl⟩, le_rfl,
      fun n => iff_of_false (hnone n) fun hn => absurd hn.2 (not_lt.mpr hn.1)⟩
  refine ⟨_, hnext, ?_⟩
  rw [← hnext.addVersion]
  unfold call FlowStore.saveFlow
  dsimp only
  rw [h]
  dsimp only
  rw [if_neg (fun hne => hne rfl), hfree]
  exact if_neg Bool.false_ne_true

def FlowRow.withText (r : FlowRow) (graphJson : Str) (now : ℤ) : FlowRow :=
  { r with graphJson, version := r.version + 1, updatedAt := now }

theorem call_restore_of_none {n : ℤ} (h : s.row f b = none ∨ s.versions.find (f, n) = none) :
    (call decodeError (.restore f n b now) s).2 = s := by
  unfold call FlowStore.restoreVersion
  dsimp only
  split
  · rfl
  · next hr =>
    rw [h.resolve_left fun hnone => Option.some_ne_none _ (hr.symm.trans hnone)]

theorem call_restore_damaged {n : ℤ} (hr : s.row f b = some r)
    (hv : s.versions.find (f, n) = some v) (hnone : loads r.graphJson = none) :
    call decodeError (.restore f n b now) s = (.error .decode, s) := by
  unfold call FlowStore.restoreVersion
  dsimp only
  rw [hr]
  dsimp only
  rw [hv, hnone]

theorem call_restore_same {n : ℤ} {current target : Json} (hr : s.row f b = some r)
    (hv : s.versions.find (f, n) = some v) (hc : loads r.graphJson = some current)
    (ht : loads v.graphJson = some target)
    (hsame : dumps none (sortKeys current) = dumps none (sortKeys target)) :
    call decodeError (.restore f n b now) s = (.ok (restored f r.version false), s) := by
  unfold call FlowStore.restoreVersion
  dsimp only
  rw [hr]
  dsimp only
  rw [hv, hc]
  dsimp only
  rw [ht]
  exact if_pos hsame

variable (now decodeError) in
theorem call_restore_other (hs : s.Sound) {n : ℤ} {current target : Json}
    (hr : s.row f b = some r) (hv : s.versions.find (f, n) = some v)
    (hc : loads r.graphJson = some current) (ht : loads v.graphJson = some target)
    (hother : dumps none (sortKeys current) ≠ dumps none (sortKeys target)) :
    ∃ x, s.Next (r.withText v.graphJson now) x ∧
      call decodeError (.restore f n b now) s = (.ok (restored f (r.version + 1) true),
        ⟨s.flows.upsert (r.withText v.graphJson now), s.versions.upsert x⟩) := by
  have hnext : s.Next (r.withText v.graphJson now) ⟨f, r.version + 1, v.graphJson, now⟩ :=
    hs.next_of_row hr (flowId_of_row hr :) rfl rfl rfl rfl
      (hs.text v (Table.find_eq_some_iff.mp hv).1)
  refine ⟨_, hnext, ?_⟩
  rw [← hnext.addVersion]
  unfold call FlowStore.restoreVersion
  dsimp only
  rw [hr]
  dsimp only
  rw [hv, hc]
  dsimp only
  rw [ht]
  exact if_neg hother

end

/-! ### What the calls keep -/

section

variable {decodeError : Str → Str}

variable (decodeError) in
theorem FlowStore.Sound.save (hs : s.Sound) (graph : Document) (name description kind : Option Str)
    (fresh : Str) (now : ℤ) :
    (call decodeError (.save graph b name description kind f fresh now) s).2.Sound := by
  cases hvalid : graphProblem graph.json with
  | some message =>
    rw [call_save_invalid hvalid]
    exact hs
  | none =>
    by_cases hf : f = []
    · subst hf
      cases hfind : s.flows.find ("flow-" ++ fresh) with
      | some r =>
        rw [call_save_taken hvalid (by rw [hfind]; rfl)]
        exact hs
      | none =>
        obtain ⟨v, hnext, heq⟩ := call_save_new b name description kind now decodeError hs hvalid
          hfind
        rw [heq]
        exact hs.next hnext
    · cases hr : s.row f b with
      | none =>
        rw [call_save_missing hvalid hf hr]
        exact hs
      | some r =>
        by_cases hsame : r.graphJson = dumps none graph.json
        · rw [call_save_same hvalid hf hr hsame]
          exact hs
        · obtain ⟨v, hnext, heq⟩ := call_save_other name description kind fresh now decodeError hs
            hvalid hf hr hsame
          rw [heq]
          exact hs.next hnext

variable (decodeError) in
theorem FlowStore.Sound.restore (hs : s.Sound) (n now : ℤ) :
    (call decodeError (.restore f n b now) s).2.Sound := by
  cases hr : s.row f b with
  | none =>
    rw [call_restore_of_none (Or.inl hr)]
    exact hs
  | some r =>
    cases hv : s.versions.find (f, n) with
    | none =>
      rw [call_restore_of_none (Or.inr hv)]
      exact hs
    | some v =>
      obtain ⟨target, -, ht⟩ := hs.read (Table.find_eq_some_iff.mp hv).1
      cases hc : loads r.graphJson with
      | none =>
        rw [call_restore_damaged hr hv hc]
        exact hs
      | some current =>
        by_cases hsame : dumps none (sortKeys current) = dumps none (sortKeys target)
        · rw [call_restore_same hr hv hc ht hsame]
          exact hs
        · obtain ⟨x, hnext, heq⟩ := call_restore_other now decodeError hs
            hr hv hc ht hsame
          rw [heq]
          exact hs.next hnext

theorem FlowStore.Sound.delete (hs : s.Sound) (h : ∀ r ∈ s.flows.find f, r.tenantId = b) :
    (s.deleteFlow f b).2.Sound := by
  have hflow : ∀ r ∈ (s.deleteFlow f b).2.flows.rows, r ∈ s.flows.rows ∧ r.flowId ≠ f := by
    intro r hr
    obtain ⟨hr, hkeep⟩ := List.mem_filter.mp hr
    refine ⟨hr, fun heq => ?_⟩
    have htenant := h r (Table.find_eq_some_iff.mpr ⟨hr, heq⟩)
    simp [heq, htenant] at hkeep
  have hversion : ∀ r : FlowRow, r.flowId ≠ f → ∀ n,
      (s.deleteFlow f b).2.versions.find (r.flowId, n) = s.versions.find (r.flowId, n) := by
    intro r hne n
    refine Table.find_select.trans ?_
    cases hv : s.versions.find (r.flowId, n) with
    | none => rfl
    | some v =>
      have hid : v.flowId = r.flowId := congrArg Prod.fst (Table.find_eq_some_iff.mp hv).2
      exact Option.filter_some_pos (decide_eq_true (hid.symm ▸ hne))
  refine ⟨⟨fun r hr => hs.first r (hflow r hr).1, fun r hr n => ?_, fun r hr v hv => ?_⟩,
    fun v hv => ?_, fun v hv => hs.text v (List.mem_filter.mp hv).1⟩
  · rw [hversion r (hflow r hr).2]
    exact hs.numbered r (hflow r hr).1 n
  · rw [hversion r (hflow r hr).2] at hv
    exact hs.current r (hflow r hr).1 v hv
  · obtain ⟨hv, hne⟩ := List.mem_filter.mp hv
    obtain ⟨r, hr⟩ := Option.isSome_iff_exists.mp (hs.flow v hv)
    have hid : r.flowId = v.flowId := (Table.find_eq_some_iff.mp hr).2
    have hkeep : (s.deleteFlow f b).2.flows.find v.flowId = some r := by
      refine Table.find_select.trans (Option.filter_eq_some_iff.mpr ⟨hr, ?_⟩)
      have hidf : r.flowId ≠ f := hid.symm ▸ of_decide_eq_true hne
      simp [hidf]
    rw [hkeep]
    rfl

theorem not_versioned_of_delete (hs : s.Sound) (hr : s.flows.find f = some r)
    (hne : r.tenantId ≠ b) : ¬ (s.deleteFlow f b).2.Versioned := by
  intro hversioned
  obtain ⟨hmem, hid⟩ := Table.find_eq_some_iff.mp hr
  have hkept : r ∈ (s.deleteFlow f b).2.flows.rows :=
    List.mem_filter.mpr ⟨hmem, by simp [hne]⟩
  obtain ⟨v, hv⟩ := Option.isSome_iff_exists.mp
    ((hversioned.numbered r hkept r.version).mpr ⟨hs.first r hmem, le_rfl⟩)
  obtain ⟨hv, hkey⟩ := Table.find_eq_some_iff.mp hv
  have hgone : v.flowId ≠ f := of_decide_eq_true (List.mem_filter.mp hv).2
  exact hgone ((congrArg Prod.fst hkey).trans hid)

theorem FlowStore.Sound.damage (hs : s.Sound) (hr : r ∈ s.flows.rows) {text : Str}
    (hnone : loads text = none) : (s.write { r with graphJson := text }).Sound := by
  refine ⟨⟨fun r' hr' => ?_, fun r' hr' n => ?_, fun r' hr' v hv => ?_⟩,
    fun v hv => find_flow_upsert (hs.flow v hv), hs.text⟩
  · rcases Table.mem_upsert.mp hr' with rfl | ⟨hr', -⟩
    · exact hs.first r hr
    · exact hs.first r' hr'
  · rcases Table.mem_upsert.mp hr' with rfl | ⟨hr', -⟩
    · exact hs.numbered r hr n
    · exact hs.numbered r' hr' n
  · rcases Table.mem_upsert.mp hr' with rfl | ⟨hr', -⟩
    · exact Or.inr hnone
    · exact hs.current r' hr' v hv

theorem FlowStore.Sound.step (hs : s.Sound) {e : Event} (he : Faithful e s) :
    (step decodeError e s).2.Sound := by
  cases e with
  | call c =>
    cases c with
    | save graph tenantId name description kind flowId fresh now =>
      exact hs.save decodeError graph name description kind fresh now
    | load | list | listVersions => exact hs
    | restore flowId version tenantId now =>
      exact hs.restore decodeError version now
    | delete flowId tenantId => exact hs.delete he
  | damage flowId text =>
    unfold Flows.step
    dsimp only
    split
    · next r hr hnone => exact hs.damage (Table.find_eq_some_iff.mp hr).1 hnone
    · exact hs

/-! ### What the calls do to the law -/

theorem nameOr_eq_iff {name : Option Str} {old : Str} :
    nameOr (name.getD []) old = name.getD old ↔ (name = some [] → old = []) := by
  cases name with
  | none => exact iff_of_true rfl fun h => nomatch h
  | some x =>
    change (if x = [] then old else x) = x ↔ _
    by_cases hx : x = []
    · rw [if_pos hx, hx]
      exact ⟨fun h _ => h, fun h => h rfl⟩
    · rw [if_neg hx]
      exact iff_of_true rfl fun h => absurd (Option.some.inj h) hx

theorem getD_eq_iff {α : Type} {o : Option α} {a b : α} :
    o.getD a = o.getD b ↔ (o = none → b = a) := by
  cases o with
  | none => exact ⟨fun h _ => h.symm, fun h => (h rfl).symm⟩
  | some x => exact iff_of_true rfl fun h => nomatch h

theorem newRow_takes_iff {fid graphJson : Str} {name description kind : Option Str} {now : ℤ} :
    ((∀ x ∈ name, (newRow fid b graphJson name description kind now).name = x) ∧
      (∀ x ∈ description, (newRow fid b graphJson name description kind now).description = x) ∧
      ∀ x ∈ kind, (newRow fid b graphJson name description kind now).kind = x) ↔
      name ≠ some [] := by
  have hdefault : ∀ (o : Option Str) (d : Str), ∀ x ∈ o, o.getD d = x := by
    rintro o d x rfl
    rfl
  constructor
  · rintro ⟨hname, -, -⟩ rfl
    exact absurd (hname [] rfl) (by simp [newRow, nameOr])
  · intro hname
    refine ⟨?_, hdefault description [], hdefault kind "flow"⟩
    rintro x rfl
    exact if_neg fun hx => hname (congrArg some hx)

theorem saves_iff (hs : s.Sound) (graph : Document) (name description kind : Option Str)
    (fresh : Str) (now : ℤ) :
    Saves decodeError (.call (.save graph b name description kind f fresh now)) s ↔
      Faithful (.call (.save graph b name description kind f fresh now)) s := by
  unfold Saves Faithful
  dsimp only
  cases hvalid : graphProblem graph.json with
  | some message =>
    rw [call_save_invalid hvalid]
    exact iff_of_true (by rintro answer ⟨⟩) (by rintro ⟨⟩)
  | none =>
    rw [forall_prop_of_true rfl]
    by_cases hf : f = []
    · subst hf
      simp only [if_pos]
      cases hfind : s.flows.find ("flow-" ++ fresh) with
      | some r =>
        rw [call_save_taken hvalid (by rw [hfind]; rfl)]
        exact iff_of_true (by rintro answer ⟨⟩) (by rintro ⟨⟩)
      | none =>
        obtain ⟨v, hnext, heq⟩ := call_save_new b name description kind now decodeError hs hvalid
          hfind
        have hrow : FlowStore.row ⟨s.flows.upsert (newRow ("flow-" ++ fresh) b
            (dumps none graph.json) name description kind now), s.versions.upsert v⟩
            ("flow-" ++ fresh) b = some (newRow ("flow-" ++ fresh) b
              (dumps none graph.json) name description kind now) := row_write_self
        rw [heq, hrow, forall_prop_of_true rfl, ← newRow_takes_iff]
        refine ⟨fun h => ?_, fun h answer _ => ⟨_, rfl, h⟩⟩
        obtain ⟨r, hmem, hr⟩ := h _ rfl
        rwa [← Option.some.inj hmem] at hr
    · simp only [if_neg hf]
      cases hr : s.row f b with
      | none =>
        exact iff_of_true (by rintro _ _ r ⟨⟩) (by rintro r ⟨⟩)
      | some r =>
        simp only [Option.mem_def, Option.some.injEq, forall_eq']
        by_cases hsame : r.graphJson = dumps none graph.json
        · rw [call_save_same hvalid hf hr hsame, FlowRow.Takes, if_pos hsame, hr]
          simp only [Option.some.injEq, exists_eq_left', eq_comm]
          exact ⟨fun h => h _ rfl, fun h _ _ => h⟩
        · obtain ⟨v, hnext, heq⟩ := call_save_other name description kind fresh now decodeError hs
            hvalid hf hr hsame
          have hrow : FlowStore.row ⟨s.flows.upsert (r.saved (dumps none graph.json) name
              description kind now), s.versions.upsert v⟩ f b =
                some (r.saved (dumps none graph.json) name description kind now) := by
            obtain ⟨hfind, htenant⟩ := row_eq_some_iff.mp hr
            rw [← flowId_of_row hr, ← htenant]
            exact row_write_self
          rw [heq, FlowRow.Takes, if_neg hsame, hrow, ← nameOr_eq_iff, ← getD_eq_iff, ← getD_eq_iff]
          simp only [Option.some.injEq, exists_eq_left']
          exact ⟨fun h => h _ rfl, fun h _ _ => h⟩

theorem restores_iff (hs : s.Sound) (n now : ℤ) :
    Restores decodeError (.call (.restore f n b now)) s ↔
      Faithful (.call (.restore f n b now)) s := by
  unfold Restores Faithful
  dsimp only
  cases hr : s.row f b with
  | none => exact iff_of_true (by rintro r ⟨⟩) (by rintro r ⟨⟩)
  | some r =>
    simp only [Option.mem_def, Option.some.injEq, forall_eq']
    cases hv : s.versions.find (f, n) with
    | none => exact iff_of_true (by rintro v ⟨⟩) (by rintro ⟨⟩)
    | some v =>
      simp only [Option.some.injEq, forall_eq', Option.isSome_some, forall_prop_of_true]
      obtain ⟨target, htarget, ht⟩ := hs.read (Table.find_eq_some_iff.mp hv).1
      cases hc : loads r.graphJson with
      | none =>
        rw [call_restore_damaged hr hv hc, hr]
        refine iff_of_false ?_ Bool.false_ne_true
        rintro ⟨r', hr', graph, hgraph, -⟩
        rw [← Option.some.inj hr', hc] at hgraph
        exact Option.some_ne_none _ hgraph.symm
      | some current =>
        refine iff_of_true ?_ rfl
        have hcurrent := hs.read_row (mem_of_row hr) hc
        by_cases hsame : dumps none (sortKeys current) = dumps none (sortKeys target)
        · rw [call_restore_same hr hv hc ht hsame]
          exact ⟨r, hr, current, hc, target, ht,
            equal_of_dumps_sortKeys hcurrent htarget hsame⟩
        · obtain ⟨x, hnext, heq⟩ := call_restore_other now decodeError hs
            hr hv hc ht hsame
          rw [heq]
          refine ⟨r.withText v.graphJson now, ?_, target, ht, target, ht, Json.Equal.refl htarget⟩
          obtain ⟨hfind, htenant⟩ := row_eq_some_iff.mp hr
          rw [← flowId_of_row hr, ← htenant]
          exact row_write_self

theorem kept_step_iff (hs : s.Sound) (e : Event) :
    ((step decodeError e s).2.Versioned ∧ Restores decodeError e s ∧ Saves decodeError e s) ↔
      Faithful e s := by
  refine ⟨?_, fun h => ⟨(hs.step h).toVersioned, ?_⟩⟩
  · rintro ⟨hversioned, hrestores, hsaves⟩
    cases e with
    | call c =>
      cases c with
      | save graph tenantId name description kind flowId fresh now =>
        exact (saves_iff hs graph name description kind fresh now).mp hsaves
      | load | list | listVersions => trivial
      | restore flowId version tenantId now => exact (restores_iff hs version now).mp hrestores
      | delete flowId tenantId =>
        intro r hr
        by_contra hne
        exact not_versioned_of_delete hs hr hne hversioned
    | damage flowId text => trivial
  · cases e with
    | call c =>
      cases c with
      | save graph tenantId name description kind flowId fresh now =>
        exact ⟨trivial, (saves_iff hs graph name description kind fresh now).mpr h⟩
      | restore flowId version tenantId now =>
        exact ⟨(restores_iff hs version now).mpr h, trivial⟩
      | load | list | listVersions | delete => exact ⟨trivial, trivial⟩
    | damage flowId text => exact ⟨trivial, trivial⟩

end

end

/-- In every run, the law is kept exactly if every step meets the condition. -/
theorem kept_iff_faithful (decodeError : Str → Str) (events : List Event) :
    Kept decodeError events ↔ Along (step decodeError) Faithful events .empty := by
  have hempty : FlowStore.empty.Sound :=
    ⟨⟨List.forall_mem_nil _, List.forall_mem_nil _,
      List.forall_mem_nil _⟩, List.forall_mem_nil _,
      List.forall_mem_nil _⟩
  have hsteps : Along (step decodeError) (fun e s => (step decodeError e s).2.Versioned ∧
      Restores decodeError e s ∧ Saves decodeError e s) events .empty ↔
        Along (step decodeError) Faithful events .empty :=
    along_iff (fun e s hs he => hs.step he) (fun e s hs => kept_step_iff hs e) events hempty
  rw [← hsteps, along_and, along_and]
  constructor
  · rintro ⟨hversioned, hrestores, hsaves⟩
    exact ⟨((throughout_iff_along events FlowStore.empty).mp hversioned).2, hrestores, hsaves⟩
  · rintro ⟨hversioned, hrestores, hsaves⟩
    exact ⟨(throughout_iff_along events FlowStore.empty).mpr ⟨hempty.toVersioned, hversioned⟩,
      hrestores, hsaves⟩

/-- A flow is saved with the graph it has and another name, which is not stored. -/
theorem name_not_saved : ¬ ∀ (decodeError : Str → Str) (events : List Event),
    Kept decodeError events := by
  intro hall
  have hsaves := (hall (fun _ => []) [
    .call (.save oneNode "a" (some "old") none none [] "1" 0),
    .call (.save oneNode "a" (some "new") none none "flow-1" [] 1)]).saves
  obtain ⟨r, hr, hname, -⟩ := hsaves.2.1 (saved "flow-1" 1 false 1) rfl
    (newRow "flow-1" "a" (dumps none oneNode.json) (some "old") none none 0)
    rfl
  have hold : some (newRow "flow-1" "a" (dumps none oneNode.json)
      (some "old") none none 0) = some r := hr
  rw [← Option.some.inj hold] at hname
  exact absurd hname (by decide)

end AgentStudio.Flows

import AgentStudio.Flows.Store
import AgentStudio.Library.Tenants

/-!
# Tenants and their flows

What a tenant has of the store are its flows and their versions (`FlowStore.view`). No call of
another tenant should change that, and the answers to a tenant should be those that it would get if
its own flows were all there is (`Machine.Isolated`).

`delete_flow` deletes the versions of a flow whatever tenant the flow belongs to.
`isolated_iff_careful` says that a run is isolated exactly if no call deletes a flow of another
tenant, and no identifier that is drawn for a new flow is one of another tenant's flow (`Careful`).
-/

namespace AgentStudio.Flows

open PyText PyJson Rows Machine

def FlowStore.view (b : Str) (s : FlowStore) : FlowStore where
  flows := s.flows.select fun r => decide (r.tenantId = b)
  versions := s.versions.select fun v => (s.row v.flowId b).isSome

/-- The condition on a call: a flow that is deleted belongs to the tenant, and so does a flow that
has the identifier which is drawn for a new one. -/
def Careful (c : Call) (s : FlowStore) : Prop :=
  match c with
  | .save graph tenantId _ _ _ flowId fresh _ => graphProblem graph.json = none → flowId = [] →
      ∀ r ∈ s.flows.find ("flow-" ++ fresh), r.tenantId = tenantId
  | .delete flowId tenantId => ∀ r ∈ s.flows.find flowId, r.tenantId = tenantId
  | _ => True

/-- Versions belong to flows that are there, and each flow has one. -/
structure FlowStore.Linked (s : FlowStore) : Prop where
  flow : ∀ v ∈ s.versions.rows, (s.flows.find v.flowId).isSome
  version : ∀ r ∈ s.flows.rows, ∃ v ∈ s.versions.rows, v.flowId = r.flowId

section

variable {s : FlowStore} {a b f : Str} {r : FlowRow} {v : VersionRow}

theorem row_eq_some_iff :
    s.row f b = some r ↔ s.flows.find f = some r ∧ r.tenantId = b := by
  rw [FlowStore.row, Option.filter_eq_some_iff, decide_eq_true_eq]

theorem flowId_of_row (h : s.row f b = some r) : r.flowId = f :=
  (Table.find_eq_some_iff.mp (row_eq_some_iff.mp h).1).2

theorem flowId_of_key {x : VersionRow} (h : x.key = v.key) : x.flowId = v.flowId :=
  congrArg Prod.fst h

/-! ### The view of a tenant -/

@[simp] theorem row_view : (s.view b).row f b = s.row f b := by
  rw [FlowStore.row, FlowStore.view, Table.find_select, Option.filter_filter]
  simp [FlowStore.row]

theorem find_version_view (h : (s.row f b).isSome) {n : ℤ} :
    (s.view b).versions.find (f, n) = s.versions.find (f, n) := by
  rw [FlowStore.view, Table.find_select]
  cases hfind : s.versions.find (f, n) with
  | none => rfl
  | some v =>
    have hkey : v.flowId = f := congrArg Prod.fst (Table.find_eq_some_iff.mp hfind).2
    rw [Option.filter_some, hkey, if_pos h]

/-! ### Writing a row -/

/-- A flow with the identifier of the row has its tenant. -/
def FlowStore.Owns (s : FlowStore) (r : FlowRow) : Prop :=
  ∀ r₀, s.flows.find r.flowId = some r₀ → r₀.tenantId = r.tenantId

theorem owns_of_row {r₀ : FlowRow} (hr : s.row f b = some r₀) (hid : r.flowId = f)
    (htenant : r.tenantId = b) : s.Owns r := by
  intro x hx
  obtain ⟨hfind, hb⟩ := row_eq_some_iff.mp hr
  rw [hid, hfind] at hx
  rw [← Option.some.inj hx, hb, htenant]

theorem row_write_self : (s.write r).row r.flowId r.tenantId = some r :=
  row_eq_some_iff.mpr ⟨Table.find_upsert_self, rfl⟩

theorem row_write_of_ne (h : f ≠ r.flowId) : (s.write r).row f b = s.row f b := by
  unfold FlowStore.row
  rw [FlowStore.write, Table.find_upsert_of_ne h]

theorem row_none_of_owns (h : s.Owns r) (hne : a ≠ r.tenantId) : s.row r.flowId a = none := by
  refine Option.eq_none_iff_forall_ne_some.mpr fun r₀ hr₀ => ?_
  obtain ⟨hfind, htenant⟩ := row_eq_some_iff.mp hr₀
  exact hne (htenant ▸ h r₀ hfind)

theorem view_write_of_ne (h : s.Owns r) (hne : a ≠ r.tenantId) : (s.write r).view a = s.view a := by
  have hflows : (s.flows.upsert r).select (fun r => decide (r.tenantId = a)) =
      s.flows.select fun r => decide (r.tenantId = a) := by
    refine Table.select_upsert_of_neg (fun x hx hkey => ?_) (decide_eq_false (Ne.symm hne))
    have htenant := h x (Table.find_eq_some_iff.mpr ⟨hx, hkey⟩)
    exact decide_eq_false fun heq => hne (heq ▸ htenant)
  have hrow : ∀ f, ((s.write r).row f a).isSome = (s.row f a).isSome := by
    intro f
    by_cases hf : f = r.flowId
    · subst hf
      have hnone : (s.write r).row r.flowId a = none := by
        refine Option.eq_none_iff_forall_ne_some.mpr fun r₀ hr₀ => ?_
        obtain ⟨hfind, htenant⟩ := row_eq_some_iff.mp hr₀
        rw [FlowStore.write, Table.find_upsert_self] at hfind
        exact hne (htenant ▸ (Option.some.inj hfind) ▸ rfl)
      rw [hnone, row_none_of_owns h hne]
    · rw [row_write_of_ne hf]
  unfold FlowStore.view
  simp only [hrow]
  exact congrArg (FlowStore.mk · _) hflows

theorem view_write_self (hs : s.Linked) (h : s.Owns r) :
    (s.write r).view r.tenantId = (s.view r.tenantId).write r := by
  have hflows : (s.flows.upsert r).select (fun x => decide (x.tenantId = r.tenantId)) =
      (s.flows.select fun x => decide (x.tenantId = r.tenantId)).upsert r := by
    refine Table.select_upsert_of_pos (fun x hx hkey => ?_) (decide_eq_true rfl)
    exact decide_eq_true (h x (Table.find_eq_some_iff.mpr ⟨hx, hkey⟩))
  have hversions : s.versions.select (fun v => ((s.write r).row v.flowId r.tenantId).isSome) =
      s.versions.select fun v => (s.row v.flowId r.tenantId).isSome := by
    refine Table.ext_rows (List.filter_congr fun v hv => ?_)
    by_cases hf : v.flowId = r.flowId
    · obtain ⟨r₀, hr₀⟩ := Option.isSome_iff_exists.mp (hs.flow v hv)
      have hrow : s.row v.flowId r.tenantId = some r₀ :=
        row_eq_some_iff.mpr ⟨hr₀, h r₀ (hf ▸ hr₀)⟩
      rw [hrow, hf, row_write_self]
      rfl
    · rw [row_write_of_ne hf]
  exact congrArg₂ FlowStore.mk hflows hversions

/-! ### Adding a version -/

theorem answer_addVersion {answer : Json} (h : s.versions.find v.key = none) :
    (s.addVersion v answer).1 = .ok answer := by
  rw [FlowStore.addVersion, if_neg fun hsome => absurd h (Option.ne_none_iff_isSome.mpr hsome)]

theorem view_addVersion_of_none (h : s.row v.flowId a = none) (answer : Json) :
    (s.addVersion v answer).2.view a = s.view a := by
  unfold FlowStore.addVersion
  split
  · rfl
  · refine congrArg (FlowStore.mk _) ?_
    refine Table.select_upsert_of_neg (fun x _ hkey => ?_) ?_
    · change (s.row x.flowId a).isSome = false
      rw [flowId_of_key hkey, h, Option.isSome_none]
    · change (s.row v.flowId a).isSome = false
      rw [h, Option.isSome_none]

theorem addVersion_view (h : (s.row v.flowId b).isSome) (answer : Json) :
    (s.view b).addVersion v answer =
      ((s.addVersion v answer).1, (s.addVersion v answer).2.view b) := by
  unfold FlowStore.addVersion
  rw [show v.key = (v.flowId, v.version) from rfl, find_version_view h]
  split
  · rfl
  · have hversions : (s.versions.upsert v).select (fun x => (s.row x.flowId b).isSome) =
        (s.versions.select fun x => (s.row x.flowId b).isSome).upsert v :=
      Table.select_upsert_of_pos (fun x _ hkey => (flowId_of_key hkey).symm ▸ h) h
    exact Prod.ext rfl (congrArg (FlowStore.mk _) hversions.symm)

theorem FlowStore.Linked.write (hs : s.Linked) (hv : v.flowId = r.flowId) (answer : Json) :
    ((s.write r).addVersion v answer).2.Linked := by
  have hflow : ∀ g, (s.flows.find g).isSome → ((s.flows.upsert r).find g).isSome := by
    intro g hg
    by_cases hgr : g = r.flowId
    · rw [hgr, Table.find_upsert_self]
      rfl
    · rwa [Table.find_upsert_of_ne hgr]
  have hself : ((s.flows.upsert r).find v.flowId).isSome := by
    rw [hv, Table.find_upsert_self]
    rfl
  unfold FlowStore.addVersion
  split
  · next hfound =>
    obtain ⟨x, hx⟩ := Option.isSome_iff_exists.mp hfound
    obtain ⟨hmem, hkey⟩ := Table.find_eq_some_iff.mp hx
    refine ⟨fun y hy => hflow _ (hs.flow y hy), fun r' hr' => ?_⟩
    rcases Table.mem_upsert.mp hr' with rfl | ⟨hr', -⟩
    · exact ⟨x, hmem, (congrArg Prod.fst hkey).trans hv⟩
    · exact hs.version r' hr'
  · refine ⟨fun y hy => ?_, fun r' hr' => ?_⟩
    · rcases Table.mem_upsert.mp hy with rfl | ⟨hy, -⟩
      · exact hself
      · exact hflow _ (hs.flow y hy)
    · rcases Table.mem_upsert.mp hr' with rfl | ⟨hr', -⟩
      · exact ⟨v, Table.mem_upsert.mpr (Or.inl rfl), hv⟩
      · obtain ⟨y, hy, hid⟩ := hs.version r' hr'
        by_cases hkey : y.key = v.key
        · exact ⟨v, Table.mem_upsert.mpr (Or.inl rfl), (flowId_of_key hkey).symm.trans hid⟩
        · exact ⟨y, Table.mem_upsert.mpr (Or.inr ⟨hy, hkey⟩), hid⟩

/-! ### Deleting a flow -/

theorem row_deleteFlow {t : Str} : (s.deleteFlow f t).2.row b a =
    (s.row b a).filter fun _ => !(decide (b = f) && decide (a = t)) := by
  rw [FlowStore.deleteFlow, FlowStore.row, Table.find_select, FlowStore.row]
  cases hx : s.flows.find b with
  | none => rfl
  | some x =>
    rw [← (Table.find_eq_some_iff.mp hx).2]
    by_cases hxa : x.tenantId = a
    · subst hxa
      by_cases hf : x.flowId = f
      · by_cases ht : x.tenantId = t <;> simp [Option.filter_some, hf, ht]
      · simp [Option.filter_some, hf]
    · cases !(decide (x.flowId = f) && decide (x.tenantId = t)) <;> simp [Option.filter_some, hxa]

theorem view_deleteFlow_of_ne {t : Str} (h : ∀ r ∈ s.flows.find f, r.tenantId = t) (hne : a ≠ t) :
    (s.deleteFlow f t).2.view a = s.view a := by
  have hrow : ∀ g, (s.deleteFlow f t).2.row g a = s.row g a := by
    intro g
    rw [row_deleteFlow, decide_eq_false hne, Bool.and_false]
    cases s.row g a <;> rfl
  have hflows : (s.deleteFlow f t).2.flows.select (fun r => decide (r.tenantId = a)) =
      s.flows.select fun r => decide (r.tenantId = a) := by
    refine Table.ext_rows ?_
    rw [Table.rows_select, Table.rows_select]
    change (s.flows.rows.filter _).filter _ = _
    rw [List.filter_filter]
    refine List.filter_congr fun r _ => ?_
    by_cases hr : r.tenantId = a
    · simp [hr, hne]
    · simp [hr]
  have hversions : (s.deleteFlow f t).2.versions.select (fun v => (s.row v.flowId a).isSome) =
      s.versions.select fun v => (s.row v.flowId a).isSome := by
    refine Table.ext_rows ?_
    rw [Table.rows_select, Table.rows_select]
    change (s.versions.rows.filter _).filter _ = _
    rw [List.filter_filter]
    refine List.filter_congr fun v _ => ?_
    by_cases hv : v.flowId = f
    · have hnone : s.row v.flowId a = none := by
        refine Option.eq_none_iff_forall_ne_some.mpr fun r hr => ?_
        obtain ⟨hfind, htenant⟩ := row_eq_some_iff.mp hr
        exact hne (htenant ▸ h r (hv ▸ hfind))
      rw [hnone]
      rfl
    · rw [decide_eq_true hv, Bool.and_true]
  unfold FlowStore.view
  simp only [hrow]
  exact congrArg₂ FlowStore.mk hflows hversions

theorem view_deleteFlow {t : Str} :
    (s.view t).deleteFlow f t = ((s.deleteFlow f t).1, (s.deleteFlow f t).2.view t) := by
  refine Prod.ext ?_ ?_
  · change ((s.view t).row f t).isSome = (s.row f t).isSome
    rw [row_view]
  · refine congrArg₂ FlowStore.mk (Table.ext_rows ?_) (Table.ext_rows ?_)
    · change (s.flows.rows.filter _).filter _ = (s.flows.rows.filter _).filter _
      rw [List.filter_filter, List.filter_filter]
      exact List.filter_congr fun r _ => Bool.and_comm _ _
    · change (s.versions.rows.filter _).filter _ = (s.versions.rows.filter _).filter _
      rw [List.filter_filter, List.filter_filter]
      refine List.filter_congr fun v _ => ?_
      rw [row_deleteFlow]
      by_cases hv : v.flowId = f
      · simp [hv]
      · rw [decide_eq_false hv, Bool.false_and, Bool.not_false]
        simp [hv]

theorem FlowStore.Linked.delete (hs : s.Linked) {t : Str}
    (h : ∀ r ∈ s.flows.find f, r.tenantId = t) : (s.deleteFlow f t).2.Linked := by
  refine ⟨fun v hv => ?_, fun r hr => ?_⟩
  · obtain ⟨hmem, hne⟩ := List.mem_filter.mp hv
    obtain ⟨r, hr⟩ := Option.isSome_iff_exists.mp (hs.flow v hmem)
    refine Option.isSome_iff_exists.mpr ⟨r, ?_⟩
    rw [FlowStore.deleteFlow, Table.find_select, hr]
    have hid : r.flowId ≠ f :=
      fun heq => of_decide_eq_true hne ((Table.find_eq_some_iff.mp hr).2.symm.trans heq)
    rw [Option.filter_some, if_pos (by simp [hid])]
  · obtain ⟨hmem, hkeep⟩ := List.mem_filter.mp hr
    obtain ⟨v, hv, hid⟩ := hs.version r hmem
    refine ⟨v, List.mem_filter.mpr ⟨hv, decide_eq_true fun heq => ?_⟩, hid⟩
    -- the flow would be one that the deletion keeps for its tenant
    have hfind : s.flows.find f = some r :=
      Table.find_eq_some_iff.mpr ⟨hmem, hid.symm.trans heq⟩
    simp [h r hfind, (Table.find_eq_some_iff.mp hfind).2] at hkeep

/-! ### Changing a flow -/

theorem view_change_of_ne (h : s.Owns r) (hv : v.flowId = r.flowId) (hne : a ≠ r.tenantId)
    (answer : Json) : ((s.write r).addVersion v answer).2.view a = s.view a := by
  have hnone : (s.write r).row v.flowId a = none := by
    rw [hv]
    refine row_none_of_owns (fun r₀ hr₀ => ?_) hne
    rw [FlowStore.write, Table.find_upsert_self] at hr₀
    rw [← Option.some.inj hr₀]
  rw [view_addVersion_of_none hnone, view_write_of_ne h hne]

theorem change_view (hs : s.Linked) (h : s.Owns r) (hv : v.flowId = r.flowId) (answer : Json) :
    ((s.view r.tenantId).write r).addVersion v answer =
      (((s.write r).addVersion v answer).1,
        ((s.write r).addVersion v answer).2.view r.tenantId) := by
  have hrow : ((s.write r).row v.flowId r.tenantId).isSome := by
    rw [hv, row_write_self]
    rfl
  rw [← view_write_self hs h, addVersion_view hrow]

theorem view_revise_of_ne {r₀ : FlowRow} (hr : s.row f b = some r₀) (hne : a ≠ b)
    (hid : r.flowId = f) (htenant : r.tenantId = b) (hv : v.flowId = f) (answer : Json) :
    ((s.write r).addVersion v answer).2.view a = s.view a :=
  view_change_of_ne (owns_of_row hr hid htenant) (hv.trans hid.symm) (htenant ▸ hne) answer

theorem revise_view (hs : s.Linked) {r₀ : FlowRow} (hr : s.row f b = some r₀) (hid : r.flowId = f)
    (htenant : r.tenantId = b) (hv : v.flowId = f) (answer : Json) :
    ((s.view b).write r).addVersion v answer =
      (((s.write r).addVersion v answer).1, ((s.write r).addVersion v answer).2.view b) := by
  have hchange := change_view hs (owns_of_row hr hid htenant) (hv.trans hid.symm) answer
  rwa [htenant] at hchange

/-! ### Calls -/

variable {decodeError : Str → Str}

theorem call_frame {c : Call} (hc : Careful c s) (hne : a ≠ c.tenant) :
    (call decodeError c s).2.view a = s.view a := by
  cases c with
  | save graph tenantId name description kind flowId fresh now =>
    change a ≠ tenantId at hne
    unfold call FlowStore.saveFlow
    dsimp only
    split
    · rfl
    · next hvalid =>
      split_ifs with hid hexists
      · split
        · rfl
        · next r hr =>
          split_ifs
          · rfl
          · refine view_revise_of_ne hr hne ?_ ?_ ?_ _
            · exact (flowId_of_row hr :)
            · exact ((row_eq_some_iff.mp hr).2 :)
            · rfl
      · rfl
      · have howns : s.Owns ⟨"flow-" ++ fresh, tenantId,
            nameOr (name.getD []) "Untitled flow", description.getD [],
            dumps none graph.json, 1, kind.getD "flow", now, now⟩ :=
          fun r₀ hr₀ => hc hvalid (not_not.mp hid) r₀ hr₀
        exact view_change_of_ne howns rfl hne _
  | load | list | listVersions => rfl
  | restore flowId version tenantId now =>
    change a ≠ tenantId at hne
    unfold call FlowStore.restoreVersion
    dsimp only
    split
    · rfl
    · next r hr =>
      split
      · rfl
      · split
        · split_ifs
          · rfl
          · refine view_revise_of_ne hr hne ?_ ?_ ?_ _
            · exact (flowId_of_row hr :)
            · exact ((row_eq_some_iff.mp hr).2 :)
            · rfl
        · rfl
  | delete flowId tenantId => exact view_deleteFlow_of_ne hc hne

theorem FlowStore.Linked.call (hs : s.Linked) {c : Call} (hc : Careful c s) :
    (call decodeError c s).2.Linked := by
  cases c with
  | save graph tenantId name description kind flowId fresh now =>
    unfold Flows.call FlowStore.saveFlow
    dsimp only
    split
    · exact hs
    · split_ifs
      · split
        · exact hs
        · next r hr =>
          split_ifs
          · exact hs
          · exact hs.write (flowId_of_row hr).symm _
      · exact hs
      · exact hs.write rfl _
  | load | list | listVersions => exact hs
  | restore flowId version tenantId now =>
    unfold Flows.call FlowStore.restoreVersion
    dsimp only
    split
    · exact hs
    · next r hr =>
      split
      · exact hs
      · split
        · split_ifs
          · exact hs
          · exact hs.write (flowId_of_row hr).symm _
        · exact hs
  | delete flowId tenantId => exact hs.delete hc

/-- Whether a new identifier is taken is the same on the view of the tenant, if it is not taken by
another tenant. -/
theorem find_view (h : ∀ r ∈ s.flows.find f, r.tenantId = b) :
    (s.view b).flows.find f = s.flows.find f := by
  rw [FlowStore.view, Table.find_select]
  cases hr : s.flows.find f with
  | none => rfl
  | some r => rw [Option.filter_some, if_pos (decide_eq_true (h r hr))]

theorem call_view (hs : s.Linked) {c : Call} (hc : Careful c s) :
    call decodeError c (s.view c.tenant) =
      ((call decodeError c s).1, (call decodeError c s).2.view c.tenant) := by
  cases c with
  | save graph tenantId name description kind flowId fresh now =>
    change call decodeError _ (s.view tenantId) = (_, FlowStore.view tenantId _)
    unfold call FlowStore.saveFlow
    dsimp only
    rw [row_view]
    split
    · rfl
    · next hvalid =>
      by_cases hid : flowId = []
      · simp only [hid, ne_eq, not_true_eq_false, if_false]
        have howns := hc hvalid hid
        rw [find_view howns]
        split_ifs
        · rfl
        · exact change_view hs (r := ⟨"flow-" ++ fresh, tenantId, _, _, _, 1, _, now, now⟩)
            (fun r₀ hr₀ => howns r₀ hr₀) rfl _
      · simp only [ne_eq, hid, not_false_eq_true, if_true]
        cases hr : s.row flowId tenantId with
        | none => rfl
        | some r =>
          dsimp only
          split_ifs
          · rfl
          · refine revise_view hs hr ?_ ?_ ?_ _
            · exact (flowId_of_row hr :)
            · exact ((row_eq_some_iff.mp hr).2 :)
            · rfl
  | load flowId tenantId =>
    unfold call FlowStore.loadFlow Call.tenant
    dsimp only
    rw [row_view]
  | list tenantId kind =>
    refine Prod.ext (congrArg Except.ok ?_) rfl
    have hrows : ((s.view tenantId).flows.rows.filter fun r => decide (r.tenantId = tenantId)) =
        s.flows.rows.filter fun r => decide (r.tenantId = tenantId) := by
      rw [FlowStore.view, Table.rows_select, List.filter_filter]
      exact List.filter_congr fun r _ => Bool.and_self _
    change (s.view tenantId).listFlows tenantId kind = s.listFlows tenantId kind
    rw [FlowStore.listFlows, hrows, FlowStore.listFlows]
  | listVersions flowId tenantId =>
    refine Prod.ext ?_ rfl
    change (s.view tenantId).listVersions flowId tenantId = s.listVersions flowId tenantId
    rw [FlowStore.listVersions, row_view, FlowStore.listVersions]
    cases hr : s.row flowId tenantId with
    | none => rfl
    | some r =>
      have hrows : ((s.view tenantId).versions.rows.filter fun v => decide (v.flowId = flowId)) =
          s.versions.rows.filter fun v => decide (v.flowId = flowId) := by
        rw [FlowStore.view, Table.rows_select, List.filter_filter]
        refine List.filter_congr fun v _ => ?_
        by_cases hv : v.flowId = flowId
        · rw [hv, hr, Option.isSome_some, Bool.and_true]
        · rw [decide_eq_false hv, Bool.false_and]
      dsimp only
      rw [hrows]
  | restore flowId version tenantId now =>
    change call decodeError _ (s.view tenantId) = (_, FlowStore.view tenantId _)
    unfold call FlowStore.restoreVersion
    dsimp only
    rw [row_view]
    cases hr : s.row flowId tenantId with
    | none => rfl
    | some r =>
      dsimp only
      rw [find_version_view (by rw [hr]; rfl)]
      split
      · rfl
      · split
        · split_ifs
          · rfl
          · refine revise_view hs hr ?_ ?_ ?_ _
            · exact (flowId_of_row hr :)
            · exact ((row_eq_some_iff.mp hr).2 :)
            · rfl
        · rfl
  | delete flowId tenantId =>
    change call decodeError _ (s.view tenantId) = (_, FlowStore.view tenantId _)
    unfold call
    dsimp only
    rw [view_deleteFlow]

theorem careful_of_isolated (hs : s.Linked) {c : Call}
    (hframe : Frames (call decodeError) Call.tenant FlowStore.view c s)
    (hanswer : (call decodeError c s).1 = (call decodeError c (s.view c.tenant)).1) :
    Careful c s := by
  cases c with
  | save graph tenantId name description kind flowId fresh now =>
    rintro hvalid rfl r hr
    by_contra hne
    -- the identifier is taken in the store, and not in the view of the tenant
    have hnone : (s.view tenantId).flows.find ("flow-" ++ fresh) = none := by
      rw [FlowStore.view, Table.find_select, hr]
      exact if_neg (by simpa using hne)
    have hfree : (s.view tenantId).versions.find ("flow-" ++ fresh, 1) = none := by
      refine Table.find_eq_none_iff.mpr fun hmem => ?_
      obtain ⟨v, hv, hkey⟩ := List.mem_map.mp hmem
      obtain ⟨-, howned⟩ := List.mem_filter.mp hv
      have hid : v.flowId = "flow-" ++ fresh := congrArg Prod.fst hkey
      obtain ⟨x, hx⟩ := Option.isSome_iff_exists.mp howned
      obtain ⟨hfind, htenant⟩ := row_eq_some_iff.mp hx
      rw [hid, hr] at hfind
      exact hne (Option.some.inj hfind ▸ htenant)
    have htaken : (call decodeError (.save graph tenantId name description kind [] fresh now) s).1 =
        .error .integrity := by
      have hexists : (s.flows.find ("flow-" ++ fresh)).isSome := by
        rw [Option.mem_def.mp hr]
        rfl
      unfold call FlowStore.saveFlow
      dsimp only
      rw [hvalid]
      dsimp only
      rw [if_neg (fun h => h rfl), if_pos hexists]
    have hmade : (call decodeError (.save graph tenantId name description kind [] fresh now)
        (s.view tenantId)).1 = .ok (saved ("flow-" ++ fresh) 1 true now) := by
      unfold call FlowStore.saveFlow
      dsimp only
      rw [hvalid]
      dsimp only
      rw [if_neg (fun h => h rfl), if_neg (fun h => absurd hnone (Option.ne_none_iff_isSome.mpr h))]
      exact answer_addVersion hfree
    have heq := htaken.symm.trans (hanswer.trans hmade)
    cases heq
  | delete flowId tenantId =>
    intro r hr
    by_contra hne
    -- the owner of the flow loses a version
    obtain ⟨hmem, hid⟩ := Table.find_eq_some_iff.mp hr
    obtain ⟨v, hv, hvid⟩ := hs.version r hmem
    have hview := hframe r.tenantId hne
    have hrow : s.row v.flowId r.tenantId = some r :=
      row_eq_some_iff.mpr ⟨(hvid.trans hid).symm ▸ hr, rfl⟩
    have hin : v ∈ (s.view r.tenantId).versions.rows :=
      List.mem_filter.mpr ⟨hv, by rw [hrow]; rfl⟩
    rw [← hview] at hin
    have hkept := (List.mem_filter.mp (List.mem_filter.mp hin).1).2
    exact of_decide_eq_true hkept (hvid.trans hid)
  | load | list | listVersions | restore => trivial

end

/-- In every run, tenants are isolated from each other exactly if every call is careful. -/
theorem isolated_iff_careful (decodeError : Str → Str) (calls : List Call) :
    Isolated (call decodeError) Call.tenant FlowStore.view calls .empty ↔
      Along (call decodeError) Careful calls .empty := by
  have hlinked : ∀ c s, s.Linked → Careful c s → (call decodeError c s).2.Linked :=
    fun c s hs hc => hs.call hc
  have hframe : ∀ c s, s.Linked → Careful c s →
      Frames (call decodeError) Call.tenant FlowStore.view c s :=
    fun c s _ hc a hne => call_frame hc hne
  have hempty : FlowStore.empty.Linked :=
    ⟨List.forall_mem_nil _, List.forall_mem_nil _⟩
  exact isolated_iff hlinked hframe (fun c s hs hc => call_view hs hc)
    (fun c s hs hf ha => careful_of_isolated hs hf ha) calls hempty

def oneNode : Document where
  json := .obj [("nodes", .arr [.obj [("id", .str "n"),
    ("type", .str "start")]])]
  wf := ⟨by decide, by decide⟩

/-- A tenant deletes the versions of another tenant's flow. -/
theorem versions_deleted : ¬ ∀ (decodeError : Str → Str) (calls : List Call),
    Isolated (call decodeError) Call.tenant FlowStore.view calls .empty := by
  intro hall
  have hisolated := hall (fun _ => []) [.save oneNode "a" none none none [] "1" 0,
    .delete "flow-1" "b"]
  have hframe := congrArg (fun s : FlowStore => s.versions.rows.length)
    (hisolated.frame.2.1 "a" (by decide))
  exact absurd hframe (by decide)

end AgentStudio.Flows

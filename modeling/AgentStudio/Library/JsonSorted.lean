import AgentStudio.Library.JsonRoundTrip
import Mathlib.Data.List.Sort

/-!
# Comparing JSON values

`Json.Equal` is Python's `==` of two values, for which the order of the members of a dictionary does
not matter (unlike Python's, it tells truth values from numbers). `sortKeys` puts the members of all
dictionaries in the order of their keys, as `json.dumps(value, sort_keys=True)` does, and
`equal_of_dumps_sortKeys` says that values with one sorted text are equal.
-/

namespace PyJson

open PyText PyDict

mutual

/-- The value with the members of its dictionaries in the order of their keys. -/
def sortKeys : Json → Json
  | .null => .null
  | .bool b => .bool b
  | .num n => .num n
  | .str s => .str s
  | .arr items => .arr (sortItems items)
  | .obj members => .obj ((sortMembers members).insertionSort fun m n => textLE m.1 n.1)

/-- The items, each of them sorted. -/
def sortItems : List Json → List Json
  | [] => []
  | v :: vs => sortKeys v :: sortItems vs

/-- The members, the value of each of them sorted. -/
def sortMembers : List (Str × Json) → List (Str × Json)
  | [] => []
  | (k, v) :: ms => (k, sortKeys v) :: sortMembers ms

end

mutual

/-- The values are equal. -/
def Json.Equal : Json → Json → Prop
  | .null, .null => True
  | .bool a, .bool b => a = b
  | .num a, .num b => a = b
  | .str s, .str t => s = t
  | .arr vs, .arr ws => itemsEqual vs ws
  | .obj ms, .obj ns => ms.length = ns.length ∧ membersEqual ms ns
  | _, _ => False

/-- The items are equal, one by one. -/
def itemsEqual : List Json → List Json → Prop
  | [], [] => True
  | v :: vs, w :: ws => v.Equal w ∧ itemsEqual vs ws
  | _, _ => False

/-- Each of the first members has an equal value among the second. -/
def membersEqual : List (Str × Json) → List (Str × Json) → Prop
  | [], _ => True
  | (k, v) :: ms, ns =>
    (match ns.lookup k with
      | some w => v.Equal w
      | none => False) ∧ membersEqual ms ns

end

/-! ### Sorting -/

theorem sortMembers_eq_map (ms : List (Str × Json)) :
    sortMembers ms = ms.map fun m => (m.1, sortKeys m.2) := by
  induction ms with
  | nil => rfl
  | cons m ms ih =>
    obtain ⟨k, v⟩ := m
    rw [sortMembers, ih, List.map_cons]

theorem keys_sortMembers (ms : List (Str × Json)) :
    (sortMembers ms).map Prod.fst = ms.map Prod.fst := by
  rw [sortMembers_eq_map, List.map_map]
  rfl

mutual

/-- Sorting keeps the keys distinct. -/
theorem sortKeys_wf : ∀ {j : Json}, j.WF → (sortKeys j).WF
  | .null, _ => trivial
  | .bool _, _ => trivial
  | .num _, _ => trivial
  | .str _, _ => trivial
  | .arr _, h => sortItems_wf h
  | .obj ms, h => by
    have hperm := List.perm_insertionSort (fun m n => textLE m.1 n.1 = true) (sortMembers ms)
    refine ⟨(hperm.map Prod.fst).nodup_iff.mpr ?_, membersWF_iff.mpr fun m hm => ?_⟩
    · rw [keys_sortMembers]
      exact h.1
    · exact membersWF_iff.mp (sortMembers_wf h.2) m (hperm.subset hm)

theorem sortItems_wf : ∀ {vs : List Json}, itemsWF vs → itemsWF (sortItems vs)
  | [], _ => trivial
  | _ :: _, h => ⟨sortKeys_wf h.1, sortItems_wf h.2⟩

theorem sortMembers_wf : ∀ {ms : List (Str × Json)}, membersWF ms → membersWF (sortMembers ms)
  | [], _ => trivial
  | (_, _) :: _, h => ⟨sortKeys_wf h.1, sortMembers_wf h.2⟩

end

mutual

/-- Values that are the same when they are sorted are equal. -/
theorem equal_of_sortKeys : ∀ {a b : Json}, a.WF → b.WF → sortKeys a = sortKeys b → a.Equal b
  | .null, .null, _, _, _ => trivial
  | .bool _, .bool _, _, _, h => Json.bool.inj h
  | .num _, .num _, _, _, h => Json.num.inj h
  | .str _, .str _, _, _, h => Json.str.inj h
  | .arr _, .arr _, ha, hb, h => itemsEqual_of_sortItems ha hb (Json.arr.inj h)
  | .obj ms, .obj ns, ha, hb, h => by
    have hms := List.perm_insertionSort (fun m n => textLE m.1 n.1 = true) (sortMembers ms)
    have hns := List.perm_insertionSort (fun m n => textLE m.1 n.1 = true) (sortMembers ns)
    have hperm : (sortMembers ms).Perm (sortMembers ns) :=
      hms.symm.trans ((Json.obj.inj h) ▸ hns)
    refine ⟨?_, membersEqual_of_sortMembers ha.2 hb hperm.subset⟩
    have hlength := hperm.length_eq
    rwa [sortMembers_eq_map, sortMembers_eq_map, List.length_map, List.length_map] at hlength

theorem itemsEqual_of_sortItems : ∀ {vs ws : List Json}, itemsWF vs → itemsWF ws →
    sortItems vs = sortItems ws → itemsEqual vs ws
  | [], [], _, _, _ => trivial
  | _ :: _, _ :: _, hv, hw, h =>
    ⟨equal_of_sortKeys hv.1 hw.1 (List.cons.inj h).1,
      itemsEqual_of_sortItems hv.2 hw.2 (List.cons.inj h).2⟩

theorem membersEqual_of_sortMembers : ∀ {ms ns : List (Str × Json)}, membersWF ms →
    (Json.obj ns).WF → sortMembers ms ⊆ sortMembers ns → membersEqual ms ns
  | [], _, _, _, _ => trivial
  | (k, v) :: ms, ns, hm, hn, h => by
    rw [sortMembers, List.cons_subset] at h
    refine ⟨?_, membersEqual_of_sortMembers hm.2 hn h.2⟩
    have hmem := h.1
    rw [sortMembers_eq_map] at hmem
    obtain ⟨⟨k', w⟩, hw, heq⟩ := List.mem_map.mp hmem
    obtain ⟨hkey, hsort⟩ : k' = k ∧ sortKeys w = sortKeys v := Prod.mk.inj heq
    subst hkey
    rw [lookup_of_mem hn.1 hw]
    exact equal_of_sortKeys hm.1 (membersWF_iff.mp hn.2 _ hw) hsort.symm

end

/-- Every value is equal to itself. -/
theorem Json.Equal.refl {j : Json} (h : j.WF) : j.Equal j := equal_of_sortKeys h h rfl

/-- Values with one sorted text are equal. -/
theorem equal_of_dumps_sortKeys {a b : Json} (ha : a.WF) (hb : b.WF)
    (h : dumps none (sortKeys a) = dumps none (sortKeys b)) : a.Equal b := by
  have hloads := congrArg loads h
  rw [loads_dumps none (sortKeys_wf ha), loads_dumps none (sortKeys_wf hb)] at hloads
  exact equal_of_sortKeys ha hb (Option.some.inj hloads)

end PyJson

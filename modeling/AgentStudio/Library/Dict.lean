import Mathlib.Data.List.Nodup

/-!
# Dictionaries as lists of members

A Python `dict` is the list of its members in insertion order, looked up with `List.lookup`.
`setItem` is `d[key] = value` (an existing key keeps its place), `pop` is `d.pop(key, None)`,
`ofPairs` is `dict(pairs)`, `updateWith` is `d.update(other)`, and `values` is `d.values()`. The
lemmas compute lookups.
-/

namespace PyDict

variable {κ α : Type} [DecidableEq κ]

/-- `d[key] = value`. -/
def setItem (key : κ) (value : α) : List (κ × α) → List (κ × α)
  | [] => [(key, value)]
  | m :: ms => if m.1 = key then (key, value) :: ms else m :: setItem key value ms

/-- `d.pop(key, None)`. -/
def pop (key : κ) (d : List (κ × α)) : List (κ × α) := d.filter (·.1 ≠ key)

/-- `dict(pairs)`. -/
def ofPairs (pairs : List (κ × α)) : List (κ × α) :=
  pairs.foldl (fun d m => setItem m.1 m.2 d) []

/-- `d.update(other)`. -/
def updateWith (d other : List (κ × α)) : List (κ × α) :=
  other.foldl (fun d m => setItem m.1 m.2 d) d

/-- `list(d.values())`. -/
def values [BEq κ] (d : List (κ × α)) : List α := d.filterMap fun m => d.lookup m.1

omit [DecidableEq κ] in
theorem mem_values [BEq κ] {d : List (κ × α)} {v : α} (h : v ∈ values d) :
    ∃ k, d.lookup k = some v := by
  obtain ⟨m, -, hm⟩ := List.mem_filterMap.mp h
  exact ⟨m.1, hm⟩

omit [DecidableEq κ] in
/-- The values, key by key. -/
theorem values_eq [BEq κ] (d : List (κ × α)) :
    values d = (d.map Prod.fst).filterMap fun k => d.lookup k := by
  rw [values, List.filterMap_map]
  rfl

/-! ### Lookups -/

section Lookup

variable [BEq κ] [LawfulBEq κ]

private theorem lookup_cons_eq (k : κ) (m : κ × α) (d : List (κ × α)) :
    (m :: d).lookup k = if k = m.1 then some m.2 else d.lookup k := by
  obtain ⟨k', v⟩ := m
  rw [List.lookup_cons]
  by_cases h : k = k' <;> simp [h, beq_false_of_ne]

@[simp] theorem lookup_setItem (key k : κ) (value : α) (d : List (κ × α)) :
    (setItem key value d).lookup k = if k = key then some value else d.lookup k := by
  induction d with
  | nil => rw [setItem, lookup_cons_eq]
  | cons m ms ih =>
    rw [setItem]
    split_ifs with hm hk hk
    · rw [lookup_cons_eq, if_pos hk]
    · rw [lookup_cons_eq, lookup_cons_eq, if_neg hk, if_neg fun h => hk (h.trans hm)]
    · rw [lookup_cons_eq, ih, if_pos hk, if_neg fun h => hm (h.symm.trans hk)]
    · rw [lookup_cons_eq, lookup_cons_eq, ih, if_neg hk]

omit [DecidableEq κ] in
theorem lookup_eq_none {d : List (κ × α)} {k : κ} (h : k ∉ d.map Prod.fst) :
    d.lookup k = none := by
  induction d with
  | nil => rfl
  | cons m ms ih =>
    rw [List.map_cons, List.mem_cons, not_or] at h
    obtain ⟨k', v⟩ := m
    rw [List.lookup_cons, beq_false_of_ne h.1, ih h.2]

/-- After an update the other dictionary is looked up first. -/
theorem lookup_updateWith {other : List (κ × α)} (h : (other.map Prod.fst).Nodup)
    (d : List (κ × α)) (k : κ) :
    (updateWith d other).lookup k = (other.lookup k).or (d.lookup k) := by
  induction other generalizing d with
  | nil => rfl
  | cons m ms ih =>
    rw [List.map_cons, List.nodup_cons] at h
    refine (ih h.2 _).trans ?_
    rw [lookup_setItem, lookup_cons_eq]
    split_ifs with hk
    · -- a later member has another key
      rw [lookup_eq_none (hk ▸ h.1)]
      rfl
    · rfl

@[simp] theorem lookup_pop (key k : κ) (d : List (κ × α)) :
    (pop key d).lookup k = if k = key then none else d.lookup k := by
  induction d with
  | nil => simp [pop]
  | cons m ms ih =>
    rw [pop, List.filter_cons]
    by_cases hm : m.1 = key
    · rw [if_neg (by simp [hm]), ← pop, ih, lookup_cons_eq]
      split_ifs with hk hk' <;> first | rfl | exact absurd (hk'.trans hm) hk
    · rw [if_pos (by simp [hm]), lookup_cons_eq, ← pop, ih, lookup_cons_eq]
      split_ifs with hk hk' <;> first | rfl | exact absurd (hk.symm.trans hk') hm

/-- Looking up in a filtered dictionary. -/
theorem lookup_filter {d : List (κ × α)} (hd : (d.map Prod.fst).Nodup) (p : κ × α → Bool)
    (k : κ) : (d.filter p).lookup k = (d.lookup k).filter fun v => p (k, v) := by
  induction d with
  | nil => rfl
  | cons m ms ih =>
    obtain ⟨k', v⟩ := m
    rw [List.map_cons, List.nodup_cons] at hd
    by_cases hk : k = k'
    · subst hk
      have hnone : (ms.filter p).lookup k = none := by
        rw [ih hd.2, lookup_eq_none hd.1]
        rfl
      cases hp : p (k, v) <;> simp [List.filter, hp, hnone, Option.filter]
    · have hb : (k == k') = false := beq_false_of_ne hk
      cases hp : p (k', v) <;> simp [List.filter, List.lookup_cons, hp, hb, ih hd.2]

end Lookup

/-! ### Members -/

omit [DecidableEq κ] in
theorem mem_of_lookup [BEq κ] [LawfulBEq κ] {d : List (κ × α)} {key : κ} {value : α}
    (h : d.lookup key = some value) : (key, value) ∈ d := by
  obtain ⟨l₁, l₂, rfl, -⟩ := List.lookup_eq_some_iff.mp h
  exact List.mem_append_right l₁ List.mem_cons_self

omit [DecidableEq κ] in
/-- Where the keys are distinct, a member is what is found under its key. -/
theorem lookup_of_mem [BEq κ] [LawfulBEq κ] {d : List (κ × α)} {key : κ} {value : α}
    (hd : (d.map Prod.fst).Nodup) (h : (key, value) ∈ d) : d.lookup key = some value := by
  induction d with
  | nil => exact absurd h List.not_mem_nil
  | cons m d ih =>
    obtain ⟨k, v⟩ := m
    rw [List.map_cons, List.nodup_cons] at hd
    rcases List.mem_cons.mp h with heq | h
    · obtain ⟨rfl, rfl⟩ := Prod.mk.inj heq
      exact List.lookup_cons_self
    · have hne : key ≠ k := fun heq => hd.1 (List.mem_map.mpr ⟨(key, value), h, heq⟩)
      rw [List.lookup_cons, beq_false_of_ne hne]
      exact ih hd.2 h

theorem mem_setItem {key : κ} {value : α} {d : List (κ × α)} {m : κ × α}
    (h : m ∈ setItem key value d) : m = (key, value) ∨ m ∈ d := by
  induction d with
  | nil => exact Or.inl (List.mem_singleton.mp h)
  | cons x d ih =>
    rw [setItem] at h
    split_ifs at h with hx
    · exact (List.mem_cons.mp h).imp_right (List.mem_cons_of_mem x)
    · rcases List.mem_cons.mp h with rfl | h
      · exact Or.inr List.mem_cons_self
      · exact (ih h).imp_right (List.mem_cons_of_mem x)

/-- A key that is there keeps its place, another one comes last. -/
theorem keys_setItem (key : κ) (value : α) (d : List (κ × α)) :
    (setItem key value d).map Prod.fst =
      if key ∈ d.map Prod.fst then d.map Prod.fst else d.map Prod.fst ++ [key] := by
  induction d with
  | nil => simp [setItem]
  | cons m ms ih =>
    rw [setItem, List.map_cons]
    by_cases hm : m.1 = key
    · simp [hm]
    · rw [if_neg hm, List.map_cons, ih]
      by_cases hk : key ∈ ms.map Prod.fst
      · rw [if_pos hk, if_pos (List.mem_cons_of_mem m.1 hk)]
      · rw [if_neg hk, if_neg (by simpa [Ne.symm hm] using hk), List.cons_append]

theorem nodup_setItem {key : κ} {value : α} {d : List (κ × α)}
    (h : (d.map Prod.fst).Nodup) : ((setItem key value d).map Prod.fst).Nodup := by
  rw [keys_setItem]
  split_ifs with hkey
  · exact h
  · exact List.nodup_append.mpr ⟨h, List.nodup_singleton key, fun a ha b hb hab =>
      hkey (List.mem_singleton.mp hb ▸ hab ▸ ha)⟩

private theorem setItem_of_notMem {key : κ} {value : α} {d : List (κ × α)}
    (h : key ∉ d.map Prod.fst) : setItem key value d = d ++ [(key, value)] := by
  induction d with
  | nil => rfl
  | cons m ms ih =>
    rw [List.map_cons, List.mem_cons, not_or] at h
    rw [setItem, if_neg (Ne.symm h.1), ih h.2, List.cons_append]

/-- Pairs with distinct keys are the members of the dictionary they make. -/
theorem ofPairs_of_nodup {pairs : List (κ × α)} (h : (pairs.map Prod.fst).Nodup) :
    ofPairs pairs = pairs := by
  have key : ∀ acc : List (κ × α), ((acc ++ pairs).map Prod.fst).Nodup →
      pairs.foldl (fun d m => setItem m.1 m.2 d) acc = acc ++ pairs := by
    clear h
    induction pairs with
    | nil => simp
    | cons m pairs ih =>
      intro acc hnd
      have hm : m.1 ∉ acc.map Prod.fst := fun hmem => by
        rw [List.map_append, List.nodup_append] at hnd
        exact hnd.2.2 _ hmem _ (List.mem_map_of_mem List.mem_cons_self) rfl
      rw [List.foldl_cons, setItem_of_notMem hm, ih (acc ++ [(m.1, m.2)]) (by simpa using hnd)]
      simp
  simpa [ofPairs] using key [] (by simpa using h)

end PyDict

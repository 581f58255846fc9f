import Mathlib.Data.List.Nodup

/-!
# Rows with a key

A table is a list of rows in which a key occurs once. `update key k f` is the `UPDATE` of the row
with the key `k`. `mem_map_update` says which rows the table has afterwards, and
`countP_map_update` how many of them meet a condition.
-/

namespace Rows

variable {ρ κ : Type} [DecidableEq κ] {key : ρ → κ} {rows : List ρ} {x : ρ} {f : ρ → ρ}

/-- The row with a key changes, the others stay. -/
def update (key : ρ → κ) (k : κ) (f : ρ → ρ) (r : ρ) : ρ := if key r = k then f r else r

theorem update_self (key : ρ → κ) (x : ρ) (f : ρ → ρ) : update key (key x) f x = f x :=
  if_pos rfl

theorem update_of_ne {k : κ} {r : ρ} (h : key r ≠ k) : update key k f r = r := if_neg h

theorem key_update (k : κ) (hf : ∀ r, key (f r) = key r) (r : ρ) :
    key (update key k f r) = key r := by
  unfold update
  split_ifs
  · exact hf r
  · rfl

theorem map_key_update (k : κ) (hf : ∀ r, key (f r) = key r) :
    (rows.map (update key k f)).map key = rows.map key := by
  rw [List.map_map]
  exact List.map_congr_left fun r _ => key_update k hf r

omit [DecidableEq κ] in
theorem eq_of_key_eq (hn : (rows.map key).Nodup) {a b : ρ} (ha : a ∈ rows) (hb : b ∈ rows)
    (h : key a = key b) : a = b :=
  List.inj_on_of_nodup_map hn ha hb h

omit [DecidableEq κ] in
/-- A row with a new key. -/
theorem nodup_snoc (hn : (rows.map key).Nodup) (hx : key x ∉ rows.map key) :
    ((rows ++ [x]).map key).Nodup := by
  rw [List.map_append, List.nodup_append]
  refine ⟨hn, List.nodup_singleton _, fun a ha b hb hab => hx ?_⟩
  rw [← List.mem_singleton.mp hb, ← hab]
  exact ha

/-- The rows of the table after an update. -/
theorem mem_map_update (hn : (rows.map key).Nodup) (hx : x ∈ rows) {y : ρ} :
    y ∈ rows.map (update key (key x) f) ↔ y = f x ∨ y ∈ rows ∧ key y ≠ key x := by
  constructor
  · intro hy
    obtain ⟨r, hr, rfl⟩ := List.mem_map.mp hy
    by_cases h : key r = key x
    · rw [eq_of_key_eq hn hr hx h, update_self]
      exact Or.inl rfl
    · rw [update_of_ne h]
      exact Or.inr ⟨hr, h⟩
  · rintro (rfl | ⟨hy, h⟩)
    · exact List.mem_map.mpr ⟨x, hx, update_self key x f⟩
    · exact List.mem_map.mpr ⟨y, hy, update_of_ne h⟩

/-- An update of a key that no row has does nothing. -/
theorem map_update_of_notMem {k : κ} (h : k ∉ rows.map key) :
    rows.map (update key k f) = rows := by
  refine (List.map_congr_left fun r hr => update_of_ne ?_).trans (List.map_id rows)
  rintro rfl
  exact h (List.mem_map_of_mem hr)

/-- An update changes the count by the row that it changes. -/
theorem countP_map_update (hn : (rows.map key).Nodup) (hx : x ∈ rows) (p : ρ → Bool) :
    (rows.map (update key (key x) f)).countP p + (if p x then 1 else 0) =
      rows.countP p + (if p (f x) then 1 else 0) := by
  induction rows with
  | nil => exact absurd hx List.not_mem_nil
  | cons r rows ih =>
    obtain ⟨hr, hn⟩ := List.nodup_cons.mp hn
    rw [List.map_cons, List.countP_cons, List.countP_cons]
    rcases List.mem_cons.mp hx with rfl | hx
    · rw [update_self, map_update_of_notMem hr]
      omega
    · have hne : key r ≠ key x := fun h => hr (h ▸ List.mem_map_of_mem hx)
      rw [update_of_ne hne]
      have := ih hn hx
      omega

omit [DecidableEq κ] in
/-- Rows of which no two meet a condition. -/
theorem countP_le_one {p : ρ → Bool} (h : rows.Pairwise fun a b => ¬(p a = true ∧ p b = true)) :
    rows.countP p ≤ 1 := by
  induction rows with
  | nil => exact Nat.zero_le _
  | cons r rows ih =>
    obtain ⟨hr, h⟩ := List.pairwise_cons.mp h
    by_cases hp : p r = true
    · have hnone : rows.countP p = 0 := List.countP_eq_zero.mpr fun x hx hpx => hr x hx ⟨hp, hpx⟩
      exact Nat.le_of_eq ((List.countP_cons_of_pos hp).trans (congrArg (· + 1) hnone))
    · rw [List.countP_cons_of_neg hp]
      exact ih h

/-- A relation between rows that an update does not introduce. -/
theorem pairwise_map_update {R : ρ → ρ → Prop} {k : κ} (h : rows.Pairwise R)
    (hf : ∀ {a b}, R a b → R (update key k f a) (update key k f b)) :
    (rows.map (update key k f)).Pairwise R :=
  List.pairwise_map.mpr (h.imp hf)

/-! ### Tables with a primary key -/

omit [DecidableEq κ] in
/-- A table: no two rows have the same key. -/
structure Table (key : ρ → κ) where
  rows : List ρ
  nodup : (rows.map key).Nodup

namespace Table

omit [DecidableEq κ] in
/-- The table without rows. -/
def empty : Table key := ⟨[], List.nodup_nil⟩

/-- `SELECT * FROM ... WHERE key = ?`. -/
def find (T : Table key) (k : κ) : Option ρ := T.rows.find? (key · = k)

/-- `INSERT OR REPLACE`. -/
def put (T : Table key) (r : ρ) : Table key where
  rows := T.rows.filter (key · ≠ key r) ++ [r]
  nodup := by
    refine nodup_snoc (T.nodup.sublist (List.filter_sublist.map key)) fun hr => ?_
    obtain ⟨x, hx, hxr⟩ := List.mem_map.mp hr
    exact of_decide_eq_true (List.mem_filter.mp hx).2 hxr

omit [DecidableEq κ] in
/-- An `UPDATE` of columns outside the key. -/
def update (T : Table key) (f : ρ → ρ) (hf : ∀ r, key (f r) = key r) : Table key where
  rows := T.rows.map f
  nodup := by
    rw [List.map_map, show key ∘ f = key from funext hf]
    exact T.nodup

/-- `INSERT ... ON CONFLICT(key) DO UPDATE`, or the assignment to a key of a dictionary: a row with
the key is replaced in its place, a new one comes last. -/
def upsert (T : Table key) (r : ρ) : Table key :=
  if key r ∈ T.rows.map key then
    T.update (Rows.update key (key r) fun _ => r) fun x => by
      unfold Rows.update
      split_ifs with h
      · exact h.symm
      · rfl
  else T.put r

/-- Rows written one after the other. -/
def upserts (T : Table key) (rows : List ρ) : Table key := rows.foldl upsert T

omit [DecidableEq κ] in
/-- The rows that a `DELETE` leaves. -/
def select (T : Table key) (p : ρ → Bool) : Table key :=
  ⟨T.rows.filter p, T.nodup.sublist (List.filter_sublist.map key)⟩

variable {T : Table key} {r : ρ} {k : κ}

theorem find_eq_some_iff : T.find k = some r ↔ r ∈ T.rows ∧ key r = k := by
  constructor
  · intro h
    exact ⟨List.mem_of_find?_eq_some h, of_decide_eq_true (List.find?_some h :)⟩
  · rintro ⟨hr, rfl⟩
    rcases hfind : T.find (key r) with _ | x
    · exact absurd (decide_eq_true rfl) (List.find?_eq_none.mp hfind r hr)
    · have hx := List.mem_of_find?_eq_some hfind
      have hxr : key x = key r := of_decide_eq_true (List.find?_some hfind :)
      rw [eq_of_key_eq T.nodup hx hr hxr]

theorem find_eq_none_iff : T.find k = none ↔ k ∉ T.rows.map key := by
  rw [find, List.find?_eq_none]
  exact ⟨fun h hk => by
    obtain ⟨r, hr, rfl⟩ := List.mem_map.mp hk
    exact h r hr (decide_eq_true rfl),
    fun h r hr hk => h (of_decide_eq_true hk ▸ List.mem_map_of_mem hr)⟩

theorem mem_put : x ∈ (T.put r).rows ↔ x = r ∨ x ∈ T.rows ∧ key x ≠ key r := by
  rw [put, List.mem_append, List.mem_singleton, List.mem_filter, decide_eq_true_eq, or_comm]

theorem find_put_self : (T.put r).find (key r) = some r :=
  find_eq_some_iff.mpr ⟨mem_put.mpr (Or.inl rfl), rfl⟩

theorem mem_upsert : x ∈ (T.upsert r).rows ↔ x = r ∨ x ∈ T.rows ∧ key x ≠ key r := by
  unfold upsert
  split_ifs with h
  · obtain ⟨y, hy, hyr⟩ := List.mem_map.mp h
    have hmem := mem_map_update (f := fun _ => r) T.nodup hy (y := x)
    rwa [hyr] at hmem
  · exact mem_put

/-- Replacing the row with a key, or adding one, leaves the other rows alone. -/
private theorem find_of_replaced {T' : Table key}
    (h : ∀ x, x ∈ T'.rows ↔ x = r ∨ x ∈ T.rows ∧ key x ≠ key r) (hk : k ≠ key r) :
    T'.find k = T.find k := by
  refine Option.ext fun x => ?_
  rw [find_eq_some_iff, find_eq_some_iff, h]
  refine and_congr_left fun hx => ⟨?_, fun hmem => Or.inr ⟨hmem, fun hxr => hk (hx.symm.trans hxr)⟩⟩
  rintro (rfl | ⟨hmem, -⟩)
  · exact absurd hx.symm hk
  · exact hmem

theorem find_put_of_ne (h : k ≠ key r) : (T.put r).find k = T.find k :=
  find_of_replaced (fun _ => mem_put) h

theorem find_upsert_self : (T.upsert r).find (key r) = some r :=
  find_eq_some_iff.mpr ⟨mem_upsert.mpr (Or.inl rfl), rfl⟩

theorem find_upsert_of_ne (h : k ≠ key r) : (T.upsert r).find k = T.find k :=
  find_of_replaced (fun _ => mem_upsert) h

/-- A row with a new key comes last. -/
theorem rows_put (h : key r ∉ T.rows.map key) : (T.put r).rows = T.rows ++ [r] := by
  refine congrArg (· ++ [r]) (List.filter_eq_self.mpr fun x hx => decide_eq_true fun hxr => ?_)
  exact h (hxr ▸ List.mem_map_of_mem hx)

theorem rows_upsert_of_mem (h : key r ∈ T.rows.map key) :
    (T.upsert r).rows = T.rows.map (Rows.update key (key r) fun _ => r) := by
  rw [upsert, if_pos h]
  rfl

/-- Replacing a row leaves the keys. -/
theorem keys_upsert_of_mem (h : key r ∈ T.rows.map key) :
    (T.upsert r).rows.map key = T.rows.map key := by
  rw [rows_upsert_of_mem h, List.map_map]
  refine List.map_congr_left fun x _ => ?_
  by_cases hx : key x = key r
  · exact (congrArg key (if_pos hx)).trans hx.symm
  · exact congrArg key (if_neg hx)

theorem rows_upsert_of_notMem (h : key r ∉ T.rows.map key) :
    (T.upsert r).rows = T.rows ++ [r] := by
  rw [upsert, if_neg h, rows_put h]

omit [DecidableEq κ] in
theorem ext_rows {T' : Table key} (h : T.rows = T'.rows) : T = T' := by
  cases T
  cases T'
  cases h
  rfl

/-- The row with a key is the one written last. -/
theorem mem_upserts (h : x ∈ (T.upserts rows).rows) :
    x ∈ rows ∨ x ∈ T.rows ∧ key x ∉ rows.map key := by
  induction rows generalizing T with
  | nil => exact Or.inr ⟨h, List.not_mem_nil⟩
  | cons r rows ih =>
    rcases ih h with hx | ⟨hx, hkey⟩
    · exact Or.inl (List.mem_cons_of_mem r hx)
    · rcases mem_upsert.mp hx with rfl | ⟨hx, hne⟩
      · exact Or.inl List.mem_cons_self
      · exact Or.inr ⟨hx, List.not_mem_cons_of_ne_of_not_mem hne hkey⟩

/-- The keys that a table has stay, those of the rows written come in. -/
theorem mem_keys_upserts :
    k ∈ (T.upserts rows).rows.map key ↔ k ∈ T.rows.map key ∨ k ∈ rows.map key := by
  induction rows generalizing T with
  | nil => exact (or_iff_left List.not_mem_nil).symm
  | cons r rows ih =>
    rw [show T.upserts (r :: rows) = (T.upsert r).upserts rows from rfl, ih, List.map_cons,
      List.mem_cons, ← or_assoc]
    refine or_congr_left ⟨fun h => ?_, fun h => ?_⟩
    · obtain ⟨x, hx, rfl⟩ := List.mem_map.mp h
      rcases mem_upsert.mp hx with rfl | ⟨hx, -⟩
      · exact Or.inr rfl
      · exact Or.inl (List.mem_map_of_mem hx)
    · by_cases hk : k = key r
      · exact hk ▸ List.mem_map_of_mem (mem_upsert.mpr (Or.inl rfl))
      · obtain ⟨x, hx, rfl⟩ := List.mem_map.mp (h.resolve_right hk)
        exact List.mem_map_of_mem (mem_upsert.mpr (Or.inr ⟨hx, hk⟩))

/-- Rows with new keys come after the others, in their order. -/
theorem rows_upserts (h : ((T.rows ++ rows).map key).Nodup) :
    (T.upserts rows).rows = T.rows ++ rows := by
  induction rows generalizing T with
  | nil => exact (List.append_nil _).symm
  | cons r rows ih =>
    have hr : key r ∉ T.rows.map key := fun hr => by
      rw [List.map_append, List.nodup_append] at h
      exact h.2.2 _ hr _ (List.mem_map_of_mem List.mem_cons_self) rfl
    have hrows := rows_upsert_of_notMem hr
    have hsplit : (T.upsert r).rows ++ rows = T.rows ++ r :: rows := by
      rw [hrows, List.append_assoc, List.singleton_append]
    exact (ih (hsplit ▸ h)).trans hsplit

variable {p : ρ → Bool}

/-- The row with a key among selected rows. -/
theorem find_select : (T.select p).find k = (T.find k).filter p := by
  refine Option.ext fun x => ?_
  rw [find_eq_some_iff, Option.filter_eq_some_iff, find_eq_some_iff, select, List.mem_filter]
  exact and_right_comm

omit [DecidableEq κ] in
theorem rows_select : (T.select p).rows = T.rows.filter p := rfl

/-- A row that is not selected is written. -/
theorem select_upsert_of_neg (hp : ∀ x ∈ T.rows, key x = key r → p x = false) (hr : p r = false) :
    (T.upsert r).select p = T.select p := by
  refine ext_rows ?_
  rw [rows_select, rows_select]
  by_cases hmem : key r ∈ T.rows.map key
  · have hsame : ∀ x ∈ T.rows, (p ∘ Rows.update key (key r) fun _ => r) x = p x := by
      intro x hx
      rw [Function.comp_apply]
      by_cases hkey : key x = key r
      · rw [Rows.update, if_pos hkey, hr, hp x hx hkey]
      · rw [update_of_ne hkey]
    rw [rows_upsert_of_mem hmem, List.filter_map, List.filter_congr hsame]
    refine (List.map_congr_left fun x hx => update_of_ne fun hkey => ?_).trans (List.map_id' _)
    obtain ⟨hx, hpx⟩ := List.mem_filter.mp hx
    exact absurd hpx (by rw [hp x hx hkey]; exact Bool.false_ne_true)
  · rw [rows_upsert_of_notMem hmem, List.filter_append,
      List.filter_cons_of_neg (by rw [hr]; exact Bool.false_ne_true), List.filter_nil,
      List.append_nil]

/-- A row that is selected is written, in the place of one that is. -/
theorem select_upsert_of_pos (hp : ∀ x ∈ T.rows, key x = key r → p x = true) (hr : p r = true) :
    (T.upsert r).select p = (T.select p).upsert r := by
  refine ext_rows ?_
  by_cases hmem : key r ∈ T.rows.map key
  · have hkeys : key r ∈ (T.select p).rows.map key := by
      obtain ⟨x, hx, hkey⟩ := List.mem_map.mp hmem
      exact List.mem_map.mpr ⟨x, List.mem_filter.mpr ⟨hx, hp x hx hkey⟩, hkey⟩
    have hsame : ∀ x ∈ T.rows, (p ∘ Rows.update key (key r) fun _ => r) x = p x := by
      intro x hx
      rw [Function.comp_apply]
      by_cases hkey : key x = key r
      · rw [Rows.update, if_pos hkey, hr, hp x hx hkey]
      · rw [update_of_ne hkey]
    rw [rows_upsert_of_mem hkeys, rows_select, rows_upsert_of_mem hmem, List.filter_map,
      List.filter_congr hsame, rows_select]
  · have hkeys : key r ∉ (T.select p).rows.map key :=
      fun h => hmem ((List.filter_sublist.map key).subset h)
    rw [rows_upsert_of_notMem hkeys, rows_select, rows_upsert_of_notMem hmem, List.filter_append,
      List.filter_cons_of_pos hr, List.filter_nil, rows_select]

/-- The other rows that meet a condition stay, in their order. -/
theorem filter_put (hp : ∀ x, key x = key r → p x = false) :
    (T.put r).rows.filter p = T.rows.filter p := by
  rw [put, List.filter_append, List.filter_cons_of_neg (by rw [hp r rfl]; exact Bool.false_ne_true),
    List.filter_nil, List.append_nil, List.filter_filter]
  refine List.filter_congr fun x _ => ?_
  by_cases hx : key x = key r
  · rw [hp x hx, Bool.false_and]
  · rw [decide_eq_true hx, Bool.and_true]

end Table

end Rows

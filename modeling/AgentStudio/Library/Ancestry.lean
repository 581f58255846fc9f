import Mathlib.Data.List.Chain
import Mathlib.Data.List.Nodup
import Mathlib.Data.List.Perm.Subperm

/-!
# The ancestors of a row

Rows that name a parent by its key: `find` looks a key up, and `up` is the key of the parent of a
row, if it names one. `Ascent find up k? l` says that `l` are the rows from the key upwards, in
this order, until a row names no parent or one that is not there. There is at most one such list
(`Ascent.unique`), its keys are distinct (`Ascent.nodup`), and there is one wherever the rows can
be ranked so that a parent ranks lower (`exists_ascent`).

`ascend` walks up with a bound on the number of steps, `climb` stops at a key that it has seen as
well. Both find the ascent where there is one and the bound is large enough (`Ascent.ascend_eq`,
`Ascent.climb_eq`). Whatever the rows are, `climb` goes from a row to its parent (`isChain_climb`)
as far as it can (`climb_stops`).

`Ordered key up rows` says that the rows are listed so that each has a new key and names a parent
before it, if it names one. A row added below a listed one keeps this, and every listed row has an
ascent through listed rows that ends at a row without a parent (`Ordered.exists_ascent`).
-/

namespace Ancestry

variable {κ ρ : Type}

/-- The rows from a key upwards. -/
inductive Ascent (find : κ → Option ρ) (up : ρ → Option κ) : Option κ → List ρ → Prop
  | stop {k? : Option κ} : k?.bind find = none → Ascent find up k? []
  | up {k : κ} {r : ρ} {l : List ρ} :
      find k = some r → Ascent find up (up r) l → Ascent find up (some k) (r :: l)

/-- The walk up, of at most so many rows. -/
def ascend (find : κ → Option ρ) (up : ρ → Option κ) : ℕ → Option κ → List ρ
  | 0, _ => []
  | n + 1, k? =>
    match k?.bind find with
    | none => []
    | some r => r :: ascend find up n (up r)

/-- The walk up that stops at a key that it has seen. -/
def climb [DecidableEq κ] (find : κ → Option ρ) (up : ρ → Option κ) :
    ℕ → List κ → Option κ → List ρ
  | 0, _, _ => []
  | _ + 1, _, none => []
  | n + 1, seen, some k =>
    match find k with
    | none => []
    | some r => if k ∈ seen then [] else r :: climb find up n (k :: seen) (up r)

variable {find : κ → Option ρ} {up : ρ → Option κ} {k? : Option κ} {k : κ} {r : ρ} {l l' : List ρ}

/-! ### Ascents -/

theorem Ascent.unique (h : Ascent find up k? l) (h' : Ascent find up k? l') : l = l' := by
  induction h generalizing l' with
  | stop hstop =>
    cases h' with
    | stop => rfl
    | up hfind => exact absurd (hstop.symm.trans hfind) (by simp)
  | up hfind _ ih =>
    cases h' with
    | stop hstop => exact absurd (hstop.symm.trans hfind) (by simp)
    | up hfind' h' =>
      obtain rfl := Option.some.inj (hfind.symm.trans hfind')
      rw [ih h']

theorem Ascent.of_nil (h : Ascent find up k? []) : k?.bind find = none := by
  cases h with
  | stop hstop => exact hstop

theorem Ascent.of_cons (h : Ascent find up k? (r :: l)) :
    ∃ k, k? = some k ∧ find k = some r ∧ Ascent find up (up r) l := by
  cases h with
  | up hfind hup => exact ⟨_, rfl, hfind, hup⟩

/-- The part of an ascent from one of its rows on is the ascent from the key of that row. -/
theorem Ascent.of_mem {key : ρ → κ} (hkey : ∀ {k r}, find k = some r → key r = k)
    (h : Ascent find up k? l) (hr : r ∈ l) :
    ∃ a b, l = a ++ r :: b ∧ Ascent find up (some (key r)) (r :: b) := by
  induction h with
  | stop => exact absurd hr List.not_mem_nil
  | @up k r' l hfind hup ih =>
    rcases List.mem_cons.mp hr with rfl | hr
    · refine ⟨[], l, rfl, ?_⟩
      rw [hkey hfind]
      exact .up hfind hup
    · obtain ⟨a, b, rfl, hb⟩ := ih hr
      exact ⟨r' :: a, b, rfl, hb⟩

/-- No key occurs twice on the way up. -/
theorem Ascent.nodup {key : ρ → κ} (hkey : ∀ {k r}, find k = some r → key r = k)
    (h : Ascent find up k? l) : (l.map key).Nodup := by
  induction h with
  | stop => exact List.nodup_nil
  | @up k r l hfind hup ih =>
    rw [List.map_cons, List.nodup_cons]
    refine ⟨fun hmem => ?_, ih⟩
    obtain ⟨r', hr', hr'k⟩ := List.mem_map.mp hmem
    obtain ⟨a, b, rfl, hb⟩ := hup.of_mem hkey hr'
    -- the rows from the same key on would be a proper part of themselves
    rw [hr'k, hkey hfind] at hb
    have := congrArg List.length (hb.unique (.up hfind hup))
    simp only [List.length_cons, List.length_append] at this
    omega

/-- Where a parent ranks lower, there is an ascent, no longer than the rank. -/
theorem exists_ascent_key {rank : ρ → ℕ}
    (hrank : ∀ {k r k' r'}, find k = some r → up r = some k' → find k' = some r' → rank r' < rank r)
    (hfind : find k = some r) :
    ∃ l, Ascent find up (some k) (r :: l) ∧ l.length ≤ rank r := by
  induction hn : rank r using Nat.strongRecOn generalizing k r with
  | ind n ih =>
    rcases hup : (up r).bind find with _ | r'
    · exact ⟨[], .up hfind (.stop hup), Nat.zero_le _⟩
    · obtain ⟨k', hk', hfind'⟩ := Option.bind_eq_some_iff.mp hup
      have hlt := hrank hfind hk' hfind'
      obtain ⟨l, hl, hlen⟩ := ih (rank r') (hn ▸ hlt) hfind' rfl
      refine ⟨r' :: l, .up hfind (hk' ▸ hl), ?_⟩
      rw [List.length_cons]
      omega

/-! ### The walks -/

theorem length_ascend_le (n : ℕ) (k? : Option κ) : (ascend find up n k?).length ≤ n := by
  induction n generalizing k? with
  | zero => exact Nat.le_refl 0
  | succ n ih =>
    rw [ascend]
    rcases k?.bind find with _ | r
    · exact Nat.zero_le _
    · exact Nat.succ_le_succ (ih _)

variable {n : ℕ} {seen : List κ}

theorem Ascent.ascend_eq (h : Ascent find up k? l) (hn : l.length ≤ n) :
    ascend find up n k? = l := by
  induction h generalizing n with
  | stop hstop =>
    cases n with
    | zero => rfl
    | succ n => rw [ascend, hstop]
  | up hfind _ ih =>
    cases n with
    | zero => exact absurd hn (Nat.not_succ_le_zero _)
    | succ n =>
      rw [ascend, Option.bind_some, hfind]
      exact congrArg _ (ih (Nat.le_of_succ_le_succ hn))

variable [DecidableEq κ]

/-- The rows of a walk are found, each under its own key, and no key is a seen one. -/
theorem mem_climb {key : ρ → κ} (hkey : ∀ {k r}, find k = some r → key r = k)
    (hr : r ∈ climb find up n seen k?) : find (key r) = some r ∧ key r ∉ seen := by
  induction n generalizing seen k? with
  | zero => exact absurd hr List.not_mem_nil
  | succ n ih =>
    rcases k? with _ | k
    · exact absurd hr List.not_mem_nil
    · rw [climb] at hr
      rcases hfind : find k with _ | r'
      · rw [hfind] at hr
        exact absurd hr List.not_mem_nil
      · rw [hfind] at hr
        dsimp only at hr
        split_ifs at hr with hseen
        · exact absurd hr List.not_mem_nil
        · rcases List.mem_cons.mp hr with rfl | hr
          · rw [hkey hfind]
            exact ⟨hfind, hseen⟩
          · obtain ⟨hfind', hnot⟩ := ih hr
            exact ⟨hfind', fun h => hnot (List.mem_cons_of_mem _ h)⟩

/-- No key occurs twice in a walk. -/
theorem climb_nodup {key : ρ → κ} (hkey : ∀ {k r}, find k = some r → key r = k) :
    ((climb find up n seen k?).map key).Nodup := by
  induction n generalizing seen k? with
  | zero => exact List.nodup_nil
  | succ n ih =>
    rcases k? with _ | k
    · exact List.nodup_nil
    · rw [climb]
      rcases hfind : find k with _ | r
      · exact List.nodup_nil
      · dsimp only
        split_ifs
        · exact List.nodup_nil
        · rw [List.map_cons, List.nodup_cons]
          refine ⟨fun hmem => ?_, ih⟩
          obtain ⟨r', hr', hr'k⟩ := List.mem_map.mp hmem
          refine (mem_climb hkey hr').2 ?_
          rw [hr'k, hkey hfind]
          exact List.mem_cons_self

/-- A walk from a key that is found starts with its row. -/
theorem climb_some (hfind : find k = some r) (hseen : k ∉ seen) :
    climb find up (n + 1) seen (some k) = r :: climb find up n (k :: seen) (up r) := by
  rw [climb, hfind]
  exact if_neg hseen

/-- The first row of a walk is that of the key from which it starts. -/
theorem climb_eq_cons (h : climb find up n seen k? = r :: l) :
    ∃ k, k? = some k ∧ find k = some r ∧
      ∃ m, n = m + 1 ∧ climb find up m (k :: seen) (up r) = l := by
  rcases n with _ | n
  · exact absurd h (by simp [climb])
  · rcases k? with _ | k
    · exact absurd h (by simp [climb])
    · rw [climb] at h
      rcases hfind : find k with _ | r'
      · rw [hfind] at h
        exact absurd h (by simp)
      · rw [hfind] at h
        dsimp only at h
        split_ifs at h
        obtain ⟨rfl, hl⟩ := List.cons.inj h
        exact ⟨k, rfl, hfind, n, rfl, hl⟩

/-- In a walk every row is followed by its parent. -/
theorem isChain_climb {key : ρ → κ} (hkey : ∀ {k r}, find k = some r → key r = k)
    (h : climb find up n seen k? = l) : l.IsChain fun a b => up a = some (key b) := by
  induction l generalizing n seen k? with
  | nil => exact .nil
  | cons r l ih =>
    obtain ⟨k, -, -, m, -, hl⟩ := climb_eq_cons h
    cases l with
    | nil => exact .singleton r
    | cons r' l =>
      obtain ⟨k', hup, hfind, -⟩ := climb_eq_cons hl
      exact .cons_cons (by rw [hup, hkey hfind]) (ih hl)

/-- A walk goes on until its bound is reached, the parent is not there, or it has been seen. -/
theorem climb_stops {key : ρ → κ} (hkey : ∀ {k r}, find k = some r → key r = k)
    (h : climb find up n seen k? = l) (hr : l.getLast? = some r) :
    l.length = n ∨ (up r).bind find = none ∨ ∃ k, up r = some k ∧ (k ∈ seen ∨ k ∈ l.map key) := by
  induction l generalizing n seen k? with
  | nil => simp at hr
  | cons r' l ih =>
    obtain ⟨k, -, hfind, m, rfl, hl⟩ := climb_eq_cons h
    cases l with
    | cons r'' l =>
      rcases ih hl (by simpa using hr) with hlen | hnone | ⟨k', hup, hk'⟩
      · exact .inl (by simpa using hlen)
      · exact .inr (.inl hnone)
      · refine .inr (.inr ⟨k', hup, ?_⟩)
        rw [List.map_cons, List.mem_cons, hkey hfind]
        simpa [or_assoc, or_left_comm] using hk'
    | nil =>
      obtain rfl : r' = r := by simpa using hr
      rcases m with _ | m
      · exact .inl rfl
      · rcases hup : up r' with _ | k'
        · exact .inr (.inl rfl)
        · rw [hup, climb] at hl
          rcases hfind' : find k' with _ | r''
          · exact .inr (.inl hfind')
          · rw [hfind'] at hl
            dsimp only at hl
            split_ifs at hl with hseen
            refine .inr (.inr ⟨k', rfl, ?_⟩)
            simpa [hkey hfind, or_comm] using hseen

theorem Ascent.climb_eq {key : ρ → κ} (hkey : ∀ {k r}, find k = some r → key r = k)
    (h : Ascent find up k? l) (hn : l.length ≤ n) (hseen : ∀ r ∈ l, key r ∉ seen) :
    climb find up n seen k? = l := by
  induction h generalizing n seen with
  | @stop k? hstop =>
    cases n with
    | zero => rfl
    | succ n =>
      rcases k? with _ | k
      · rfl
      · rw [climb, show find k = none from hstop]
  | @up k r l hfind hup ih =>
    have hr : k ∉ seen := hkey hfind ▸ hseen r List.mem_cons_self
    cases n with
    | zero => exact absurd hn (Nat.not_succ_le_zero _)
    | succ n =>
      rw [climb_some hfind hr]
      refine congrArg _ (ih (Nat.le_of_succ_le_succ hn) fun r' hr' hmem => ?_)
      rcases List.mem_cons.mp hmem with heq | hmem
      · have hnodup := (Ascent.up hfind hup).nodup hkey
        rw [List.map_cons, hkey hfind, List.nodup_cons] at hnodup
        exact hnodup.1 (heq ▸ List.mem_map_of_mem hr')
      · exact hseen r' (List.mem_cons_of_mem _ hr') hmem

/-! ### Rows in order -/

omit [DecidableEq κ] in
/-- Rows of which each has a new key and names an earlier row as its parent, if any. -/
inductive Ordered (key : ρ → κ) (up : ρ → Option κ) : List ρ → Prop
  | nil : Ordered key up []
  | snoc {rows : List ρ} {r : ρ} : Ordered key up rows → key r ∉ rows.map key →
      (∀ k, up r = some k → k ∈ rows.map key) → Ordered key up (rows ++ [r])

namespace Ordered

variable {key : ρ → κ} {rows : List ρ}

omit [DecidableEq κ] in
theorem nodup (h : Ordered key up rows) : (rows.map key).Nodup := by
  induction h with
  | nil => exact List.nodup_nil
  | snoc _ hnew _ ih =>
    rw [List.map_append, List.map_singleton]
    exact List.nodup_append.mpr ⟨ih, List.nodup_singleton _, fun a ha b hb hab =>
      hnew (List.mem_singleton.mp hb ▸ hab ▸ ha)⟩

omit [DecidableEq κ] in
/-- The order is one of the keys and the parents. -/
theorem map {f : ρ → ρ} (hkey : ∀ r, key (f r) = key r) (hup : ∀ r, up (f r) = up r)
    (h : Ordered key up rows) : Ordered key up (rows.map f) := by
  have hkeys (rows : List ρ) : (rows.map f).map key = rows.map key := by
    rw [List.map_map]
    exact List.map_congr_left fun r _ => hkey r
  induction h with
  | nil => exact .nil
  | snoc _ hnew hparent ih =>
    rw [List.map_append, List.map_singleton]
    refine .snoc ih ?_ fun k hk => ?_
    · rwa [hkeys, hkey]
    · rw [hkeys]
      exact hparent k ((hup _).symm.trans hk)

/-- A parent comes before its child. -/
theorem idxOf_lt (h : Ordered key up rows) (hr : r ∈ rows) (hk : up r = some k) :
    (rows.map key).idxOf k < (rows.map key).idxOf (key r) := by
  induction h with
  | nil => exact absurd hr List.not_mem_nil
  | @snoc rows x h hnew hparent ih =>
    rw [List.map_append, List.map_singleton]
    rcases List.mem_append.mp hr with hr' | hr'
    · have hmem : k ∈ rows.map key := by
        by_contra hnot
        have := ih hr'
        rw [List.idxOf_eq_length hnot] at this
        exact absurd this (Nat.not_lt.mpr List.idxOf_le_length)
      rw [List.idxOf_append_of_mem hmem, List.idxOf_append_of_mem (List.mem_map_of_mem hr')]
      exact ih hr'
    · obtain rfl := List.mem_singleton.mp hr'
      rw [List.idxOf_append_of_mem (hparent k hk), List.idxOf_append_of_notMem hnew]
      exact Nat.lt_add_right _ (List.idxOf_lt_length_of_mem (hparent k hk))

/-- A parent is one of the rows. -/
theorem parent_mem (h : Ordered key up rows) (hr : r ∈ rows) (hk : up r = some k) :
    k ∈ rows.map key :=
  List.idxOf_lt_length_iff.mp (Nat.lt_of_lt_of_le (h.idxOf_lt hr hk) List.idxOf_le_length)

omit [DecidableEq κ] in
/-- The row of a parent has a smaller index. -/
theorem exists_parent (h : Ordered key up rows) {i : ℕ} (hr : rows[i]? = some r)
    (hk : up r = some k) : ∃ j p, j < i ∧ rows[j]? = some p ∧ key p = k := by
  induction h with
  | nil => exact absurd hr (by simp)
  | @snoc rows x h hnew hparent ih =>
    rcases Nat.lt_or_ge i rows.length with hi | hi
    · rw [List.getElem?_append_left hi] at hr
      obtain ⟨j, p, hj, hp, hpk⟩ := ih hr
      refine ⟨j, p, hj, ?_, hpk⟩
      rwa [List.getElem?_append_left (Nat.lt_trans hj hi)]
    · rw [List.getElem?_append_right hi] at hr
      obtain rfl := List.mem_singleton.mp (List.mem_of_getElem? hr)
      obtain ⟨p, hp, hpk⟩ := List.mem_map.mp (hparent k hk)
      obtain ⟨j, hj⟩ := List.mem_iff_getElem?.mp hp
      have hlt : j < rows.length := (List.getElem?_eq_some_iff.mp hj).1
      refine ⟨j, p, Nat.lt_of_lt_of_le hlt hi, ?_, hpk⟩
      rwa [List.getElem?_append_left hlt]

/-- The first row names no parent. -/
theorem up_head (h : Ordered key up (r :: rows)) : up r = none := by
  rcases hk : up r with _ | k
  · rfl
  · have hlt := h.idxOf_lt List.mem_cons_self hk
    rw [List.map_cons, List.idxOf_cons_self] at hlt
    exact absurd hlt (Nat.not_lt_zero _)

/-- Every row has an ascent, no longer than the list. -/
theorem exists_ascent (h : Ordered key up rows) (hr : r ∈ rows)
    (hfind : ∀ {k r}, find k = some r ↔ r ∈ rows ∧ key r = k) :
    ∃ l, Ascent find up (some (key r)) (r :: l) ∧ (r :: l).length ≤ rows.length := by
  have hrank : ∀ {k r k' r'}, find k = some r → up r = some k' → find k' = some r' →
      (rows.map key).idxOf (key r') < (rows.map key).idxOf (key r) := by
    intro k r k' r' hr hk hr'
    rw [(hfind.mp hr').2]
    exact h.idxOf_lt (hfind.mp hr).1 hk
  obtain ⟨l, hl, hlen⟩ := exists_ascent_key hrank (hfind.mpr ⟨hr, rfl⟩)
  refine ⟨l, hl, Nat.succ_le_of_lt (Nat.lt_of_le_of_lt hlen ?_)⟩
  have := List.idxOf_lt_length_of_mem (List.mem_map_of_mem (f := key) hr)
  rwa [List.length_map] at this

end Ordered

end Ancestry

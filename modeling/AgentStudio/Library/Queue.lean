import Mathlib.Data.List.Basic
import Mathlib.Order.Defs.Unbundled
import Mathlib.Logic.Function.Iterate

/-!
# Polling a queue whose first entry may be blocked

A queue is a list of entries with an order `before`; `select` takes the first entry that no other
comes before. A poll looks at that entry only: it takes the entry out if it is ready, and leaves
the queue as it is otherwise.

`polled_iff` says which entries repeated polls take out at some time: those that are ready and
that no blocked entry is selected before. A blocked entry that is selected stays, and with it
everything behind it.
-/

namespace PollQueue

variable {E : Type} (before : E → E → Prop) [DecidableRel before]

/-- The first entry that no other comes before. -/
def select : List E → Option E
  | [] => none
  | e :: es =>
    match select es with
    | none => some e
    | some x => if before x e then some x else some e

/-- An order in which entries may also be level. -/
structure Weak : Prop where
  irrefl : ∀ a, ¬ before a a
  trans : ∀ a b c, before a b → before b c → before a c
  negTrans : ∀ a b c, ¬ before a b → ¬ before b c → ¬ before a c

variable {before}

variable {es : List E}

theorem select_eq_none_iff : select before es = none ↔ es = [] := by
  cases es with
  | nil => simp [select]
  | cons e es =>
    rw [select]
    split
    · simp
    · split_ifs <;> simp

theorem mem_of_select {c : E} (h : select before es = some c) : c ∈ es := by
  induction es generalizing c with
  | nil => simp [select] at h
  | cons e es ih =>
    rw [select] at h
    cases hs : select before es with
    | none =>
      rw [hs] at h
      exact Option.some.inj h ▸ List.mem_cons_self
    | some x =>
      rw [hs] at h
      simp only at h
      split_ifs at h <;> obtain rfl := Option.some.inj h
      · exact List.mem_cons_of_mem _ (ih hs)
      · exact List.mem_cons_self

/-- The selected entry comes before those in front of it, and nothing behind it does so. -/
theorem select_eq_some_iff (hw : Weak before) {c : E} :
    select before es = some c ↔
      ∃ l r, es = l ++ c :: r ∧ (∀ x ∈ l, before c x) ∧ ∀ x ∈ r, ¬ before x c := by
  constructor
  · intro h
    induction es generalizing c with
    | nil => simp [select] at h
    | cons e es ih =>
      rw [select] at h
      cases hs : select before es with
      | none =>
        rw [hs] at h
        obtain rfl := Option.some.inj h
        exact ⟨[], es, rfl, by simp, by simp [select_eq_none_iff.mp hs]⟩
      | some x =>
        obtain ⟨l, r, rfl, hl, hr⟩ := ih hs
        rw [hs] at h
        simp only at h
        split_ifs at h with hb <;> obtain rfl := Option.some.inj h
        · refine ⟨e :: l, r, rfl, fun y hy => ?_, hr⟩
          rcases List.mem_cons.mp hy with rfl | hy
          · exact hb
          · exact hl y hy
        · refine ⟨[], l ++ x :: r, rfl, by simp, fun y hy => ?_⟩
          rcases List.mem_append.mp hy with hy | hy
          · exact fun hye => hb (hw.trans x y e (hl y hy) hye)
          · rcases List.mem_cons.mp hy with rfl | hy
            · exact hb
            · exact hw.negTrans y x e (hr y hy) hb
  · rintro ⟨l, r, rfl, hl, hr⟩
    induction l with
    | nil =>
      rw [List.nil_append, select]
      cases hs : select before r with
      | none => rfl
      | some x => simp [hr x (mem_of_select hs)]
    | cons a l ih =>
      rw [List.cons_append, select, ih fun x hx => hl x (List.mem_cons_of_mem _ hx)]
      simp [hl a List.mem_cons_self]

/-- The entry that is selected is selected from every part of the queue that has it. -/
theorem select_filter (hw : Weak before) {c : E} (h : select before es = some c) {p : E → Bool}
    (hp : p c = true) : select before (es.filter p) = some c := by
  obtain ⟨l, r, rfl, hl, hr⟩ := (select_eq_some_iff hw).mp h
  refine (select_eq_some_iff hw).mpr ⟨l.filter p, r.filter p, by simp [hp], fun x hx => ?_,
    fun x hx => ?_⟩
  · exact hl x (List.mem_filter.mp hx).1
  · exact hr x (List.mem_filter.mp hx).1

/-- Selecting from entries that stand for others. -/
theorem select_map {F : Type} {before' : F → F → Prop} [DecidableRel before'] (f : E → F)
    (hf : ∀ a ∈ es, ∀ b ∈ es, before' (f a) (f b) ↔ before a b) :
    select before' (es.map f) = (select before es).map f := by
  induction es with
  | nil => rfl
  | cons e es ih =>
    rw [List.map_cons, select, select,
      ih fun a ha b hb => hf a (List.mem_cons_of_mem _ ha) b (List.mem_cons_of_mem _ hb)]
    cases hs : select before es with
    | none => rfl
    | some x =>
      have hxe := hf x (List.mem_cons_of_mem _ (mem_of_select hs)) e List.mem_cons_self
      by_cases h : before x e <;> simp [h, hxe]

/-! ### Polls -/

variable (before) [DecidableEq E] (ready : E → Bool)

/-- One poll: the entry that is taken out, and the queue after it. -/
def poll (es : List E) : Option E × List E :=
  match select before es with
  | none => (none, es)
  | some c => if ready c then (some c, es.filter (· ≠ c)) else (none, es)

/-- Some poll takes the entry out. -/
def Polled (x : E) (es : List E) : Prop :=
  ∃ n, (poll before ready ((fun es => (poll before ready es).2)^[n] es)).1 = some x

/-- The blocked entries, and one besides. -/
def rivals (x : E) (es : List E) : List E := es.filter fun e => !ready e || e = x

variable {before ready}

/-- A poll of the selected entry. -/
theorem poll_of_select {c : E} (h : select before es = some c) :
    poll before ready es = if ready c then (some c, es.filter (· ≠ c)) else (none, es) := by
  rw [poll, h]

/-- The first poll takes the entry out, or a later one does. -/
theorem polled_iff_succ {x : E} :
    Polled before ready x es ↔
      (poll before ready es).1 = some x ∨ Polled before ready x (poll before ready es).2 := by
  constructor
  · rintro ⟨_ | n, hn⟩
    · exact Or.inl hn
    · exact Or.inr ⟨n, hn⟩
  · rintro (h | ⟨n, hn⟩)
    · exact ⟨0, h⟩
    · exact ⟨n + 1, hn⟩

/-- What is polled is ready and in the queue. -/
theorem mem_of_poll {x : E} (h : (poll before ready es).1 = some x) :
    select before es = some x ∧ x ∈ es ∧ ready x = true := by
  unfold poll at h
  cases hs : select before es with
  | none => simp [hs] at h
  | some c =>
    simp only [hs] at h
    split_ifs at h with hc
    obtain rfl := Option.some.inj h
    exact ⟨rfl, mem_of_select hs, hc⟩

/-- A poll that does not take an entry out leaves its rivals. -/
theorem rivals_poll {x : E} (h : (poll before ready es).1 ≠ some x) :
    rivals ready x (poll before ready es).2 = rivals ready x es := by
  unfold poll at h ⊢
  cases hs : select before es with
  | none => rfl
  | some c =>
    simp only [hs] at h ⊢
    split_ifs at h ⊢ with hc
    · have hcx : c ≠ x := fun heq => h (heq ▸ rfl)
      simp only [rivals, List.filter_filter]
      refine List.filter_congr fun e _ => ?_
      by_cases hec : e = c
      · subst hec
        simp [hc, hcx]
      · simp [hec]
    · rfl

/-- **Repeated polls** take out the ready entries that no blocked one is selected before. -/
theorem polled_iff (hw : Weak before) {x : E} :
    Polled before ready x es ↔
      x ∈ es ∧ ready x = true ∧ select before (rivals ready x es) = some x := by
  constructor
  · rintro ⟨n, hn⟩
    induction n generalizing es with
    | zero =>
      obtain ⟨hs, hx, hready⟩ := mem_of_poll hn
      exact ⟨hx, hready, select_filter hw hs (by simp)⟩
    | succ n ih =>
      by_cases hfirst : (poll before ready es).1 = some x
      · obtain ⟨hs, hx, hready⟩ := mem_of_poll hfirst
        exact ⟨hx, hready, select_filter hw hs (by simp)⟩
      · obtain ⟨hx, hready, hs⟩ := ih hn
        rw [rivals_poll hfirst] at hs
        exact ⟨(List.mem_filter.mp (mem_of_select hs)).1, hready, hs⟩
  · -- induction on the length of the queue: every poll before takes an entry out
    rintro ⟨hx, hready, hs⟩
    generalize hlen : es.length = n
    induction n using Nat.strongRecOn generalizing es with
    | ind n ih =>
      refine polled_iff_succ.mpr (or_iff_not_imp_left.mpr fun hfirst => ?_)
      have hrivals := rivals_poll hfirst
      cases hc : select before es with
      | none => simp [select_eq_none_iff.mp hc] at hx
      | some c =>
        have hcready : ready c = true := by
          by_contra hblocked
          have hcx := (select_filter hw hc (p := fun e => !ready e || e = x)
            (by simp [hblocked])).symm.trans hs
          exact hblocked (Option.some.inj hcx ▸ hready)
        have hpoll : poll before ready es = (some c, es.filter (· ≠ c)) :=
          (poll_of_select hc).trans (if_pos hcready)
        rw [hpoll] at hfirst hrivals ⊢
        have hcx : x ≠ c := fun heq => hfirst (heq ▸ rfl)
        refine ih _ ?_ (List.mem_filter.mpr ⟨hx, by simpa using hcx⟩) (hrivals.symm ▸ hs) rfl
        rw [← hlen]
        refine List.length_filter_lt_length_iff_exists.mpr ⟨c, mem_of_select hc, by simp⟩

end PollQueue

import Mathlib.Data.List.Basic

/-!
# Coroutines over a shared state

A pool is a shared state with the coroutines that run over it. A coroutine that is resumed with
an answer runs until it waits again: its `Turn` is the next shared state, what it is then, and the
coroutines that it has created. Between two turns the others may take any number of turns.
-/

namespace Coroutines

variable {W P A : Type}

/-- What a coroutine does until it waits again. -/
structure Turn (W P : Type) where
  world : W
  self : P
  spawned : List P := []

/-- A shared state with the coroutines over it. -/
structure Pool (W P : Type) where
  world : W
  members : List P

namespace Pool

/-- The coroutine at a place takes a turn. -/
def resume (turn : A → P → W → Turn W P) (n : ℕ) (a : A) (s : Pool W P) : Pool W P :=
  match s.members[n]? with
  | none => s
  | some p =>
    let t := turn a p s.world
    ⟨t.world, s.members.set n t.self ++ t.spawned⟩

/-- A coroutine more. -/
def spawn (s : Pool W P) (p : P) : Pool W P := { s with members := s.members ++ [p] }

variable {turn : A → P → W → Turn W P} {n : ℕ} {a : A} {s : Pool W P} {p : P}

theorem resume_of_none (h : s.members[n]? = none) : s.resume turn n a = s := by
  rw [resume, h]

theorem resume_of_some (h : s.members[n]? = some p) :
    s.resume turn n a =
      ⟨(turn a p s.world).world,
        s.members.set n (turn a p s.world).self ++ (turn a p s.world).spawned⟩ := by
  rw [resume, h]

/-- After a turn a coroutine is the one that took it, one that it has created, or one of the
others. -/
theorem mem_resume {q : P} (h : q ∈ (s.resume turn n a).members) :
    q ∈ s.members ∨ ∃ p, s.members[n]? = some p ∧
      (q = (turn a p s.world).self ∨ q ∈ (turn a p s.world).spawned) := by
  cases hn : s.members[n]? with
  | none => exact .inl (by rwa [resume_of_none hn] at h)
  | some p =>
    rw [resume_of_some hn] at h
    rcases List.mem_append.mp h with h | h
    · rcases List.mem_or_eq_of_mem_set h with h | h
      · exact .inl h
      · exact .inr ⟨p, rfl, .inl h⟩
    · exact .inr ⟨p, rfl, .inr h⟩

/-- A turn makes no more coroutines of a kind, if the one that took it stays of its kind and creates
none. -/
theorem countP_resume_le (q : P → Bool)
    (hturn : ∀ p, s.members[n]? = some p → (q (turn a p s.world).self = true → q p = true) ∧
      ∀ p' ∈ (turn a p s.world).spawned, q p' = false) :
    (s.resume turn n a).members.countP q ≤ s.members.countP q := by
  cases hn : s.members[n]? with
  | none => exact Nat.le_of_eq (by rw [resume_of_none hn])
  | some p =>
    obtain ⟨hself, hspawned⟩ := hturn p hn
    obtain ⟨hlt, hget⟩ := List.getElem?_eq_some_iff.mp hn
    have hnone : (turn a p s.world).spawned.countP q = 0 :=
      List.countP_eq_zero.mpr fun p' hp' => by simp [hspawned p' hp']
    rw [resume_of_some hn, List.countP_append, hnone, Nat.add_zero, List.countP_set hlt, hget]
    have hle : (if q (turn a p s.world).self = true then 1 else 0) ≤
        if q p = true then 1 else 0 := by
      split_ifs with hq hp
      · exact Nat.le_refl 1
      · exact absurd (hself hq) hp
      · exact Nat.zero_le 1
      · exact Nat.le_refl 0
    have hmem : (if q p = true then 1 else 0) ≤ s.members.countP q := by
      split_ifs with hp
      · exact List.countP_pos_iff.mpr ⟨p, List.mem_of_getElem? hn, hp⟩
      · exact Nat.zero_le _
    omega

end Pool

end Coroutines

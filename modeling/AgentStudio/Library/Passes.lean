import AgentStudio.Library.Machine
import Mathlib.Algebra.Order.Ring.Int
import Mathlib.Tactic.Linarith
import Mathlib.Tactic.Ring

/-!
# Counting the passes of a loop

What a log of events says about a loop: an event is another pass of the loop, its end, or none of
both (`Signal`). `passes` counts the passes since the loop was entered, and is `none` outside of
it. A log is `Exact` for a bound if a pass begins only below the bound, and the loop ends only at
it; then the passes of a stretch of the log are the bound times the ends (`Exact.count_again`), so
loops inside loops multiply (`Exact.count_nested`).
-/

namespace Passes

/-- What an event is to a loop. -/
inductive Signal where
  | again
  | done
  | other
deriving DecidableEq

variable {ε : Type} (signal : ε → Signal)

/-- The passes since the loop was entered, after an event. -/
def count (event : ε) (passes : Option ℕ) : Unit × Option ℕ :=
  ((), match signal event with
    | .again => some (passes.getD 0 + 1)
    | .done => none
    | .other => passes)

/-- The passes since the loop was entered. -/
def passes (log : List ε) : Option ℕ := (Machine.run (count signal) log none).2

/-- A pass begins below the bound, and the loop ends at the bound. -/
def Fits (bound : ℤ) (event : ε) (passes : Option ℕ) : Prop :=
  (signal event = .again → (passes.getD 0 : ℤ) < bound) ∧
    (signal event = .done → (passes.getD 0 : ℤ) = bound)

instance (bound : ℤ) (event : ε) (passes : Option ℕ) : Decidable (Fits signal bound event passes) :=
  inferInstanceAs (Decidable (_ ∧ _))

/-- Every pass begins below the bound, and every end comes at the bound. -/
def Exact (bound : ℤ) (log : List ε) : Prop :=
  Machine.Along (count signal) (Fits signal bound) log none

instance (bound : ℤ) (log : List ε) : Decidable (Exact signal bound log) :=
  inferInstanceAs (Decidable (Machine.Along _ _ _ _))

variable {signal} {bound : ℤ}

private theorem count_from {log : List ε} {k : Option ℕ}
    (h : Machine.Along (count signal) (Fits signal bound) log k) :
    (k.getD 0 : ℤ) + log.countP (signal · = .again) =
      log.countP (signal · = .done) * bound +
        ((Machine.run (count signal) log k).2.getD 0 : ℤ) := by
  induction log generalizing k with
  | nil => simp [Machine.run]
  | cons event log ih =>
    obtain ⟨hfits, hrest⟩ := h
    have hlog := ih hrest
    simp only [Machine.run, List.countP_cons]
    cases hs : signal event with
    | again =>
      simp only [count, hs, Option.getD_some] at hlog ⊢
      push_cast at hlog
      simp
      linarith
    | done =>
      have hend := hfits.2 hs
      simp only [count, hs, Option.getD_none] at hlog ⊢
      push_cast at hlog
      simp
      linarith
    | other =>
      simp only [count, hs] at hlog ⊢
      simpa using hlog

/-- **The passes of a stretch.** Between two points outside of the loop there are as many passes
as the bound, for every end. -/
theorem Exact.count_again {past stretch rest : List ε}
    (h : Exact signal bound (past ++ (stretch ++ rest))) (hpast : passes signal past = none)
    (hend : passes signal (past ++ stretch) = none) :
    (stretch.countP (signal · = .again) : ℤ) = stretch.countP (signal · = .done) * bound := by
  have hstretch := (Machine.along_append.mp (Machine.along_append.mp h).2).1
  rw [passes] at hpast hend
  rw [Machine.run_append, hpast] at hend
  rw [hpast] at hstretch
  simpa [hend] using count_from hstretch

/-- **Loops inside loops.** Where an inner loop ends once in every pass of an outer one, which ends
once, the inner passes are the product of the bounds. -/
theorem Exact.count_nested {inner : ε → Signal} {bound' : ℤ} {past stretch rest : List ε}
    (h : Exact signal bound (past ++ (stretch ++ rest)))
    (h' : Exact inner bound' (past ++ (stretch ++ rest))) (hpast : passes signal past = none)
    (hend : passes signal (past ++ stretch) = none) (hpast' : passes inner past = none)
    (hend' : passes inner (past ++ stretch) = none)
    (honce : stretch.countP (signal · = .done) = 1)
    (hinner : stretch.countP (inner · = .done) = stretch.countP (signal · = .again)) :
    (stretch.countP (inner · = .again) : ℤ) = bound * bound' := by
  rw [h'.count_again hpast' hend', hinner, h.count_again hpast hend, honce]
  ring

end Passes

import Mathlib.Algebra.Order.Ring.Rat
import AgentStudio.Library.Dict
import AgentStudio.Library.Text

/-!
# The circuit breaker of the LLM gateway

`ModelCircuitBreaker` counts, for every model, the failures recorded since its last success,
and keeps the time of the last one once the count has reached `threshold`. `isOpen` is the
question the gateway asks before it selects a model; asking it closes a circuit that has rested
for `resetTime`.

Next to the two dictionaries of the source the breaker carries the `history` of what was
recorded, newest first. `consecutiveFailures` and `lastFailure` are read off the history alone,
and `Open` says in these words that a circuit has tripped and has not rested yet. A breaker is
`Kept` when its dictionaries say what its history says; every operation keeps it so, and for a
kept breaker `tripped`, the answer of `isOpen`, is `Open` (`tripped_iff_open`).
-/

namespace AgentStudio.Gateway

open PyText PyDict

/-- `CIRCUIT_THRESHOLD`. -/
def circuitThreshold : ℕ := 3

/-- `CIRCUIT_RESET_TIME`, in seconds. -/
def circuitResetTime : ℚ := 30

inductive Record
  | success (model : Str)
  | failure (model : Str) (time : ℚ)
  | reset (model : Str)
deriving DecidableEq

/-- The failures of a model since it last succeeded or its circuit was reset. -/
def consecutiveFailures (model : Str) : List Record → ℕ
  | [] => 0
  | .success m :: h => if m = model then 0 else consecutiveFailures model h
  | .failure m _ :: h =>
    if m = model then consecutiveFailures model h + 1 else consecutiveFailures model h
  | .reset m :: h => if m = model then 0 else consecutiveFailures model h

def lastFailure (model : Str) : List Record → Option ℚ
  | [] => none
  | .success m :: h => if m = model then none else lastFailure model h
  | .failure m time :: h => if m = model then some time else lastFailure model h
  | .reset m :: h => if m = model then none else lastFailure model h

/-- `_ModelCircuitBreaker`, with the history of what it recorded. -/
structure ModelCircuitBreaker where
  threshold : ℕ := circuitThreshold
  resetTime : ℚ := circuitResetTime
  failures : List (Str × ℕ) := []
  tripTimes : List (Str × ℚ) := []
  history : List Record := []
deriving DecidableEq

namespace ModelCircuitBreaker

/-- `record_success`. -/
def recordSuccess (model : Str) (cb : ModelCircuitBreaker) : ModelCircuitBreaker :=
  { cb with
    failures := pop model cb.failures
    tripTimes := pop model cb.tripTimes
    history := .success model :: cb.history }

/-- `record_failure`. -/
def recordFailure (model : Str) (now : ℚ) (cb : ModelCircuitBreaker) : ModelCircuitBreaker :=
  let count := (cb.failures.lookup model).getD 0 + 1
  { cb with
    failures := setItem model count cb.failures
    tripTimes := if cb.threshold ≤ count then setItem model now cb.tripTimes else cb.tripTimes
    history := .failure model now :: cb.history }

/-- What `is_open` answers. -/
def tripped (cb : ModelCircuitBreaker) (model : Str) (now : ℚ) : Bool :=
  match cb.tripTimes.lookup model with
  | none => false
  | some time => !decide (cb.resetTime ≤ now - time)

/-- `is_open`: the answer and the breaker, where a circuit that has rested is closed. -/
def isOpen (model : Str) (now : ℚ) (cb : ModelCircuitBreaker) : Bool × ModelCircuitBreaker :=
  match cb.tripTimes.lookup model with
  | none => (false, cb)
  | some time =>
    if cb.resetTime ≤ now - time then
      (false, { cb with
        failures := pop model cb.failures
        tripTimes := pop model cb.tripTimes
        history := .reset model :: cb.history })
    else (true, cb)

/-- **The circuit of a model is open** by what was recorded: at least `threshold` consecutive
failures, the last of them less than `resetTime` ago. -/
def Open (cb : ModelCircuitBreaker) (model : Str) (now : ℚ) : Prop :=
  cb.threshold ≤ consecutiveFailures model cb.history ∧
    ∃ time, lastFailure model cb.history = some time ∧ now - time < cb.resetTime

/-- The dictionaries of a breaker say what its history says. -/
structure Kept (cb : ModelCircuitBreaker) : Prop where
  failures : ∀ model, (cb.failures.lookup model).getD 0 = consecutiveFailures model cb.history
  tripTimes : ∀ model, cb.tripTimes.lookup model =
    if cb.threshold ≤ consecutiveFailures model cb.history then
      lastFailure model cb.history else none

variable {cb cb₁ cb₂ : ModelCircuitBreaker} {model m : Str} {now : ℚ}

theorem tripped_iff_open (h : cb.Kept) : cb.tripped model now = true ↔ cb.Open model now := by
  rw [tripped, h.tripTimes, Open]
  split_ifs with hcount
  · cases lastFailure model cb.history with
    | none => simp
    | some time => simp [hcount]
  · simp [hcount]

/-! ### What the operations keep -/

theorem kept_new : ({} : ModelCircuitBreaker).Kept :=
  ⟨fun _ => rfl, fun _ => (if_neg (by decide : ¬ 3 ≤ 0)).symm⟩

theorem kept_recordSuccess (h : cb.Kept) : (cb.recordSuccess model).Kept := by
  refine ⟨fun m => ?_, fun m => ?_⟩
  · rw [recordSuccess, lookup_pop, consecutiveFailures]
    by_cases hm : m = model
    · rw [if_pos hm, if_pos hm.symm]
      rfl
    · rw [if_neg hm, if_neg (Ne.symm hm), h.failures]
  · rw [recordSuccess, lookup_pop, consecutiveFailures, lastFailure]
    by_cases hm : m = model
    · rw [if_pos hm, if_pos hm.symm, if_pos hm.symm, ite_self]
    · rw [if_neg hm, if_neg (Ne.symm hm), if_neg (Ne.symm hm), h.tripTimes]

theorem kept_recordFailure (h : cb.Kept) : (cb.recordFailure model now).Kept := by
  refine ⟨fun m => ?_, fun m => ?_⟩
  · rw [recordFailure, lookup_setItem, consecutiveFailures]
    by_cases hm : m = model
    · rw [if_pos hm, if_pos hm.symm, hm, h.failures, Option.getD_some]
    · rw [if_neg hm, if_neg (Ne.symm hm), h.failures]
  · rw [recordFailure, consecutiveFailures, lastFailure]
    by_cases hm : m = model
    · rw [if_pos hm.symm, if_pos hm.symm, hm, h.failures]
      dsimp only
      split_ifs with hcount
      · rw [lookup_setItem, if_pos rfl]
      · -- a count below the threshold was below it before
        rw [h.tripTimes, if_neg (by omega)]
    · rw [if_neg (Ne.symm hm), if_neg (Ne.symm hm), ← h.tripTimes]
      dsimp only
      split_ifs
      · rw [lookup_setItem, if_neg hm]
      · rfl

/-! ### Asking -/

@[simp] theorem isOpen_fst : (cb.isOpen model now).1 = cb.tripped model now := by
  rw [isOpen, tripped]
  cases cb.tripTimes.lookup model with
  | none => rfl
  | some time =>
    dsimp only
    split_ifs with h <;> simp [h]

/-- **What asking leaves**: one breaker comes from another by closing circuits that have rested
at a time. The answers at this time stay what they were. -/
structure Rested (now : ℚ) (cb cb' : ModelCircuitBreaker) : Prop where
  tripped : ∀ model, cb'.tripped model now = cb.tripped model now
  kept : cb.Kept → cb'.Kept

theorem Rested.refl (cb : ModelCircuitBreaker) : Rested now cb cb := ⟨fun _ => rfl, id⟩

theorem Rested.trans (h₁ : Rested now cb cb₁) (h₂ : Rested now cb₁ cb₂) : Rested now cb cb₂ :=
  ⟨fun m => (h₂.tripped m).trans (h₁.tripped m), fun h => h₂.kept (h₁.kept h)⟩

theorem kept_reset (h : cb.Kept) : ({ cb with
    failures := pop model cb.failures
    tripTimes := pop model cb.tripTimes
    history := .reset model :: cb.history } : ModelCircuitBreaker).Kept := by
  -- to the two dictionaries a reset is a success
  have hs := @kept_recordSuccess cb model h
  exact ⟨hs.failures, hs.tripTimes⟩

theorem rested_isOpen : Rested now cb (cb.isOpen model now).2 := by
  rw [isOpen]
  cases htime : cb.tripTimes.lookup model with
  | none => exact Rested.refl cb
  | some time =>
    dsimp only
    split_ifs with h
    · refine ⟨fun m => ?_, fun hkept => kept_reset hkept⟩
      rw [tripped, tripped, lookup_pop]
      by_cases hm : m = model
      · simp [hm, htime, h]
      · rw [if_neg hm]
    · exact Rested.refl cb

end ModelCircuitBreaker

end AgentStudio.Gateway

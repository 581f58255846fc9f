import Mathlib.Logic.Basic

/-!
# Runs of a machine

A machine takes inputs one after the other: `step i s` is the output and the next state.
`run` collects the outputs of a list of inputs, and `Along ok` says that a condition holds of
every input at the state in which it is taken.

`run_invariant` and `run_simulation` are the two rules of induction: what one step preserves,
a run preserves (`run_outputs_invariant` is the form for an invariant of the outputs as well,
`run_invariant_iff`, `run_throughout_iff` and `run_throughout_iff_final` are the forms for a
condition that is also necessary, `along_iff` compares two conditions on the steps, `run_reaches`
is the rule for what a run comes to, and `holdsUntil_of_invariant` the one for what lasts until a
step ends it), and two machines that answer alike and stay related step by step answer alike and end
related.
-/

namespace Machine

variable {ι σ τ ο : Type}

/-- The outputs of a run and its last state. -/
def run (step : ι → σ → ο × σ) : List ι → σ → List ο × σ
  | [], s => ([], s)
  | i :: is, s =>
    let (o, s) := step i s
    let (os, s) := run step is s
    (o :: os, s)

/-- The condition holds of every input of a run, in the state in which it is taken. -/
def Along (step : ι → σ → ο × σ) (ok : ι → σ → Prop) : List ι → σ → Prop
  | [], _ => True
  | i :: is, s => ok i s ∧ Along step ok is (step i s).2

instance (step : ι → σ → ο × σ) (ok : ι → σ → Prop) [∀ i s, Decidable (ok i s)] :
    ∀ (is : List ι) (s : σ), Decidable (Along step ok is s)
  | [], _ => isTrue trivial
  | _ :: is, _ => @instDecidableAnd _ _ inferInstance (instDecidableAlong step ok is _)

variable {step : ι → σ → ο × σ} {ok : ι → σ → Prop} {step' : ι → τ → ο × τ}

variable {I J : σ → Prop} {s : σ} {is : List ι}

/-- What a step preserves, a run preserves. -/
theorem run_invariant (hstep : ∀ i s, I s → ok i s → I (step i s).2) (is : List ι) (hs : I s)
    (hok : Along step ok is s) : I (run step is s).2 := by
  induction is generalizing s with
  | nil => exact hs
  | cons i is ih => exact ih (hstep i s hs hok.1) hok.2

/-- What a step preserves of the outputs so far and the state, a run preserves. -/
theorem run_outputs_invariant {I : List ο → σ → Prop}
    (hstep : ∀ i s os, I os s → ok i s → I (os ++ [(step i s).1]) (step i s).2) (is : List ι)
    {os : List ο} (hs : I os s) (hok : Along step ok is s) :
    I (os ++ (run step is s).1) (run step is s).2 := by
  induction is generalizing s os with
  | nil => rwa [run, List.append_nil]
  | cons i is ih =>
    have hnext := ih (hstep i s os hs hok.1) hok.2
    rwa [List.append_assoc] at hnext

/-- What a preserved invariant implies of a step holds of every step of a run. -/
theorem along_of_invariant {P : ι → σ → Prop} (hstep : ∀ i s, I s → ok i s → I (step i s).2 ∧ P i s)
    (is : List ι) (hs : I s) (hok : Along step ok is s) : Along step P is s := by
  induction is generalizing s with
  | nil => trivial
  | cons i is ih =>
    obtain ⟨hnext, hP⟩ := hstep i s hs hok.1
    exact ⟨hP, ih hnext hok.2⟩

/-- What every step preserves, every run preserves. -/
theorem run_invariant_always (hstep : ∀ i s, I s → I (step i s).2) (is : List ι) (hs : I s) :
    I (run step is s).2 := by
  induction is generalizing s with
  | nil => exact hs
  | cons i is ih => exact ih (hstep i s hs)

/-- Where a step keeps an invariant exactly under a condition, so does a run. -/
theorem run_invariant_iff (hstep : ∀ i s, I (step i s).2 ↔ I s ∧ ok i s) (is : List ι) (s : σ) :
    I (run step is s).2 ↔ I s ∧ Along step ok is s := by
  induction is generalizing s with
  | nil => exact (and_iff_left trivial).symm
  | cons i is ih =>
    calc I (run step is (step i s).2).2
        ↔ I (step i s).2 ∧ Along step ok is (step i s).2 := ih _
      _ ↔ (I s ∧ ok i s) ∧ Along step ok is (step i s).2 := and_congr_left fun _ => hstep i s
      _ ↔ I s ∧ Along step ok (i :: is) s := and_assoc

/-- A condition on the inputs alone. -/
theorem along_of_forall {good : ι → Prop} (h : ∀ i ∈ is, good i) :
    Along step (fun i _ => good i) is s := by
  induction is generalizing s with
  | nil => trivial
  | cons i is ih =>
    exact ⟨h i List.mem_cons_self, ih fun j hj => h j (List.mem_cons_of_mem i hj)⟩

/-- Where a step keeps a condition exactly if its input is `ok`, the condition holds throughout a
run exactly if every input is; `fresh` is what is assumed of the inputs. -/
theorem run_throughout_iff_along {fresh : ι → σ → Prop}
    (hJ : ∀ i s, J s → fresh i s → J (step i s).2)
    (hstep : ∀ i s, J s → fresh i s → I s → (I (step i s).2 ↔ ok i s)) (is : List ι) (hs : J s)
    (hfresh : Along step fresh is s) :
    (∀ n, I (run step (is.take n) s).2) ↔ I s ∧ Along step ok is s := by
  induction is generalizing s with
  | nil => simp [run, Along]
  | cons i is ih =>
    have hsplit : (∀ n, I (run step ((i :: is).take n) s).2) ↔
        I s ∧ ∀ n, I (run step (is.take n) (step i s).2).2 :=
      ⟨fun h => ⟨h 0, fun n => h (n + 1)⟩, fun h n => by
        cases n with
        | zero => exact h.1
        | succ n => exact h.2 n⟩
    rw [hsplit, ih (hJ i s hs hfresh.1) hfresh.2]
    exact and_congr_right fun hI => and_congr_left fun _ => hstep i s hs hfresh.1 hI

/-- `run_throughout_iff_along` where nothing is assumed of the inputs. -/
theorem run_throughout_iff (hJ : ∀ i s, J s → J (step i s).2)
    (hstep : ∀ i s, J s → I s → (I (step i s).2 ↔ ok i s)) (is : List ι) (hs : J s) :
    (∀ n, I (run step (is.take n) s).2) ↔ I s ∧ Along step ok is s :=
  run_throughout_iff_along (fun i s h _ => hJ i s h) (fun i s h _ => hstep i s h) is hs
    (along_of_forall fun _ _ => trivial)

/-- Where a step keeps a property exactly if its input is good and a condition holds after it, and
the condition is not regained once it is lost, the property holds throughout a run exactly if all
its inputs are good and the condition holds at its end. -/
theorem run_throughout_iff_final {C : σ → Prop} (hJ : ∀ i s, J s → J (step i s).2)
    (hC : ∀ i s, J s → C (step i s).2 → C s)
    (hstep : ∀ i s, J s → I s → C s → (I (step i s).2 ↔ ok i s ∧ C (step i s).2)) (is : List ι)
    (hs : J s) (hI : I s) (hCs : C s) :
    (∀ n, I (run step (is.take n) s).2) ↔ Along step ok is s ∧ C (run step is s).2 := by
  have hback : ∀ (is : List ι) (s : σ), J s → C (run step is s).2 → C s := by
    intro is
    induction is with
    | nil => exact fun _ _ h => h
    | cons i is ih => exact fun s hs h => hC i s hs (ih _ (hJ i s hs) h)
  induction is generalizing s with
  | nil => exact iff_of_true (fun _ => by simpa [run] using hI) ⟨trivial, hCs⟩
  | cons i is ih =>
    constructor
    · intro h
      have hnext : I (step i s).2 := h 1
      obtain ⟨hok, hCnext⟩ := (hstep i s hs hI hCs).mp hnext
      obtain ⟨hrest, hfinal⟩ := (ih (hJ i s hs) hnext hCnext).mp fun n => h (n + 1)
      exact ⟨⟨hok, hrest⟩, hfinal⟩
    · rintro ⟨⟨hok, hrest⟩, hfinal⟩ n
      have hCnext := hback is _ (hJ i s hs) hfinal
      have hnext := (hstep i s hs hI hCs).mpr ⟨hok, hCnext⟩
      cases n with
      | zero => exact hI
      | succ n => exact (ih (hJ i s hs) hnext hCnext).mpr ⟨hrest, hfinal⟩ n

/-- What is kept once it is reached is reached after enough inputs of a kind, where these make a
rank smaller and no input makes it larger. -/
theorem run_reaches {E : σ → Prop} (rank : σ → Nat) {mine : ι → Bool}
    (hI : ∀ i s, I s → ok i s → I (step i s).2) (hE : ∀ i s, I s → ok i s → E s → E (step i s).2)
    (hle : ∀ i s, I s → ok i s → E (step i s).2 ∨ rank (step i s).2 ≤ rank s)
    (hlt : ∀ i s, I s → ok i s → mine i = true → E (step i s).2 ∨ rank (step i s).2 < rank s)
    (is : List ι) (hs : I s) (hok : Along step ok is s) (hrank : E s ∨ rank s < is.countP mine) :
    E (run step is s).2 := by
  induction is generalizing s with
  | nil =>
    rcases hrank with h | h
    · exact h
    · exact absurd h (Nat.not_lt_zero _)
  | cons i is ih =>
    refine ih (hI i s hs hok.1) hok.2 ?_
    rcases hrank with h | h
    · exact Or.inl (hE i s hs hok.1 h)
    · rw [List.countP_cons] at h
      by_cases hi : mine i = true
      · rw [if_pos hi] at h
        exact (hlt i s hs hok.1 hi).imp_right fun hr => by omega
      · rw [if_neg hi] at h
        exact (hle i s hs hok.1).imp_right fun hr => by omega

/-- Conditions that agree where an invariant holds hold along the same runs. -/
theorem along_congr {ok' : ι → σ → Prop} (hJ : ∀ i s, J s → J (step i s).2)
    (hok : ∀ i s, J s → (ok i s ↔ ok' i s)) (is : List ι) (hs : J s) :
    Along step ok is s ↔ Along step ok' is s := by
  induction is generalizing s with
  | nil => exact Iff.rfl
  | cons i is ih => exact and_congr (hok i s hs) (ih (hJ i s hs))

/-- Conditions that agree where an invariant holds that the second keeps hold along the same
runs. -/
theorem along_iff {P : ι → σ → Prop} (hJ : ∀ i s, J s → ok i s → J (step i s).2)
    (hP : ∀ i s, J s → (P i s ↔ ok i s)) (is : List ι) (hs : J s) :
    Along step P is s ↔ Along step ok is s := by
  induction is generalizing s with
  | nil => exact Iff.rfl
  | cons i is ih =>
    constructor
    · rintro ⟨hi, hrest⟩
      have hok := (hP i s hs).mp hi
      exact ⟨hok, (ih (hJ i s hs hok)).mp hrest⟩
    · rintro ⟨hok, hrest⟩
      exact ⟨(hP i s hs).mpr hok, (ih (hJ i s hs hok)).mpr hrest⟩

/-- A property holds throughout a run if it holds at first and after every step. -/
theorem throughout_iff_along (is : List ι) (s : σ) :
    (∀ n, I (run step (is.take n) s).2) ↔ I s ∧ Along step (fun i s => I (step i s).2) is s :=
  run_throughout_iff (fun _ _ _ => trivial) (fun _ _ _ _ => Iff.rfl) is (J := fun _ => True) trivial

/-- The condition holds in every state of a run, until the run comes to a state that ends it. -/
def HoldsUntil (step : ι → σ → ο × σ) (P ends : σ → Prop) : List ι → σ → Prop
  | [], s => P s
  | i :: is, s => P s ∧ (ends (step i s).2 ∨ HoldsUntil step P ends is (step i s).2)

/-- What every step keeps or ends, and what follows from it, holds until it is ended. -/
theorem holdsUntil_of_invariant {W P ends : σ → Prop} (hI : ∀ i s, I s → ok i s → I (step i s).2)
    (hW : ∀ i s, I s → ok i s → W s → ends (step i s).2 ∨ W (step i s).2)
    (hP : ∀ s, I s → W s → P s) (is : List ι) (hs : I s) (hok : Along step ok is s) (hw : W s) :
    HoldsUntil step P ends is s := by
  induction is generalizing s with
  | nil => exact hP s hs hw
  | cons i is ih =>
    refine ⟨hP s hs hw, (hW i s hs hok.1 hw).imp_right fun hnext => ?_⟩
    exact ih (hI i s hs hok.1) hok.2 hnext

/-- Two conditions hold along a run if each of them does. -/
theorem along_and {ok' : ι → σ → Prop} :
    Along step (fun i s => ok i s ∧ ok' i s) is s ↔ Along step ok is s ∧ Along step ok' is s := by
  induction is generalizing s with
  | nil => exact (and_iff_left trivial).symm
  | cons i is ih => exact (and_congr_right fun _ => ih).trans and_and_and_comm

/-- The state after one list of inputs and another. -/
theorem run_append (is js : List ι) (s : σ) :
    (run step (is ++ js) s).2 = (run step js (run step is s).2).2 := by
  induction is generalizing s with
  | nil => rfl
  | cons i is ih => exact ih _

/-- A condition holds along two lists of inputs if it holds along each. -/
theorem along_append {js : List ι} :
    Along step ok (is ++ js) s ↔ Along step ok is s ∧ Along step ok js (run step is s).2 := by
  induction is generalizing s with
  | nil => exact (and_iff_right trivial).symm
  | cons i is ih => exact (and_congr_right fun _ => ih).trans and_assoc.symm

/-- A condition holds along a run if it holds of every input after the inputs before it. -/
theorem along_iff_forall_split :
    Along step ok is s ↔
      ∀ before i after, is = before ++ i :: after → ok i (run step before s).2 := by
  constructor
  · rintro h before i after rfl
    exact (along_append.mp h).2.1
  · intro h
    induction is generalizing s with
    | nil => trivial
    | cons i is ih =>
      refine ⟨h [] i is rfl, ih fun before j after his => ?_⟩
      exact h (i :: before) j after (congrArg (i :: ·) his)

/-- Machines that answer alike and stay related at every step do so along every run. -/
theorem run_simulation {R : σ → τ → Prop}
    (hstep : ∀ i s t, R s t → ok i s → (step i s).1 = (step' i t).1 ∧
      R (step i s).2 (step' i t).2) (is : List ι) {t : τ} (hst : R s t) (hok : Along step ok is s) :
    (run step is s).1 = (run step' is t).1 ∧ R (run step is s).2 (run step' is t).2 := by
  induction is generalizing s t with
  | nil => exact ⟨rfl, hst⟩
  | cons i is ih =>
    obtain ⟨ho, hst'⟩ := hstep i s t hst hok.1
    obtain ⟨hos, hst''⟩ := ih hst' hok.2
    exact ⟨by simp only [run, ho, hos], hst''⟩

end Machine

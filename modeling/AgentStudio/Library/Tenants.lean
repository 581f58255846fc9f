import AgentStudio.Library.Machine
import Mathlib.Data.List.Basic

/-!
# Machines that tenants share

Each input to a machine comes from a tenant, and `view b s` is what a state has of the tenant `b`. A
run is `Isolated` if no input changes the view of another tenant, and each tenant gets the answers
that it would get alone, from its own view. `isolated_iff` reduces this to one step: an input that
is `ok` leaves the other views alone and acts on the view of its tenant as it acts on the state.
-/

namespace Machine

variable {ι σ ο κ : Type} [DecidableEq κ] (step : ι → σ → ο × σ) (tenant : ι → κ)
  (view : κ → σ → σ)

/-- The answers that a tenant gets in a run. -/
def answersOf (b : κ) : List ι → σ → List ο
  | [], _ => []
  | i :: is, s =>
    if tenant i = b then (step i s).1 :: answersOf b is (step i s).2
    else answersOf b is (step i s).2

/-- The input leaves the views of the other tenants as they are. -/
def Frames (i : ι) (s : σ) : Prop := ∀ a, a ≠ tenant i → view a (step i s).2 = view a s

/-- No input of the run changes the view of another tenant, and the answers to each tenant are those
of the run of its own inputs from its own view. -/
structure Isolated (is : List ι) (s : σ) : Prop where
  frame : Along step (Frames step tenant view) is s
  answers : ∀ b, answersOf step tenant b is s =
    (run step (is.filter fun i => decide (tenant i = b)) (view b s)).1

variable {step tenant view}

/-- A run is isolated exactly if its inputs are `ok`, where an input that is `ok` leaves the other
views alone and acts on the view of its tenant as on the state, and one that is not changes another
view or gives its tenant another answer. -/
theorem isolated_iff {J : σ → Prop} {ok : ι → σ → Prop}
    (hJ : ∀ i s, J s → ok i s → J (step i s).2)
    (hframe : ∀ i s, J s → ok i s → Frames step tenant view i s)
    (hview : ∀ i s, J s → ok i s →
      step i (view (tenant i) s) = ((step i s).1, view (tenant i) (step i s).2))
    (hok : ∀ i s, J s → Frames step tenant view i s →
      (step i s).1 = (step i (view (tenant i) s)).1 → ok i s)
    (is : List ι) {s : σ} (hs : J s) : Isolated step tenant view is s ↔ Along step ok is s := by
  induction is generalizing s with
  | nil => exact iff_of_true ⟨trivial, fun _ => rfl⟩ trivial
  | cons i is ih =>
    have hmine : ((i :: is).filter fun j => decide (tenant j = tenant i)) =
        i :: is.filter fun j => decide (tenant j = tenant i) :=
      List.filter_cons_of_pos (decide_eq_true rfl)
    -- the answers to a tenant split at the first input
    have hsplit : ok i s → ∀ b, (answersOf step tenant b (i :: is) s =
        (run step ((i :: is).filter fun i => decide (tenant i = b)) (view b s)).1 ↔
        answersOf step tenant b is (step i s).2 =
          (run step (is.filter fun i => decide (tenant i = b)) (view b (step i s).2)).1) := by
      intro h b
      by_cases hb : tenant i = b
      · subst hb
        rw [answersOf, if_pos rfl, hmine, run, hview i s hs h, List.cons_inj_right]
      · rw [answersOf, if_neg hb, List.filter_cons_of_neg (by simpa using hb),
          hframe i s hs h b (Ne.symm hb)]
    constructor
    · intro h
      have hanswer : (step i s).1 = (step i (view (tenant i) s)).1 := by
        have hanswers := h.answers (tenant i)
        rw [answersOf, if_pos rfl, hmine, run] at hanswers
        exact (List.cons.inj hanswers).1
      have hi := hok i s hs h.frame.1 hanswer
      exact ⟨hi, (ih (hJ i s hs hi)).mp ⟨h.frame.2, fun b => (hsplit hi b).mp (h.answers b)⟩⟩
    · rintro ⟨hi, hrest⟩
      have htail := (ih (hJ i s hs hi)).mpr hrest
      exact ⟨⟨hframe i s hs hi, htail.frame⟩, fun b => (hsplit hi b).mpr (htail.answers b)⟩

end Machine

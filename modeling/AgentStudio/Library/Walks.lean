import Mathlib.Logic.Relation

/-!
# Walks of a partial transition function

`step s i` is the state after `s` on the input `i`, if there is one. `walk` lists the states
that a run visits, one for each input that it takes, and `Hops` relates the states that a run
can visit. A walk is put together from its parts by `walk_append`.

`walk_eq_takeWhile_iff` compares two functions: the walks of one are those of the other, cut
before the first state that is not kept, if and only if the functions agree up to the cut
in all states that the first one visits. `ok` restricts the inputs.
-/

namespace Walks

variable {σ ι : Type} {step step' : σ → ι → Option σ} {ok : ι → Prop}

/-- The states that a run visits on a list of inputs. -/
def walk (step : σ → ι → Option σ) : List ι → σ → List σ
  | [], _ => []
  | i :: is, s =>
    s :: match step s i with
      | none => []
      | some s' => walk step is s'

/-- The states that a run can visit. -/
def Hops (step : σ → ι → Option σ) (ok : ι → Prop) : σ → σ → Prop :=
  Relation.ReflTransGen fun s s' => ∃ i, ok i ∧ step s i = some s'

variable {is js : List ι} {s : σ} {fit : σ → ι → Prop}

theorem hops_of_mem_walk (hok : ∀ i ∈ is, ok i) {t : σ} (h : t ∈ walk step is s) :
    Hops step ok s t := by
  induction is generalizing s with
  | nil => exact absurd h List.not_mem_nil
  | cons i is ih =>
    rcases List.mem_cons.mp h with rfl | h
    · exact .refl
    · cases hs : step s i with
      | none => simp [hs] at h
      | some s' =>
        rw [hs] at h
        have hrest := ih (fun j hj => hok j (List.mem_cons_of_mem _ hj)) h
        exact .head ⟨i, hok i List.mem_cons_self, hs⟩ hrest

/-- The state of a run after a list of inputs, if the run takes them all. -/
def after (step : σ → ι → Option σ) : List ι → σ → Option σ
  | [], s => some s
  | i :: is, s => (step s i).bind (after step is)

/-- A walk goes on from the state that the run is in. -/
theorem walk_append {t : σ} (h : after step is s = some t) :
    walk step (is ++ js) s = walk step is s ++ walk step js t := by
  induction is generalizing s with
  | nil => rw [← Option.some.inj h, List.nil_append, walk, List.nil_append]
  | cons i is ih =>
    obtain ⟨s', hs, hrest⟩ := Option.bind_eq_some_iff.mp h
    rw [List.cons_append, walk, walk, hs, List.cons_append]
    exact congrArg (s :: ·) (ih hrest)

/-! ### Conditions along a run -/

/-- The condition holds of every input of a run, in the state in which it is taken. -/
def Along (step : σ → ι → Option σ) (fit : σ → ι → Prop) : List ι → σ → Prop
  | [], _ => True
  | i :: is, s => fit s i ∧ ∀ s', step s i = some s' → Along step fit is s'

/-- A condition along a run, from its first step on. -/
theorem Along.cons {fit : σ → ι → Prop} {i : ι} {is : List ι} {s s' : σ} (hi : fit s i)
    (hs : step s i = some s') (h : Along step fit is s') : Along step fit (i :: is) s := by
  refine ⟨hi, fun t ht => ?_⟩
  rw [hs] at ht
  obtain rfl := Option.some.inj ht
  exact h

/-- A run on one list of inputs and another stops on the way after the first. -/
theorem after_append {t : σ} :
    after step (is ++ js) s = some t ↔
      ∃ u, after step is s = some u ∧ after step js u = some t := by
  induction is generalizing s with
  | nil => simp [after]
  | cons i is ih =>
    simp only [List.cons_append, after, Option.bind_eq_some_iff, ih]
    constructor
    · rintro ⟨v, hv, u, hu, ht⟩
      exact ⟨u, ⟨v, hv, hu⟩, ht⟩
    · rintro ⟨u, ⟨v, hv, hu⟩, ht⟩
      exact ⟨v, hv, u, hu, ht⟩

/-- A condition along a run holds along its last part. -/
theorem Along.right {u : σ} (h : Along step fit (is ++ js) s) (hu : after step is s = some u) :
    Along step fit js u := by
  induction is generalizing s with
  | nil =>
    obtain rfl := Option.some.inj hu
    exact h
  | cons i is ih =>
    obtain ⟨v, hv, hrest⟩ := Option.bind_eq_some_iff.mp hu
    exact ih (h.2 v hv) hrest

/-- A condition along a run holds along its first part. -/
theorem Along.left (h : Along step fit (is ++ js) s) : Along step fit is s := by
  induction is generalizing s with
  | nil => trivial
  | cons i is ih => exact ⟨h.1, fun s' hs' => ih (h.2 s' hs')⟩

/-- What a step on a listed input preserves, a run preserves. -/
theorem after_invariant {I : σ → Prop} {t : σ}
    (hstep : ∀ u v i, i ∈ is → I u → fit u i → step u i = some v → I v) (hs : I s)
    (hfit : Along step fit is s) (ht : after step is s = some t) : I t := by
  induction is generalizing s with
  | nil =>
    obtain rfl := Option.some.inj ht
    exact hs
  | cons i is ih =>
    obtain ⟨v, hv, hrest⟩ := Option.bind_eq_some_iff.mp ht
    have hI : I v := hstep s v i List.mem_cons_self hs hfit.1 hv
    exact ih (fun u w j hj => hstep u w j (List.mem_cons_of_mem _ hj)) hI (hfit.2 v hv) hrest

/-! ### Cutting a walk -/

variable {keep : σ → Bool}

/-- Functions that agree up to the cut make the same walks up to the cut. -/
theorem walk_eq_takeWhile (hkeep : keep s = true)
    (h : ∀ t, Hops step ok s t → ∀ i, ok i → step t i = (step' t i).filter keep)
    (hok : ∀ i ∈ is, ok i) : walk step is s = (walk step' is s).takeWhile keep := by
  induction is generalizing s with
  | nil => rfl
  | cons i is ih =>
    have hi : ok i := hok i List.mem_cons_self
    have his : ∀ j ∈ is, ok j := fun j hj => hok j (List.mem_cons_of_mem _ hj)
    have hs := h s .refl i hi
    rw [walk, walk, List.takeWhile_cons_of_pos hkeep]
    congr 1
    cases hs' : step' s i with
    | none => rw [hs, hs']; rfl
    | some z =>
      by_cases hz : keep z = true
      · have hstep : step s i = some z := by rw [hs, hs', Option.filter_some, if_pos hz]
        rw [hstep]
        exact ih hz (fun t ht => h t (.head ⟨i, hi, hstep⟩ ht)) his
      · have hstep : step s i = none := by rw [hs, hs', Option.filter_some, if_neg hz]
        rw [hstep]
        cases is with
        | nil => rfl
        | cons j is => exact (List.takeWhile_cons_of_neg hz).symm

/-- Walks that agree up to the cut go on alike from every state that is visited. -/
private theorem walk_eq_of_hops {t : σ} (hkeep : keep s = true)
    (h : ∀ is : List ι, (∀ i ∈ is, ok i) → walk step is s = (walk step' is s).takeWhile keep)
    (ht : Hops step ok s t) :
    keep t = true ∧
      ∀ is : List ι, (∀ i ∈ is, ok i) → walk step is t = (walk step' is t).takeWhile keep := by
  induction ht with
  | refl => exact ⟨hkeep, h⟩
  | @tail a b _ hstep ih =>
    obtain ⟨hka, hwalk⟩ := ih
    obtain ⟨i, hi, hab⟩ := hstep
    have hnext : ∀ is : List ι, (∀ j ∈ is, ok j) → walk step is b =
        (match step' a i with
          | none => []
          | some z => walk step' is z).takeWhile keep := fun is his => by
      have heq := hwalk (i :: is) (List.forall_mem_cons.mpr ⟨hi, his⟩)
      rw [walk, walk, List.takeWhile_cons_of_pos hka, hab] at heq
      exact (List.cons.inj heq).2
    have hone := hnext [i] (by simpa using hi)
    cases hz : step' a i with
    | none => simp [hz, walk] at hone
    | some z =>
      simp only [hz] at hone hnext
      by_cases hkz : keep z = true
      · rw [walk, walk, List.takeWhile_cons_of_pos hkz] at hone
        obtain rfl := (List.cons.inj hone).1
        exact ⟨hkz, hnext⟩
      · rw [walk, walk, List.takeWhile_cons_of_neg hkz] at hone
        exact absurd hone (List.cons_ne_nil _ _)

/-- **Comparison.** The walks of `step` are those of `step'`, cut before the first state that
is not kept, if and only if the two agree up to the cut wherever `step` leads. -/
theorem walk_eq_takeWhile_iff (keep : σ → Bool) (hkeep : keep s = true) :
    (∀ is : List ι, (∀ i ∈ is, ok i) → walk step is s = (walk step' is s).takeWhile keep) ↔
      ∀ t, Hops step ok s t → ∀ i, ok i → step t i = (step' t i).filter keep := by
  refine ⟨fun h t ht i hi => ?_, fun h is his => walk_eq_takeWhile hkeep h his⟩
  obtain ⟨hkt, hwalk⟩ := walk_eq_of_hops hkeep h ht
  have htwo := hwalk [i, i] (by simpa using hi)
  rw [walk, walk, List.takeWhile_cons_of_pos hkt] at htwo
  have htail := (List.cons.inj htwo).2
  cases ha : step t i with
  | none =>
    cases hb : step' t i with
    | none => rfl
    | some z =>
      by_cases hkz : keep z = true
      · rw [ha, hb] at htail
        simp only [walk, List.takeWhile_cons_of_pos hkz] at htail
        exact absurd htail.symm (List.cons_ne_nil _ _)
      · rw [Option.filter_some, if_neg hkz]
  | some y =>
    cases hb : step' t i with
    | none => simp [ha, hb, walk] at htail
    | some z =>
      rw [ha, hb] at htail
      by_cases hkz : keep z = true
      · simp only [walk, List.takeWhile_cons_of_pos hkz] at htail
        rw [(List.cons.inj htail).1, Option.filter_some, if_pos hkz]
      · simp only [walk, List.takeWhile_cons_of_neg hkz] at htail
        exact absurd htail (List.cons_ne_nil _ _)

end Walks

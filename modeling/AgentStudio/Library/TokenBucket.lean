import AgentStudio.Library.Machine
import Mathlib.Algebra.Order.Field.Rat
import Mathlib.Tactic.Linarith

/-!
# Token buckets

A bucket holds tokens up to a capacity `c` and gains them at a rate `r`; a call takes a token if
there is one. `level` is what a bucket holds at a time. A machine is `Metered` if each call of a
kind that it accepts is paid with a token of one bucket, and nothing else fills the bucket. Then in
a window of time it accepts no more calls than the capacity and what the rate adds
(`Metered.bounded`).
-/

namespace TokenBucket

open Machine

/-- What a bucket held at a time. -/
structure Bucket where
  tokens : ℚ
  last : ℚ
deriving DecidableEq

variable {r c t u a : ℚ} {b : Option Bucket}

/-- What a bucket holds at a time; one that is not there yet is full. -/
def level (r c : ℚ) (b : Option Bucket) (t : ℚ) : ℚ :=
  b.elim c fun x => min c (x.tokens + (t - x.last) * r)

/-- A bucket that has been used by a time, with no fewer tokens than none and no more than fit. -/
def Sound (c : ℚ) (b : Option Bucket) (t : ℚ) : Prop :=
  ∀ x ∈ b, 0 ≤ x.tokens ∧ x.tokens ≤ c ∧ x.last ≤ t

theorem Sound.mono (h : Sound c b u) (hut : u ≤ t) : Sound c b t := fun x hx =>
  ⟨(h x hx).1, (h x hx).2.1, (h x hx).2.2.trans hut⟩

theorem level_le (r c : ℚ) (b : Option Bucket) (t : ℚ) : level r c b t ≤ c := by
  rcases b with - | x
  · exact le_rfl
  · exact min_le_left _ _

theorem level_nonneg (hr : 0 ≤ r) (hc : 0 ≤ c) (h : Sound c b t) : 0 ≤ level r c b t := by
  rcases b with - | x
  · exact hc
  · obtain ⟨htokens, -, hlast⟩ := h x rfl
    exact le_min hc (add_nonneg htokens (mul_nonneg (sub_nonneg.mpr hlast) hr))

/-- A bucket gains no more than the rate adds. -/
theorem level_le_add (hr : 0 ≤ r) (hut : u ≤ t) : level r c b t ≤ level r c b u + r * (t - u) := by
  have hgain : 0 ≤ r * (t - u) := mul_nonneg hr (sub_nonneg.mpr hut)
  rcases b with - | x
  · exact le_add_of_nonneg_right hgain
  · change min _ _ ≤ min _ _ + _
    rw [← min_add_add_right]
    exact min_le_min (le_add_of_nonneg_right hgain) (by linarith)

/-- A call at a time: whether it finds a token, and the bucket that it leaves. -/
def take (r c t : ℚ) (b : Option Bucket) : Bool × Bucket :=
  if 1 ≤ level r c b t then (true, ⟨level r c b t - 1, t⟩) else (false, ⟨level r c b t, t⟩)

theorem sound_take (hr : 0 ≤ r) (hc : 0 ≤ c) (h : Sound c b t) :
    Sound c (some (take r c t b).2) t := by
  have hlow := level_nonneg hr hc h
  have hhigh := level_le r c b t
  rintro x ⟨⟩
  rw [take]
  split_ifs with hone
  · exact ⟨sub_nonneg.mpr hone, by linarith, le_rfl⟩
  · exact ⟨hlow, hhigh, le_rfl⟩

theorem level_take (r c t : ℚ) (b : Option Bucket) :
    level r c (some (take r c t b).2) t + (if (take r c t b).1 = true then 1 else 0) =
      level r c b t := by
  have hhigh := level_le r c b t
  have hrest (x : ℚ) (hx : x ≤ c) : level r c (some ⟨x, t⟩) t = x := by
    simpa [level] using hx
  rw [take]
  split_ifs with hone hfalse
  · rw [hrest _ (by linarith), sub_add_cancel]
  · simp_all
  · simp_all
  · rw [hrest _ hhigh, add_zero]

/-! ### Machines -/

variable {σ ι : Type} {step : ι → σ → Bool × σ} {time : ι → ℚ} {mine ok : ι → Prop}
  [DecidablePred mine] {bucket : σ → Option Bucket} {J : ℚ → σ → Prop} {is : List ι} {s : σ}

/-- A machine that pays a token for every call of `mine` that it accepts. `J` is what it keeps of
its state at a time, if its inputs are `ok`. -/
structure Metered (r c : ℚ) (step : ι → σ → Bool × σ) (time : ι → ℚ) (mine ok : ι → Prop)
    [DecidablePred mine] (bucket : σ → Option Bucket) (J : ℚ → σ → Prop) : Prop where
  rate_nonneg : 0 ≤ r
  capacity_nonneg : 0 ≤ c
  mono : ∀ {t u s}, J u s → u ≤ t → J t s
  sound : ∀ {t s}, J t s → Sound c (bucket s) t
  keeps : ∀ {i s}, ok i → J (time i) s → J (time i) (step i s).2
  pays : ∀ {i s}, ok i → J (time i) s →
    level r c (bucket (step i s).2) (time i) + (if mine i ∧ (step i s).1 = true then 1 else 0) ≤
      level r c (bucket s) (time i)

/-- The calls of `mine` that a run accepts. -/
def accepted (step : ι → σ → Bool × σ) (mine : ι → Prop) [DecidablePred mine] (is : List ι)
    (s : σ) : ℕ :=
  (is.zip (run step is s).1).countP fun x => decide (mine x.1 ∧ x.2 = true)

/-- The calls of a run are paid with what the bucket holds at its beginning, and the gain. -/
theorem Metered.accepted_le (h : Metered r c step time mine ok bucket J)
    (hsorted : is.Pairwise (time · ≤ time ·)) (hok : ∀ i ∈ is, ok i) (hJ : J t s)
    (hwindow : ∀ i ∈ is, t ≤ time i ∧ time i ≤ a) (hta : t ≤ a) :
    (accepted step mine is s : ℚ) ≤ level r c (bucket s) t + r * (a - t) := by
  induction is generalizing s t with
  | nil =>
    exact add_nonneg (level_nonneg h.rate_nonneg h.capacity_nonneg (h.sound hJ))
      (mul_nonneg h.rate_nonneg (sub_nonneg.mpr hta))
  | cons i is ih =>
    obtain ⟨hle, hsorted⟩ := List.pairwise_cons.mp hsorted
    obtain ⟨hi, hok⟩ := List.forall_mem_cons.mp hok
    obtain ⟨⟨hti, hia⟩, hwindow⟩ := List.forall_mem_cons.mp hwindow
    have hJi := h.mono hJ hti
    have hrest := ih hsorted hok (h.keeps hi hJi) (fun j hj => ⟨hle j hj, (hwindow j hj).2⟩) hia
    have hpays := h.pays hi hJi
    have hgain := level_le_add (c := c) (b := bucket s) h.rate_nonneg hti
    have hcons : (accepted step mine (i :: is) s : ℚ) = accepted step mine is (step i s).2 +
        if mine i ∧ (step i s).1 = true then 1 else 0 := by
      simp [accepted, run, List.countP_cons]
    linarith

/-- What a run keeps. -/
theorem Metered.run (h : Metered r c step time mine ok bucket J) {window : List ι}
    (hsorted : (is ++ window).Pairwise (time · ≤ time ·)) (hok : ∀ i ∈ is, ok i) (hJ : J t s)
    (ht : ∀ i ∈ is ++ window, t ≤ time i) :
    ∃ u, J u (run step is s).2 ∧ ∀ i ∈ window, u ≤ time i := by
  induction is generalizing s t with
  | nil => exact ⟨t, hJ, ht⟩
  | cons i is ih =>
    obtain ⟨hle, hsorted⟩ := List.pairwise_cons.mp hsorted
    obtain ⟨hi, hok⟩ := List.forall_mem_cons.mp hok
    exact ih hsorted hok (h.keeps hi (h.mono hJ (ht i List.mem_cons_self))) hle

/-- **Any window.** After any run the bucket holds no less than nothing and no more than fit, and
within a time from `a` to `b` no more calls are accepted than fit, and as many as the rate adds. -/
theorem Metered.bounded (h : Metered r c step time mine ok bucket J) {b : ℚ} (hab : a ≤ b)
    {window : List ι} (hsorted : (is ++ window).Pairwise (time · ≤ time ·))
    (hok : ∀ i ∈ is ++ window, ok i) (hwindow : ∀ i ∈ window, a ≤ time i ∧ time i ≤ b)
    (hJ : ∀ t, J t s) :
    (∀ x ∈ bucket (Machine.run step is s).2, 0 ≤ x.tokens ∧ x.tokens ≤ c) ∧
      (accepted step mine window (Machine.run step is s).2 : ℚ) ≤ c + r * (b - a) := by
  obtain ⟨t, ht⟩ : ∃ t, ∀ i ∈ is ++ window, t ≤ time i := by
    generalize is ++ window = all at hsorted
    rcases all with - | ⟨i, all⟩
    · exact ⟨0, by simp⟩
    · exact ⟨time i, List.forall_mem_cons.mpr ⟨le_rfl, (List.pairwise_cons.mp hsorted).1⟩⟩
  obtain ⟨u, hu, hlater⟩ := h.run hsorted (fun i hi => hok i (List.mem_append_left _ hi)) (hJ t) ht
  refine ⟨fun x hx => ⟨(h.sound hu x hx).1, (h.sound hu x hx).2.1⟩, ?_⟩
  rcases window with - | ⟨i, window⟩
  · exact add_nonneg h.capacity_nonneg (mul_nonneg h.rate_nonneg (sub_nonneg.mpr hab))
  · have hsorted' := (List.pairwise_append.mp hsorted).2.1
    obtain ⟨hai, hib⟩ := hwindow i List.mem_cons_self
    have hpaid := h.accepted_le hsorted' (fun j hj => hok j (List.mem_append_right _ hj))
      (h.mono hu (hlater i List.mem_cons_self)) (fun j hj => ⟨?_, (hwindow j hj).2⟩) hib
    · have hfull := level_le r c (bucket (Machine.run step is s).2) (time i)
      have hgain : r * (b - time i) ≤ r * (b - a) :=
        mul_le_mul_of_nonneg_left (by linarith) h.rate_nonneg
      linarith
    · obtain rfl | hj := List.mem_cons.mp hj
      · exact le_rfl
      · exact (List.pairwise_cons.mp hsorted').1 j hj

end TokenBucket

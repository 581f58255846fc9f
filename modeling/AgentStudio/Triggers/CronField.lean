import AgentStudio.Library.Text
import Mathlib.Data.List.TakeWhile

/-!
# Fields of a cron expression

`matchesField` is `CronManager._matches_field` of `agent_runtime/triggers.py`: it splits a
field at commas and tests the parts from left to right, and a part that does not parse ends
the test with `False`.

Beside it stands the grammar of a field (`CronPart`, `CronField`): a part is `*`, a number, a
range `a-b`, or a step `*/s`, `a-b/s`, `a/s`, and a field is a comma list of parts within the
bounds of the field. `matchesPart_render` computes what the code makes of every form of part:
a range with a step and a `*` in a list raise, every other form is read as the grammar reads
it. `CronField.matchesField_render` says which values the code accepts (`CronField.reads`), and
`CronField.holds_of_reads` that these are values of the field.
-/

namespace AgentStudio.Triggers

open PyText

/-! ### The field test of the code -/

/-- The test of one part: `some true` makes the field match, `some false` goes on to the next
part, `none` is a `ValueError` or a `ZeroDivisionError`. -/
def matchesPart (part : Str) (value minVal : ℤ) : Option Bool :=
  if '/' ∈ part then do
    let step ← parseInt (splitOnce '/' part).2
    let start ← if (splitOnce '/' part).1 = ['*'] then some minVal
      else parseInt (splitOnce '/' part).1
    if value < start then some false
    else if step = 0 then none else some (Int.fmod (value - start) step == 0)
  else if '-' ∈ part then do
    -- a chained comparison: the upper bound is read only if the lower one holds
    let low ← parseInt (splitOnce '-' part).1
    if low ≤ value then do
      let high ← parseInt (splitOnce '-' part).2
      some (decide (value ≤ high))
    else some false
  else (parseInt part).map fun n => n == value

def matchesParts (value minVal : ℤ) : List Str → Bool
  | [] => false
  | part :: parts =>
    match matchesPart part value minVal with
    | none => false
    | some true => true
    | some false => matchesParts value minVal parts

/-- `_matches_field(spec, value, min_val, max_val)`; the source does not read `max_val`. -/
def matchesField (spec : Str) (value minVal _maxVal : ℤ) : Bool :=
  if spec = ['*'] then true else matchesParts value minVal (spec.splitOn ',')

/-! ### The grammar of a field -/

inductive CronPart where
  | any
  | num (a : Numeral)
  | range (a b : Numeral)
  | step (s : Numeral)
  | rangeStep (a b s : Numeral)
  | fromStep (a s : Numeral)
deriving DecidableEq

namespace CronPart

def render : CronPart → Str
  | any => ['*']
  | num a => a.toStr
  | range a b => a.toStr ++ '-' :: b.toStr
  | step s => '*' :: '/' :: s.toStr
  | rangeStep a b s => a.toStr ++ '-' :: (b.toStr ++ '/' :: s.toStr)
  | fromStep a s => a.toStr ++ '/' :: s.toStr

/-- The numbers of a part lie within the bounds of its field, ranges ascend, and steps are
positive. -/
def Valid (lo hi : ℕ) : CronPart → Prop
  | any => True
  | num a => lo ≤ a.value ∧ a.value ≤ hi
  | range a b => lo ≤ a.value ∧ a.value ≤ b.value ∧ b.value ≤ hi
  | step s => 0 < s.value
  | rangeStep a b s => lo ≤ a.value ∧ a.value ≤ b.value ∧ b.value ≤ hi ∧ 0 < s.value
  | fromStep a s => lo ≤ a.value ∧ a.value ≤ hi ∧ 0 < s.value

instance (lo hi : ℕ) : DecidablePred (Valid lo hi)
  | any => inferInstanceAs (Decidable True)
  | num _ => inferInstanceAs (Decidable (_ ∧ _))
  | range _ _ => inferInstanceAs (Decidable (_ ∧ _ ∧ _))
  | step _ => inferInstanceAs (Decidable (_ < _))
  | rangeStep _ _ _ => inferInstanceAs (Decidable (_ ∧ _ ∧ _ ∧ _))
  | fromStep _ _ => inferInstanceAs (Decidable (_ ∧ _ ∧ _))

/-- Whether a part stands for the value `v`, in a field that starts at `lo`. -/
def holds (lo v : ℕ) : CronPart → Bool
  | any => true
  | num a => decide (v = a.value)
  | range a b => decide (a.value ≤ v ∧ v ≤ b.value)
  | step s => decide ((v - lo) % s.value = 0)
  | rangeStep a b s => decide (a.value ≤ v ∧ v ≤ b.value ∧ (v - a.value) % s.value = 0)
  | fromStep a s => decide (a.value ≤ v ∧ (v - a.value) % s.value = 0)

/-- The forms of part that the code reads. -/
def plain : CronPart → Bool
  | any => false
  | rangeStep _ _ _ => false
  | _ => true

end CronPart

/-- A field with values from `lo` to `hi`: a comma list of valid parts. -/
structure CronField (lo hi : ℕ) where
  parts : List CronPart
  ne_nil : parts ≠ []
  valid : ∀ p ∈ parts, p.Valid lo hi
deriving DecidableEq

namespace CronField

variable {lo hi : ℕ}

def render (f : CronField lo hi) : Str := [','].intercalate (f.parts.map CronPart.render)

/-- Whether a field stands for the value `v`. -/
def holds (f : CronField lo hi) (v : ℕ) : Bool := f.parts.any (·.holds lo v)

/-- A field other than `*`. -/
def restricted (f : CronField lo hi) : Bool := f.parts ≠ [.any]

/-- Whether the value `v` is in the field, as far as the code reads it: up to the first part
that is not plain. -/
def reads (f : CronField lo hi) (v : ℕ) : Bool :=
  decide (f.parts = [.any]) || (f.parts.takeWhile CronPart.plain).any (·.holds lo v)

end CronField

/-! ### What the code makes of a part -/

private theorem digitChar_ne_of_not_isDigit {c : Char} (hc : c.isDigit = false) (d : Fin 10) :
    digitChar d ≠ c := fun h => by
  have := digitChar_isDigit d
  rw [h, hc] at this
  exact Bool.noConfusion this

private theorem notMem_toStr {c : Char} (n : Numeral) (hc : c.isDigit = false) : c ∉ n.toStr :=
  Numeral.notMem_toStr (digitChar_ne_of_not_isDigit hc)

private theorem toStr_ne_star (n : Numeral) : n.toStr ≠ ['*'] := fun h =>
  notMem_toStr n (c := '*') (by decide) (h ▸ List.mem_singleton_self _)

private theorem parseInt_star : parseInt ['*'] = none := by decide

private theorem parseDigits_dash (acc : ℕ) (ds : List (Fin 10)) (t : Str) :
    parseDigits acc (ds.map digitChar ++ '-' :: t) = none := by
  induction ds generalizing acc with
  | nil =>
    rw [List.map_nil, List.nil_append, parseDigits]
    · rfl
    · rintro c s h -
      exact absurd h (by decide)
  | cons d ds ih =>
    have hu : digitChar d ≠ '_' := digitChar_ne_of_not_isDigit (by decide) d
    rw [List.map_cons, List.cons_append, parseDigits, if_pos (digitChar_isDigit d), ih]
    rintro c s h -
    exact hu h

private theorem parseInt_range (a b : Numeral) :
    parseInt (a.toStr ++ '-' :: b.toStr) = none := by
  have hsp : strip (a.toStr ++ '-' :: b.toStr) = a.toStr ++ '-' :: b.toStr :=
    strip_eq_self fun c hc => by
      rcases List.mem_append.mp hc with hc | hc
      · obtain ⟨d, rfl⟩ := Numeral.mem_toStr hc
        exact digitChar_isSpace d
      · rcases List.mem_cons.mp hc with rfl | hc
        · decide
        · obtain ⟨d, rfl⟩ := Numeral.mem_toStr hc
          exact digitChar_isSpace d
  obtain ⟨d, ds, hds⟩ := List.exists_cons_of_ne_nil a.ne_nil
  have ha : a.toStr = digitChar d :: ds.map digitChar := by rw [Numeral.toStr, hds, List.map_cons]
  have hnat : parseNat (a.toStr ++ '-' :: b.toStr) = none := by
    rw [ha, List.cons_append, parseNat, if_pos (digitChar_isDigit d), parseDigits_dash]
  rw [parseInt, hsp]
  split
  · next t heq =>
    rw [ha, List.cons_append] at heq
    exact absurd (List.cons.inj heq).1 (digitChar_ne_of_not_isDigit (by decide) d)
  · next t heq =>
    rw [ha, List.cons_append] at heq
    exact absurd (List.cons.inj heq).1 (digitChar_ne_of_not_isDigit (by decide) d)
  · rw [hnat]
    rfl

private theorem fmod_eq_zero_iff {v a s : ℕ} (h : a ≤ v) :
    (Int.fmod ((v : ℤ) - a) s == 0) = decide ((v - a) % s = 0) := by
  rw [Bool.eq_iff_iff, beq_iff_eq, decide_eq_true_iff, ← Nat.cast_sub h,
    Int.fmod_eq_emod_of_nonneg _ (Int.natCast_nonneg s)]
  exact_mod_cast Iff.rfl

/-- What the code makes of a valid part: it raises on `*` and on a range with a step, and
tests the other forms. -/
theorem matchesPart_render {lo hi : ℕ} {p : CronPart} (hp : p.Valid lo hi) {v : ℕ}
    (hv : lo ≤ v) :
    matchesPart p.render v lo = if p.plain then some (p.holds lo v) else none := by
  cases p with
  | any => simp [matchesPart, CronPart.render, CronPart.plain, parseInt_star]
  | num a =>
    have h1 := notMem_toStr a (c := '/') (by decide)
    have h2 := notMem_toStr a (c := '-') (by decide)
    simp only [matchesPart, CronPart.render, CronPart.plain, h1, h2, if_false, if_true,
      parseInt_numeral, CronPart.holds, Option.map_some, Option.some.injEq]
    rw [Bool.eq_iff_iff, beq_iff_eq, decide_eq_true_iff]
    omega
  | range a b =>
    have h1 : '/' ∉ a.toStr ++ '-' :: b.toStr := by
      simp [notMem_toStr a (c := '/') (by decide), notMem_toStr b (c := '/') (by decide)]
    have h2 : '-' ∈ a.toStr ++ '-' :: b.toStr := by simp
    simp only [matchesPart, CronPart.render, CronPart.plain, h1, h2, if_false, if_true,
      splitOnce_append (notMem_toStr a (c := '-') (by decide)), parseInt_numeral,
      CronPart.holds, Option.bind_eq_bind, Option.bind_some]
    split_ifs with hle <;> simp only [Option.some.injEq]
    · rw [Bool.eq_iff_iff, decide_eq_true_iff, decide_eq_true_iff]
      omega
    · rw [eq_comm, decide_eq_false_iff_not]
      omega
  | step s =>
    have h1 : '/' ∈ '*' :: '/' :: s.toStr := by simp
    have hsplit : splitOnce '/' ('*' :: '/' :: s.toStr) = (['*'], s.toStr) :=
      splitOnce_append (s := ['*']) (by decide)
    have hs : (s.value : ℤ) ≠ 0 := by
      have : 0 < s.value := hp
      omega
    have hlt : ¬ (v : ℤ) < lo := by omega
    simp only [matchesPart, CronPart.render, CronPart.plain, h1, if_true, hsplit,
      parseInt_numeral, Option.bind_eq_bind, Option.bind_some, hlt, hs, if_false,
      CronPart.holds, fmod_eq_zero_iff hv]
  | rangeStep a b s =>
    have h1 : '/' ∈ a.toStr ++ '-' :: (b.toStr ++ '/' :: s.toStr) := by simp
    have hsplit : splitOnce '/' (a.toStr ++ '-' :: (b.toStr ++ '/' :: s.toStr))
        = (a.toStr ++ '-' :: b.toStr, s.toStr) := by
      have := splitOnce_append (c := '/') (s := a.toStr ++ '-' :: b.toStr) (t := s.toStr)
        (by simp [notMem_toStr a (c := '/') (by decide), notMem_toStr b (c := '/') (by decide)])
      simpa using this
    have hstar : a.toStr ++ '-' :: b.toStr ≠ ['*'] := fun h => by
      have : '-' ∈ ['*'] := h ▸ (by simp)
      exact absurd this (by decide)
    simp [matchesPart, CronPart.render, CronPart.plain, h1, hsplit, parseInt_numeral, hstar,
      parseInt_range]
  | fromStep a s =>
    have h1 : '/' ∈ a.toStr ++ '/' :: s.toStr := by simp
    have hs : (s.value : ℤ) ≠ 0 := by
      have : 0 < s.value := hp.2.2
      omega
    simp only [matchesPart, CronPart.render, CronPart.plain, h1, if_true,
      splitOnce_append (notMem_toStr a (c := '/') (by decide)), parseInt_numeral,
      toStr_ne_star, if_false, Option.bind_eq_bind, Option.bind_some, hs, CronPart.holds]
    split_ifs with hlt
    · rw [Option.some.injEq, eq_comm, decide_eq_false_iff_not]
      omega
    · have hle : a.value ≤ v := by omega
      simp [fmod_eq_zero_iff hle, hle]

/-! ### What the code makes of a field -/

private theorem comma_notMem_render (p : CronPart) : ',' ∉ p.render := by
  have hn := fun n : Numeral => notMem_toStr n (c := ',') (by decide)
  cases p <;> simp [CronPart.render, hn]

private theorem render_eq_star {p : CronPart} (h : p.render = ['*']) : p = .any := by
  have key : ∀ c : Char, c ≠ '*' → c ∉ p.render := fun c hc hmem => by
    rw [h] at hmem
    exact hc (List.mem_singleton.mp hmem)
  cases p with
  | any => rfl
  | num a => exact absurd h (toStr_ne_star a)
  | range a b => exact absurd (by simp [CronPart.render]) (key '-' (by decide))
  | step | rangeStep | fromStep => exact absurd (by simp [CronPart.render]) (key '/' (by decide))

namespace CronField

variable {lo hi : ℕ} (f : CronField lo hi)

theorem splitOn_render : f.render.splitOn ',' = f.parts.map CronPart.render :=
  List.splitOn_intercalate ',' (by simpa using fun p _ => comma_notMem_render p)
    (by simpa using f.ne_nil)

theorem render_eq_star_iff : f.render = ['*'] ↔ f.restricted = false := by
  rw [restricted, decide_eq_false_iff_not, not_not]
  constructor
  · intro h
    have hsplit := f.splitOn_render
    rw [h] at hsplit
    have hmap : f.parts.map CronPart.render = [['*']] := by rw [← hsplit]; decide
    obtain ⟨p, hp, hpr⟩ := List.map_eq_singleton_iff.mp hmap
    rw [hp, render_eq_star hpr]
  · intro h
    simp [render, h, CronPart.render, List.intercalate]

end CronField

private theorem matchesParts_render {lo hi v : ℕ} (hv : lo ≤ v) {parts : List CronPart}
    (hvalid : ∀ p ∈ parts, p.Valid lo hi) :
    matchesParts v lo (parts.map CronPart.render)
      = (parts.takeWhile CronPart.plain).any (·.holds lo v) := by
  induction parts with
  | nil => rfl
  | cons p parts ih =>
    rw [List.map_cons, matchesParts, matchesPart_render (hvalid p (by simp)) hv,
      List.takeWhile_cons]
    cases hplain : p.plain with
    | false => rfl
    | true =>
      cases hholds : p.holds lo v with
      | true => simp [hholds]
      | false => simpa [hholds] using ih fun q hq => hvalid q (by simp [hq])

namespace CronField

variable {lo hi : ℕ}

/-- **The field test.** The code reads `*`, or the parts before the first one that it cannot
read. -/
theorem matchesField_render (f : CronField lo hi) {v : ℕ} (hv : lo ≤ v) (maxVal : ℤ) :
    matchesField f.render v lo maxVal = f.reads v := by
  unfold matchesField reads
  by_cases hstar : f.parts = [.any]
  · have hrender : f.render = ['*'] := f.render_eq_star_iff.mpr (by simp [restricted, hstar])
    simp [hrender, hstar]
  · have hrender : f.render ≠ ['*'] := fun h => by
      have := f.render_eq_star_iff.mp h
      simp [restricted, hstar] at this
    rw [if_neg hrender, f.splitOn_render, matchesParts_render hv f.valid]
    simp [hstar]

variable {f : CronField lo hi} {v : ℕ}

theorem holds_of_reads (h : f.reads v = true) : f.holds v = true := by
  rw [reads, Bool.or_eq_true, decide_eq_true_iff] at h
  rcases h with h | h
  · simp [holds, h, CronPart.holds]
  · obtain ⟨p, hp, hpv⟩ := List.any_eq_true.mp h
    exact List.any_eq_true.mpr ⟨p, List.takeWhile_subset _ hp, hpv⟩

end CronField

end AgentStudio.Triggers

import Mathlib.Order.Monotone.Basic
import Mathlib.Order.Basic
import Mathlib.Tactic.IntervalCases
import Mathlib.Tactic.Linarith

/-!
# The proleptic Gregorian calendar, to the minute

Dates of the years `1` to `9999` with the ordinal numbering in which `0001-01-01` is day `1`,
and the whole minutes of these days. A `Date` carries the proof that it names a day of the
calendar, so a day that does not exist cannot be built; stepping past `9999-12-31` gives
`none`.

Months are numbered consecutively (`Date.monthIndex`), and `monthStart` is the number of days
before a month. Everything about the order of dates comes from two facts: `monthStart_succ`,
a month is as long as its days, and `Date.toOrdinal_eq`, a date lies in its month. Dates and
minutes are ordered by their position on the time line (`Date.toOrdinal`,
`Minute.toMinutes`), and `Date.lt_iff` reads the order of dates lexicographically.
-/

namespace Calendar

/-! ### Years and months -/

/-- Leap years of the Gregorian calendar. -/
def isLeap (y : ℕ) : Bool := y % 4 == 0 && (y % 100 != 0 || y % 400 == 0)

/-- The number of days of month `m` (counted from `1`) of year `y`. -/
def daysInMonth (y m : ℕ) : ℕ :=
  if m = 2 then (if isLeap y then 29 else 28)
  else if m = 4 ∨ m = 6 ∨ m = 9 ∨ m = 11 then 30 else 31

theorem daysInMonth_le (y m : ℕ) : daysInMonth y m ≤ 31 := by
  unfold daysInMonth
  split_ifs <;> omega

theorem le_daysInMonth (y m : ℕ) : 28 ≤ daysInMonth y m := by
  unfold daysInMonth
  split_ifs <;> omega

/-- The days before January 1 of year `y`. -/
def daysBeforeYear (y : ℕ) : ℕ := (y - 1) * 365 + (y - 1) / 4 - (y - 1) / 100 + (y - 1) / 400

/-- The days of year `y` before month `m`. -/
def daysBeforeMonth (y : ℕ) : ℕ → ℕ
  | 0 => 0
  | 1 => 0
  | m + 2 => daysBeforeMonth y (m + 1) + daysInMonth y (m + 1)

theorem daysBeforeYear_succ {y : ℕ} (hy : 1 ≤ y) :
    daysBeforeYear (y + 1) = daysBeforeYear y + (if isLeap y then 366 else 365) := by
  obtain ⟨z, rfl⟩ : ∃ z, y = z + 1 := ⟨y - 1, by omega⟩
  have h100 : (z + 1) % 100 = 0 → (z + 1) % 4 = 0 := by omega
  have h400 : (z + 1) % 400 = 0 → (z + 1) % 100 = 0 := by omega
  have hle : z / 100 ≤ z := Nat.div_le_self z 100
  simp only [daysBeforeYear, isLeap, Nat.add_sub_cancel, Nat.succ_div, Nat.dvd_iff_mod_eq_zero]
  generalize z / 4 = a, z / 100 = b, z / 400 = c at *
  by_cases h4' : (z + 1) % 4 = 0 <;> by_cases h100' : (z + 1) % 100 = 0 <;>
    by_cases h400' : (z + 1) % 400 = 0 <;> simp_all <;> omega

theorem daysBeforeMonth_thirteen (y : ℕ) :
    daysBeforeMonth y 13 = if isLeap y then 366 else 365 := by
  cases hleap : isLeap y <;> simp [daysBeforeMonth, daysInMonth, hleap]

/-- The days before the month numbered `i`, where month `m` of year `y` has number
`12 * y + (m - 1)`. -/
def monthStart (i : ℕ) : ℕ := daysBeforeYear (i / 12) + daysBeforeMonth (i / 12) (i % 12 + 1)

/-- A month is followed by the next one after as many days as it has. -/
theorem monthStart_succ {i : ℕ} (hi : 12 ≤ i) :
    monthStart (i + 1) = monthStart i + daysInMonth (i / 12) (i % 12 + 1) := by
  unfold monthStart
  by_cases hm : i % 12 = 11
  · have hdiv : (i + 1) / 12 = i / 12 + 1 := by omega
    have hmod : (i + 1) % 12 = 0 := by omega
    have hlen : daysBeforeMonth (i / 12) 13
        = daysBeforeMonth (i / 12) (11 + 1) + daysInMonth (i / 12) (11 + 1) := rfl
    have hjan : daysBeforeMonth (i / 12 + 1) (0 + 1) = 0 := rfl
    rw [hdiv, hmod, hm, daysBeforeYear_succ (by omega), ← daysBeforeMonth_thirteen, hlen, hjan]
    omega
  · have hdiv : (i + 1) / 12 = i / 12 := by omega
    have hmod : (i + 1) % 12 = i % 12 + 1 := by omega
    rw [hdiv, hmod]
    simp only [daysBeforeMonth]
    omega

theorem monthStart_lt_succ {i : ℕ} (hi : 12 ≤ i) : monthStart i < monthStart (i + 1) := by
  have := le_daysInMonth (i / 12) (i % 12 + 1)
  rw [monthStart_succ hi]
  omega

theorem monthStart_mono {i j : ℕ} (hi : 12 ≤ i) (hij : i ≤ j) : monthStart i ≤ monthStart j := by
  induction j, hij using Nat.le_induction with
  | base => exact le_rfl
  | succ j hij ih => exact ih.trans (monthStart_lt_succ (hi.trans hij)).le

/-! ### Dates -/

/-- The last year of the calendar. -/
def maxYear : ℕ := 9999

/-- The ordinal of the last day, `9999-12-31`. -/
def maxOrdinal : ℕ := 3652059

/-- A day of the calendar. -/
structure Date where
  year : ℕ
  month : ℕ
  day : ℕ
  one_le_year : 1 ≤ year
  year_le : year ≤ maxYear
  one_le_month : 1 ≤ month
  month_le : month ≤ 12
  one_le_day : 1 ≤ day
  day_le : day ≤ daysInMonth year month
deriving DecidableEq

namespace Date

/-- The number of the month a date lies in. -/
def monthIndex (d : Date) : ℕ := 12 * d.year + (d.month - 1)

/-- The ordinal of a date: `0001-01-01` is day `1`. -/
def toOrdinal (d : Date) : ℕ := daysBeforeYear d.year + daysBeforeMonth d.year d.month + d.day

/-- The weekday of a date, with Sunday `0` and Saturday `6`. -/
def weekday (d : Date) : ℕ := d.toOrdinal % 7

theorem monthIndex_div (d : Date) : d.monthIndex / 12 = d.year := by
  have := d.one_le_month; have := d.month_le
  simp only [monthIndex]
  omega

theorem monthIndex_mod (d : Date) : d.monthIndex % 12 + 1 = d.month := by
  have := d.one_le_month; have := d.month_le
  simp only [monthIndex]
  omega

theorem le_monthIndex (d : Date) : 12 ≤ d.monthIndex := by
  have := d.one_le_year
  simp only [monthIndex]
  omega

/-- A date lies in its month. -/
theorem toOrdinal_eq (d : Date) : d.toOrdinal = monthStart d.monthIndex + d.day := by
  rw [toOrdinal, monthStart, monthIndex_div, monthIndex_mod]

theorem toOrdinal_le_monthStart (d : Date) : d.toOrdinal ≤ monthStart (d.monthIndex + 1) := by
  have := d.day_le
  rw [toOrdinal_eq, monthStart_succ d.le_monthIndex, monthIndex_div, monthIndex_mod]
  omega

theorem monthStart_lt_toOrdinal (d : Date) : monthStart d.monthIndex < d.toOrdinal := by
  have := d.one_le_day
  rw [toOrdinal_eq]
  omega

variable {a b d : Date}

theorem monthIndex_le_of_toOrdinal_le (h : a.toOrdinal ≤ b.toOrdinal) :
    a.monthIndex ≤ b.monthIndex := by
  by_contra hlt
  have h1 := b.toOrdinal_le_monthStart
  have h2 := a.monthStart_lt_toOrdinal
  have h3 := monthStart_mono (i := b.monthIndex + 1) (j := a.monthIndex)
    (by have := b.le_monthIndex; omega) (by omega)
  omega

theorem toOrdinal_injective : Function.Injective toOrdinal := by
  intro a b h
  have hi : a.monthIndex = b.monthIndex :=
    le_antisymm (monthIndex_le_of_toOrdinal_le h.le) (monthIndex_le_of_toOrdinal_le h.ge)
  have hd : a.day = b.day := by
    have := a.toOrdinal_eq; have := b.toOrdinal_eq
    rw [hi] at *
    omega
  have hy : a.year = b.year := by rw [← a.monthIndex_div, ← b.monthIndex_div, hi]
  have hm : a.month = b.month := by rw [← a.monthIndex_mod, ← b.monthIndex_mod, hi]
  cases a; cases b
  simp_all

/-- Dates in the order of their ordinals. -/
instance : LinearOrder Date := LinearOrder.lift' toOrdinal toOrdinal_injective

theorem le_iff_toOrdinal : a ≤ b ↔ a.toOrdinal ≤ b.toOrdinal := Iff.rfl

theorem lt_iff_toOrdinal : a < b ↔ a.toOrdinal < b.toOrdinal := by
  rw [lt_iff_not_ge, le_iff_toOrdinal, not_le]

/-- The order of dates is the order of their months, then of their days. -/
theorem lt_iff :
    a < b ↔ a.monthIndex < b.monthIndex ∨ a.monthIndex = b.monthIndex ∧ a.day < b.day := by
  rw [lt_iff_toOrdinal]
  have ha := a.toOrdinal_eq
  have hb := b.toOrdinal_eq
  constructor
  · intro h
    rcases (monthIndex_le_of_toOrdinal_le h.le).lt_or_eq with hlt | heq
    · exact Or.inl hlt
    · refine Or.inr ⟨heq, ?_⟩
      rw [heq] at ha
      omega
  · rintro (hlt | ⟨heq, hday⟩)
    · have h1 := a.toOrdinal_le_monthStart
      have h2 := b.monthStart_lt_toOrdinal
      have h3 := monthStart_mono (i := a.monthIndex + 1) (j := b.monthIndex)
        (by have := a.le_monthIndex; omega) (by omega)
      omega
    · rw [heq] at ha
      omega

/-! ### Stepping to other days -/

/-- The first day of the month of `d`. -/
def firstOfMonth (d : Date) : Date :=
  { d with
    day := 1
    one_le_day := le_rfl
    day_le := le_trans (by norm_num) (le_daysInMonth d.year d.month) }

@[simp] theorem firstOfMonth_monthIndex (d : Date) :
    d.firstOfMonth.monthIndex = d.monthIndex := rfl

@[simp] theorem firstOfMonth_day (d : Date) : d.firstOfMonth.day = 1 := rfl

/-- The day after `d`; none after the last day of the calendar. -/
def next (d : Date) : Option Date :=
  if hd : d.day < daysInMonth d.year d.month then
    some { d with day := d.day + 1, one_le_day := by omega, day_le := hd }
  else if hm : d.month < 12 then
    some { d with
      month := d.month + 1, day := 1, one_le_month := by omega, month_le := hm
      one_le_day := le_rfl
      day_le := le_trans (by norm_num) (le_daysInMonth _ _) }
  else if hy : d.year < maxYear then
    some { year := d.year + 1, month := 1, day := 1, one_le_year := by omega, year_le := hy
           one_le_month := le_rfl, month_le := by norm_num, one_le_day := le_rfl
           day_le := le_trans (by norm_num) (le_daysInMonth _ _) }
  else none

theorem toOrdinal_next {d' : Date} (h : d.next = some d') : d'.toOrdinal = d.toOrdinal + 1 := by
  have hlast := d.day_le
  have hm1 := d.one_le_month
  unfold next at h
  split_ifs at h with hd hm hy
  · obtain rfl := Option.some.inj h
    simp only [toOrdinal]
    omega
  · obtain rfl := Option.some.inj h
    obtain ⟨m, hm'⟩ : ∃ m, d.month = m + 1 := ⟨d.month - 1, by omega⟩
    simp only [toOrdinal, hm', daysBeforeMonth] at *
    omega
  · obtain rfl := Option.some.inj h
    have hm12 : d.month = 12 := le_antisymm d.month_le (by omega)
    have hlen : daysBeforeMonth d.year 13
        = daysBeforeMonth d.year 12 + daysInMonth d.year 12 := rfl
    have hyear := daysBeforeYear_succ d.one_le_year
    rw [← daysBeforeMonth_thirteen, hlen] at hyear
    simp only [toOrdinal, hm12] at *
    rw [hyear]
    simp only [daysBeforeMonth] at *
    omega

theorem toOrdinal_le_maxOrdinal (d : Date) : d.toOrdinal ≤ maxOrdinal := by
  have h1 := d.toOrdinal_le_monthStart
  have h2 : d.monthIndex + 1 ≤ 119999 + 1 := by
    have := d.year_le; have := d.month_le
    simp only [monthIndex, maxYear] at *
    omega
  have h3 := monthStart_mono (by have := d.le_monthIndex; omega) h2
  have h4 : monthStart (119999 + 1) = maxOrdinal := by decide
  omega

theorem eq_maxOrdinal_of_next_eq_none (h : d.next = none) : d.toOrdinal = maxOrdinal := by
  have hlast := d.day_le; have hmon := d.month_le; have hyr := d.year_le
  unfold next at h
  split_ifs at h with hd hm hy
  have hy' : d.year = 9999 := by simp only [maxYear] at *; omega
  have hm' : d.month = 12 := by omega
  have hd' : d.day = daysInMonth d.year d.month := by omega
  have : daysBeforeYear 9999 + daysBeforeMonth 9999 12 + daysInMonth 9999 12 = maxOrdinal := by
    decide
  rw [toOrdinal, hd', hy', hm', this]

/-- The date `n` days after `d`. -/
def addDays (d : Date) : ℕ → Option Date
  | 0 => some d
  | n + 1 => (d.addDays n).bind next

theorem toOrdinal_addDays {d' : Date} {n : ℕ} (h : d.addDays n = some d') :
    d'.toOrdinal = d.toOrdinal + n := by
  induction n generalizing d' with
  | zero => obtain rfl := Option.some.inj h; rfl
  | succ n ih =>
    obtain ⟨e, he, hnext⟩ := Option.bind_eq_some_iff.mp h
    rw [toOrdinal_next hnext, ih he]
    omega

theorem exists_addDays {n : ℕ} (h : d.toOrdinal + n ≤ maxOrdinal) :
    ∃ d', d.addDays n = some d' := by
  induction n with
  | zero => exact ⟨d, rfl⟩
  | succ n ih =>
    obtain ⟨e, he⟩ := ih (by omega)
    have hord := toOrdinal_addDays he
    cases hn : e.next with
    | none => exact absurd (eq_maxOrdinal_of_next_eq_none hn) (by omega)
    | some d' => exact ⟨d', by simp [addDays, he, hn]⟩

/-- From the first day of a month, `32` days ahead lies in the next month. -/
theorem monthIndex_addDays_firstOfMonth {d' : Date} (h : d.firstOfMonth.addDays 32 = some d') :
    d'.monthIndex = d.monthIndex + 1 := by
  have hord := toOrdinal_addDays h
  have h12 := d.le_monthIndex
  rw [toOrdinal_eq d.firstOfMonth, firstOfMonth_monthIndex, firstOfMonth_day] at hord
  have hs1 := monthStart_succ h12
  have hs2 := monthStart_succ (i := d.monthIndex + 1) (by omega)
  have := daysInMonth_le (d.monthIndex / 12) (d.monthIndex % 12 + 1)
  have := le_daysInMonth (d.monthIndex / 12) (d.monthIndex % 12 + 1)
  have := le_daysInMonth ((d.monthIndex + 1) / 12) ((d.monthIndex + 1) % 12 + 1)
  have hlo := d'.monthStart_lt_toOrdinal
  have hhi := d'.toOrdinal_le_monthStart
  rcases Nat.lt_trichotomy d'.monthIndex (d.monthIndex + 1) with hlt | heq | hgt
  · have := monthStart_mono (i := d'.monthIndex + 1) (j := d.monthIndex + 1)
      (by have := d'.le_monthIndex; omega) (by omega)
    omega
  · exact heq
  · have := monthStart_mono (i := d.monthIndex + 1 + 1) (j := d'.monthIndex) (by omega) (by omega)
    omega

/-! ### Recurring days -/

/-- Every day of a year but February 29 exists in every year. -/
theorem exists_date_of_day {y : ℕ} (hy : 1 ≤ y) (hy' : y ≤ maxYear) (d : Date)
    (hd : d.month ≠ 2 ∨ d.day ≤ 28) : ∃ e : Date, e.year = y ∧ e.month = d.month ∧ e.day = d.day :=
  ⟨{ d with
      year := y, one_le_year := hy, year_le := hy'
      day_le := by
        have h1 := d.day_le
        have h2 := le_daysInMonth y d.month
        unfold daysInMonth at *
        split_ifs at * <;> omega }, rfl, rfl, rfl⟩

/-- February 29 exists in some year of any eight consecutive ones. -/
theorem exists_date_of_leap_day {y : ℕ} (hy' : y + 8 ≤ maxYear) (d : Date)
    (hd : d.month = 2 ∧ d.day = 29) :
    ∃ e : Date, y < e.year ∧ e.year ≤ y + 8 ∧ e.month = d.month ∧ e.day = d.day := by
  obtain ⟨q, hq, hq', h4⟩ : ∃ q, y < q ∧ q ≤ y + 4 ∧ q % 4 = 0 :=
    ⟨y + 4 - y % 4, by omega, by omega, by omega⟩
  obtain ⟨z, hz, hz', hleap⟩ : ∃ z, y < z ∧ z ≤ y + 8 ∧ isLeap z = true := by
    by_cases h100 : q % 100 = 0
    · have hn4 : (q + 4) % 4 = 0 := by omega
      have hn : (q + 4) % 100 ≠ 0 := by omega
      exact ⟨q + 4, by omega, by omega, by simp [isLeap, hn4, hn]⟩
    · exact ⟨q, hq, by omega, by simp [isLeap, h4, h100]⟩
  exact ⟨{ d with
      year := z, one_le_year := by omega, year_le := by omega
      day_le := by simp [daysInMonth, hd.1, hd.2, hleap] }, hz, hz', rfl, rfl⟩

/-- Every weekday occurs in every month. -/
theorem exists_date_of_weekday {y m w : ℕ} (hy : 1 ≤ y) (hy' : y ≤ maxYear) (hm : 1 ≤ m)
    (hm' : m ≤ 12) (hw : w < 7) :
    ∃ e : Date, e.year = y ∧ e.month = m ∧ e.weekday = w := by
  obtain ⟨k, hk, hk', hkw⟩ : ∃ k, 1 ≤ k ∧ k ≤ 7 ∧
      (daysBeforeYear y + daysBeforeMonth y m + k) % 7 = w := by
    generalize daysBeforeYear y + daysBeforeMonth y m = s
    exact ⟨(w + 6 + (7 - s % 7)) % 7 + 1, by omega, by omega, by omega⟩
  exact ⟨{ year := y, month := m, day := k, one_le_year := hy, year_le := hy', one_le_month := hm
           month_le := hm', one_le_day := hk
           day_le := hk'.trans (le_trans (by norm_num) (le_daysInMonth y m)) }, rfl, rfl, hkw⟩

/-- Nine years have fewer than `3349` days. -/
theorem toOrdinal_le_of_year_le (h : b.year ≤ a.year + 8) : b.toOrdinal ≤ a.toOrdinal + 3348 := by
  have key : ∀ k, monthStart (a.monthIndex + k) ≤ monthStart a.monthIndex + 31 * k := by
    intro k
    induction k with
    | zero => simp
    | succ k ih =>
      have hstep := monthStart_succ (i := a.monthIndex + k) (by have := a.le_monthIndex; omega)
      have := daysInMonth_le ((a.monthIndex + k) / 12) ((a.monthIndex + k) % 12 + 1)
      rw [← Nat.add_assoc, hstep]
      omega
  have hidx : b.monthIndex + 1 ≤ a.monthIndex + 108 := by
    have := a.one_le_month; have := b.month_le
    simp only [monthIndex]
    omega
  have h1 := b.toOrdinal_le_monthStart
  have h2 := monthStart_mono (by have := b.le_monthIndex; omega) hidx
  have h3 := a.monthStart_lt_toOrdinal
  have h4 := key 108
  omega

end Date

/-! ### Whole minutes -/

/-- A whole minute of the calendar. -/
structure Minute where
  date : Date
  hour : ℕ
  minute : ℕ
  hour_lt : hour < 24
  minute_lt : minute < 60
deriving DecidableEq

namespace Minute

/-- The number of a minute on the time line. -/
def toMinutes (t : Minute) : ℕ := t.date.toOrdinal * 1440 + t.hour * 60 + t.minute

/-- The minute of the day, below `1440`. -/
def ofDay (t : Minute) : ℕ := t.hour * 60 + t.minute

theorem ofDay_lt (t : Minute) : t.ofDay < 1440 := by
  have := t.hour_lt; have := t.minute_lt
  simp only [ofDay]
  omega

theorem toMinutes_eq (t : Minute) : t.toMinutes = t.date.toOrdinal * 1440 + t.ofDay := by
  simp only [toMinutes, ofDay]
  omega

theorem toMinutes_injective : Function.Injective toMinutes := by
  intro s t h
  have hs := s.ofDay_lt; have ht := t.ofDay_lt
  rw [toMinutes_eq, toMinutes_eq] at h
  have hdate : s.date = t.date := Date.toOrdinal_injective (by omega)
  have := s.minute_lt; have := t.minute_lt
  have hday : s.ofDay = t.ofDay := by rw [hdate] at h; omega
  simp only [ofDay] at hday
  cases s; cases t
  simp_all only [Minute.mk.injEq, true_and]
  omega

/-- Minutes in the order of the time line. -/
instance : LinearOrder Minute := LinearOrder.lift' toMinutes toMinutes_injective

variable {t s : Minute}

theorem le_iff_toMinutes : s ≤ t ↔ s.toMinutes ≤ t.toMinutes := Iff.rfl

theorem lt_iff_toMinutes : s < t ↔ s.toMinutes < t.toMinutes := by
  rw [lt_iff_not_ge, le_iff_toMinutes, not_le]

theorem lt_of_date_lt (h : s.date < t.date) : s < t := by
  have hs := s.ofDay_lt
  rw [Date.lt_iff_toOrdinal] at h
  rw [lt_iff_toMinutes, toMinutes_eq, toMinutes_eq]
  omega

theorem date_le_of_le (h : s ≤ t) : s.date ≤ t.date := by
  by_contra hlt
  exact absurd (lt_of_date_lt (not_le.mp hlt)) (not_lt.mpr h)

theorem zero_lt_sixty : 0 < 60 := by norm_num

/-- Midnight at the beginning of a date. -/
def midnight (d : Date) : Minute := ⟨d, 0, 0, by norm_num, zero_lt_sixty⟩

@[simp] theorem midnight_date (d : Date) : (midnight d).date = d := rfl

@[simp] theorem midnight_ofDay (d : Date) : (midnight d).ofDay = 0 := rfl

theorem midnight_le_iff {d : Date} : midnight d ≤ t ↔ d ≤ t.date := by
  refine ⟨date_le_of_le, fun h => ?_⟩
  rw [Date.le_iff_toOrdinal] at h
  rw [le_iff_toMinutes, toMinutes_eq, toMinutes_eq, midnight_date, midnight_ofDay]
  omega

/-- The same hour and minute on the next day. -/
def addDay (t : Minute) : Option Minute := t.date.next.map fun d => { t with date := d }

/-- One hour later. -/
def addHour (t : Minute) : Option Minute :=
  if h : t.hour + 1 < 24 then some { t with hour := t.hour + 1, hour_lt := h }
  else t.date.next.map fun d => { t with date := d, hour := 0, hour_lt := by norm_num }

/-- One minute later. -/
def addMinute (t : Minute) : Option Minute :=
  if h : t.minute + 1 < 60 then some { t with minute := t.minute + 1, minute_lt := h }
  else ({ t with minute := 0, minute_lt := by norm_num } : Minute).addHour

theorem toMinutes_addHour {t' : Minute} (h : t.addHour = some t') :
    t'.toMinutes = t.toMinutes + 60 := by
  have := t.hour_lt
  unfold addHour at h
  split_ifs at h with hh
  · obtain rfl := Option.some.inj h
    simp only [toMinutes]
    omega
  · obtain ⟨d, hd, rfl⟩ := Option.map_eq_some_iff.mp h
    simp only [toMinutes, Date.toOrdinal_next hd]
    omega

theorem toMinutes_addMinute {t' : Minute} (h : t.addMinute = some t') :
    t'.toMinutes = t.toMinutes + 1 := by
  have := t.minute_lt
  unfold addMinute at h
  split_ifs at h with hm
  · obtain rfl := Option.some.inj h
    simp only [toMinutes]
    omega
  · rw [toMinutes_addHour h]
    simp only [toMinutes]
    omega

/-- Only the last minute of the calendar has no next one. -/
theorem le_of_addMinute_eq_none (h : s.addMinute = none) (t : Minute) : t ≤ s := by
  have hs := s.hour_lt; have ht := t.ofDay_lt
  unfold addMinute addHour at h
  split_ifs at h with hm hh
  have hord := Date.eq_maxOrdinal_of_next_eq_none (Option.map_eq_none_iff.mp h)
  have hle := t.date.toOrdinal_le_maxOrdinal
  rw [le_iff_toMinutes, toMinutes_eq, toMinutes_eq, hord]
  have hlast : s.ofDay = 1439 := by
    have := s.minute_lt
    simp only [ofDay] at hh ⊢
    omega
  omega

theorem toMinutes_div_sixty (t : Minute) : t.toMinutes / 60 = t.date.toOrdinal * 24 + t.hour := by
  have := t.minute_lt
  simp only [toMinutes]
  omega

/-- The beginning of the hour after that of `t`. -/
theorem hour_of_addHour {t' : Minute} (h : t.addHour = some t') :
    t'.date.toOrdinal * 1440 + t'.hour * 60 = t.date.toOrdinal * 1440 + (t.hour + 1) * 60 := by
  have hdiv : t'.toMinutes / 60 = t.toMinutes / 60 + 1 := by
    rw [toMinutes_addHour h]
    omega
  rw [toMinutes_div_sixty, toMinutes_div_sixty] at hdiv
  omega

/-- A later minute within the same hour of the same day as its hour. -/
theorem eq_of_lt_addHour (hst : s ≤ t)
    (h : t.toMinutes < s.date.toOrdinal * 1440 + (s.hour + 1) * 60) :
    t.date = s.date ∧ t.hour = s.hour := by
  have hs := s.hour_lt; have ht := t.hour_lt
  have hm := t.minute_lt
  have hle := le_iff_toMinutes.mp hst
  simp only [toMinutes] at hle h
  have hdate : t.date = s.date := Date.toOrdinal_injective (by omega)
  rw [hdate] at hle h
  exact ⟨hdate, by omega⟩

end Minute

end Calendar

import AgentStudio.Library.Calendar
import AgentStudio.Triggers.CronField

/-!
# The next run of a cron job

`computeNextRun` is `CronManager._compute_next_run` of `agent_runtime/triggers.py` in a
timezone of fixed offset. The search starts at the minute after `now` and, as long as the
candidate does not pass the field tests, skips to the next month, day, hour or minute
(`advance`); after `525600` rounds, on an overflow of the calendar, or on an expression
without five fields, the answer is one hour from a later reading of the clock.

The search is correct for the tests it makes: `search_eq_of_isLeast` says that it finds the
least minute that passes them, if there is one before the year `9999`. No skip jumps over
such a minute (`advance_cases`, `not_passes_of_lt_advance`), and the bound on the rounds is
never reached, because a schedule that ever fires fires within nine years
(`toOrdinal_le_of_isLeast`) and the rounds are at most the days until then and twice the
minutes of a day (`roundsLeft`).
-/

namespace AgentStudio.Triggers

open PyText Calendar

/-! ### The code -/

/-- The five fields of an expression, as text. -/
structure CronSpecs where
  minuteSpec : Str
  hourSpec : Str
  domSpec : Str
  monthSpec : Str
  dowSpec : Str

namespace CronSpecs

variable (s : CronSpecs)

def monthOk (m : ℕ) : Bool := matchesField s.monthSpec m 1 12

/-- The test of the day: either of day-of-month and day-of-week if both are given. -/
def dayOk (day weekday : ℕ) : Bool :=
  let domMatch := matchesField s.domSpec day 1 31
  let dowMatch := matchesField s.dowSpec weekday 0 6
  if s.domSpec ≠ ['*'] ∧ s.dowSpec ≠ ['*'] then domMatch || dowMatch else domMatch && dowMatch

def hourOk (h : ℕ) : Bool := matchesField s.hourSpec h 0 23

def minuteOk (m : ℕ) : Bool := matchesField s.minuteSpec m 0 59

def dateOk (d : Date) : Bool := s.monthOk d.month && s.dayOk d.day d.weekday

def passes (t : Minute) : Bool := s.dateOk t.date && (s.hourOk t.hour && s.minuteOk t.minute)

/-- The candidate of the next round, after one that does not pass; `none` is an
`OverflowError`. -/
def advance (c : Minute) : Option Minute :=
  if s.monthOk c.date.month = false then
    (c.date.firstOfMonth.addDays 32).map fun d => Minute.midnight d.firstOfMonth
  else if s.dayOk c.date.day c.date.weekday = false then
    c.addDay.map fun t => Minute.midnight t.date
  else if s.hourOk c.hour = false then
    c.addHour.map fun t => { t with minute := 0, minute_lt := Minute.zero_lt_sixty }
  else c.addMinute

/-- The search loop, for at most the given number of rounds. -/
def search : ℕ → Minute → Option Minute
  | 0, _ => none
  | n + 1, c => if s.passes c then some c else (s.advance c).bind (search n)

end CronSpecs

/-- A reading of the clock, as an aware datetime in a timezone of fixed offset. -/
structure LocalTime where
  at' : Minute
  second : ℕ
  microsecond : ℕ
  /-- the offset from UTC, in microseconds -/
  utcoffset : ℤ
  second_lt : second < 60
  microsecond_lt : microsecond < 1000000

/-- `datetime.timestamp` of a whole minute at an offset, in microseconds: the ordinal of
1970-01-01 is `719163`. -/
def timestamp (utcoffset : ℤ) (t : Minute) : ℤ :=
  ((t.toMinutes : ℤ) - 719163 * 1440) * 60000000 - utcoffset

/-- The timestamp of a reading of the clock, in microseconds. -/
def LocalTime.timestamp (now : LocalTime) : ℤ :=
  Triggers.timestamp now.utcoffset now.at' + now.second * 1000000 + now.microsecond

def maxIterations : ℕ := 525600

def oneHourFrom (later : ℤ) : ℤ := later + 3600 * 1000000

/-- `_compute_next_run(expression)` at `now`; `later` is the reading of the clock that the
fallbacks take. -/
def computeNextRun (expression : Str) (now : LocalTime) (later : ℤ) : ℤ :=
  match words (strip expression) with
  | [minuteSpec, hourSpec, domSpec, monthSpec, dowSpec] =>
    let s : CronSpecs := ⟨minuteSpec, hourSpec, domSpec, monthSpec, dowSpec⟩
    match now.at'.addMinute.bind (s.search maxIterations) with
    | some t => timestamp now.utcoffset t
    | none => oneHourFrom later
  | _ => oneHourFrom later

theorem timestamp_le_iff {off : ℤ} {s t : Minute} :
    timestamp off s ≤ timestamp off t ↔ s ≤ t := by
  rw [Minute.le_iff_toMinutes]
  simp only [timestamp]
  omega

theorem LocalTime.timestamp_lt_iff {now : LocalTime} {t : Minute} :
    now.timestamp < Triggers.timestamp now.utcoffset t ↔ now.at' < t := by
  have h1 := now.second_lt; have h2 := now.microsecond_lt
  rw [Minute.lt_iff_toMinutes]
  simp only [LocalTime.timestamp, Triggers.timestamp]
  omega

/-! ### What one round does -/

namespace CronSpecs

variable {s : CronSpecs}

/-- **One round.** From a candidate that does not pass, the search goes to the first minute
of the next month, day or hour, or to the next minute, according to the first test that
fails. -/
theorem advance_cases {c c' : Minute} (h : s.advance c = some c') :
    (s.monthOk c.date.month = false ∧
      ∃ d, d.monthIndex = c.date.monthIndex + 1 ∧ d.day = 1 ∧ c' = Minute.midnight d) ∨
    (s.dayOk c.date.day c.date.weekday = false ∧
      ∃ d, c.date.next = some d ∧ c' = Minute.midnight d) ∨
    (s.dateOk c.date = true ∧ s.hourOk c.hour = false ∧
      c'.toMinutes = c.date.toOrdinal * 1440 + (c.hour + 1) * 60) ∨
    (s.dateOk c.date = true ∧ s.hourOk c.hour = true ∧
      c'.toMinutes = c.toMinutes + 1) := by
  unfold advance at h
  split_ifs at h with hmonth hday hhour
  · obtain ⟨d, hd, rfl⟩ := Option.map_eq_some_iff.mp h
    have hidx := Date.monthIndex_addDays_firstOfMonth hd
    exact Or.inl ⟨hmonth, d.firstOfMonth, by simpa using hidx, rfl, rfl⟩
  · obtain ⟨t, ht, rfl⟩ := Option.map_eq_some_iff.mp h
    obtain ⟨d, hd, rfl⟩ := Option.map_eq_some_iff.mp ht
    exact Or.inr (Or.inl ⟨hday, d, hd, rfl⟩)
  · obtain ⟨t, ht, rfl⟩ := Option.map_eq_some_iff.mp h
    refine Or.inr (Or.inr (Or.inl ⟨by simp_all [dateOk], hhour, ?_⟩))
    rw [← Minute.hour_of_addHour ht, Minute.toMinutes, Nat.add_zero]
  · exact Or.inr (Or.inr (Or.inr
      ⟨by simp_all [dateOk], by simpa using hhour, Minute.toMinutes_addMinute h⟩))

theorem lt_advance {c c' : Minute} (h : s.advance c = some c') : c < c' := by
  have hm := c.minute_lt
  rcases advance_cases h with
    ⟨-, d, hd, -, rfl⟩ | ⟨-, d, hd, rfl⟩ | ⟨-, -, hc⟩ | ⟨-, -, hc⟩
  · exact Minute.lt_of_date_lt (Date.lt_iff.mpr (Or.inl (by simp [hd])))
  · refine Minute.lt_of_date_lt (Date.lt_iff_toOrdinal.mpr ?_)
    rw [Minute.midnight_date, Date.toOrdinal_next hd]
    omega
  · rw [Minute.lt_iff_toMinutes, hc]
    simp only [Minute.toMinutes]
    omega
  · rw [Minute.lt_iff_toMinutes, hc]
    omega

theorem not_passes_of_lt_advance {c c' t : Minute} (hpass : s.passes c = false)
    (h : s.advance c = some c') (hct : c ≤ t) (htc : t < c') : s.passes t = false := by
  rcases advance_cases h with
    ⟨hmonth, d, hd, hday, rfl⟩ | ⟨hday, d, hd, rfl⟩ | ⟨-, hhour, hc⟩ | ⟨-, hhour, hc⟩
  · -- the rest of a month whose number fails
    have hlt : t.date < d := not_le.mp fun hle => absurd (Minute.midnight_le_iff.mpr hle)
      (not_le.mpr htc)
    have hidx : t.date.monthIndex = c.date.monthIndex := by
      have hle := Date.monthIndex_le_of_toOrdinal_le (Minute.date_le_of_le hct)
      have hpos := t.date.one_le_day
      rcases Date.lt_iff.mp hlt with h' | ⟨-, h'⟩ <;> omega
    have hmon : t.date.month = c.date.month := by
      rw [← Date.monthIndex_mod, ← Date.monthIndex_mod, hidx]
    simp [passes, dateOk, hmon, hmonth]
  · -- the rest of a day that fails
    have hlt : t.date < d := not_le.mp fun hle => absurd (Minute.midnight_le_iff.mpr hle)
      (not_le.mpr htc)
    have hdate : t.date = c.date := by
      have hle := Date.le_iff_toOrdinal.mp (Minute.date_le_of_le hct)
      rw [Date.lt_iff_toOrdinal, Date.toOrdinal_next hd] at hlt
      exact Date.toOrdinal_injective (by omega)
    simp [passes, dateOk, hdate, hday]
  · -- the rest of an hour that fails
    rw [Minute.lt_iff_toMinutes, hc] at htc
    obtain ⟨-, hh⟩ := Minute.eq_of_lt_addHour hct htc
    simp [passes, hh, hhour]
  · -- the candidate itself
    rw [Minute.lt_iff_toMinutes, hc] at htc
    have heq : t = c := Minute.toMinutes_injective
      (by have := Minute.le_iff_toMinutes.mp hct; omega)
    rw [heq, hpass]

theorem passes_of_search_eq_some {n : ℕ} {c t : Minute} (h : s.search n c = some t) :
    s.passes t = true := by
  induction n generalizing c with
  | zero => simp [search] at h
  | succ n ih =>
    rw [search] at h
    split_ifs at h with hp
    · rwa [← Option.some.inj h]
    · obtain ⟨c', -, hc'⟩ := Option.bind_eq_some_iff.mp h
      exact ih hc'

/-! ### A schedule that fires, fires within nine years -/

private theorem dayOk_cases {day weekday : ℕ} (h : s.dayOk day weekday = true) :
    (∀ w, s.dayOk day w = true) ∨ (∀ d, s.dayOk d weekday = true) := by
  have star : ∀ (v lo hi : ℤ), matchesField ['*'] v lo hi = true := fun v lo hi => by
    simp [matchesField]
  simp only [dayOk] at h ⊢
  by_cases hdom : s.domSpec = ['*']
  · refine Or.inr fun d => ?_
    simp only [hdom, star] at h ⊢
    simpa using h
  · by_cases hdow : s.dowSpec = ['*']
    · refine Or.inl fun w => ?_
      simp only [hdow, star] at h ⊢
      simpa using h
    · simp only [hdom, hdow, ne_eq, not_false_eq_true, and_self, if_true, Bool.or_eq_true]
        at h ⊢
      rcases h with h | h
      · exact Or.inl fun w => Or.inl h
      · exact Or.inr fun d => Or.inr h

private theorem exists_dateOk_within {d : Date} (h : s.dateOk d = true) {y : ℕ}
    (hy : y + 8 ≤ maxYear) : ∃ e : Date, s.dateOk e = true ∧ y < e.year ∧ e.year ≤ y + 8 := by
  simp only [dateOk, Bool.and_eq_true] at h ⊢
  obtain ⟨hmonth, hday⟩ := h
  rcases dayOk_cases hday with hany | hany
  · by_cases hleap : d.month = 2 ∧ 28 < d.day
    · have h29 : d.day = 29 := by
        have := d.day_le
        rw [hleap.1] at this
        unfold daysInMonth at this
        split_ifs at this <;> omega
      obtain ⟨e, hey, hey', hem, hed⟩ := Date.exists_date_of_leap_day hy d ⟨hleap.1, h29⟩
      exact ⟨e, ⟨by rw [hem]; exact hmonth, by rw [hed]; exact hany _⟩, hey, hey'⟩
    · obtain ⟨e, hey, hem, hed⟩ := Date.exists_date_of_day (y := y + 1) (by omega)
        (by omega) d (by omega)
      exact ⟨e, ⟨by rw [hem]; exact hmonth, by rw [hed]; exact hany _⟩, by omega, by omega⟩
  · obtain ⟨e, hey, hem, hew⟩ := Date.exists_date_of_weekday (y := y + 1) (w := d.weekday)
      (by omega) (by omega) d.one_le_month d.month_le (Nat.mod_lt _ (by norm_num))
    exact ⟨e, ⟨by rw [hem]; exact hmonth, by rw [hew]; exact hany _⟩, by omega, by omega⟩

/-- The least minute that passes, if there is one before the year `9999`, comes within nine
years. -/
theorem toOrdinal_le_of_isLeast {c m : Minute} (hm : s.passes m = true)
    (hyear : m.date.year < maxYear) (hleast : ∀ t, c ≤ t → s.passes t = true → m ≤ t) :
    m.date.toOrdinal ≤ c.date.toOrdinal + 3348 := by
  by_cases hy : c.date.year + 8 ≤ maxYear
  · simp only [passes, Bool.and_eq_true] at hm
    obtain ⟨e, he, hye, hye'⟩ := exists_dateOk_within hm.1 hy
    have hce : c.date < e := Date.lt_iff.mpr (Or.inl (by
      have := c.date.month_le
      simp only [Date.monthIndex]
      omega))
    have hce' : c < ({ m with date := e } : Minute) := Minute.lt_of_date_lt hce
    have hle := hleast { m with date := e } hce'.le
      (by simp only [passes, he, hm.2.1, hm.2.2, Bool.and_self])
    exact (Date.le_iff_toOrdinal.mp (Minute.date_le_of_le hle)).trans
      (Date.toOrdinal_le_of_year_le hye')
  · exact Date.toOrdinal_le_of_year_le (by omega)

/-! ### The search finds the least minute -/

/-- A bound on the rounds from the candidate `c` to the minute `m`: one for each day between
them, and one for each minute of the first day and of the last. -/
private def roundsLeft (m c : Minute) : ℕ :=
  if c.date = m.date then m.ofDay - c.ofDay
  else (m.date.toOrdinal - c.date.toOrdinal) + 1440 + (if c.ofDay = 0 then 0 else 1440 - c.ofDay)

private theorem exists_advance {c : Minute} (hyear : c.date.year < maxYear) :
    ∃ c', s.advance c = some c' := by
  have hord : c.date.toOrdinal + 365 ≤ maxOrdinal := by
    have h1 := c.date.toOrdinal_le_monthStart
    have h2 : c.date.monthIndex + 1 ≤ 119988 := by
      have := c.date.month_le
      simp only [Date.monthIndex, maxYear] at *
      omega
    have h3 := monthStart_mono (by have := c.date.le_monthIndex; omega) h2
    have h4 : monthStart 119988 + 365 = maxOrdinal := by decide
    omega
  have hnext : ∃ d, c.date.next = some d := by
    cases hn : c.date.next with
    | none => exact absurd (Date.eq_maxOrdinal_of_next_eq_none hn) (by omega)
    | some d => exact ⟨d, rfl⟩
  obtain ⟨d, hd⟩ := hnext
  unfold advance
  split_ifs
  · have hfirst : c.date.firstOfMonth.toOrdinal ≤ c.date.toOrdinal := by
      rw [Date.toOrdinal_eq, Date.toOrdinal_eq]
      have := c.date.one_le_day
      simp only [Date.firstOfMonth_monthIndex, Date.firstOfMonth_day]
      omega
    obtain ⟨e, he⟩ := Date.exists_addDays (d := c.date.firstOfMonth) (n := 32) (by omega)
    exact ⟨_, by rw [he]; rfl⟩
  · exact ⟨_, by rw [Minute.addDay, hd]; rfl⟩
  · by_cases h : c.hour + 1 < 24 <;> simp [Minute.addHour, h, hd]
  · by_cases hm : c.minute + 1 < 60 <;> by_cases hh : c.hour + 1 < 24 <;>
      simp [Minute.addMinute, Minute.addHour, hm, hh, hd]

private theorem roundsLeft_advance {c c' m : Minute} (hm : s.passes m = true) (hcm : c < m)
    (hleast : ∀ t, c ≤ t → s.passes t = true → m ≤ t) (h : s.advance c = some c')
    (hcm' : c' ≤ m) : roundsLeft m c' < roundsLeft m c := by
  have hlt := Minute.lt_iff_toMinutes.mp (lt_advance h)
  have hle := Minute.le_iff_toMinutes.mp hcm'
  have hc := c.ofDay_lt; have hc' := c'.ofDay_lt; have hmd := m.ofDay_lt
  rw [Minute.toMinutes_eq, Minute.toMinutes_eq] at hlt hle
  have hdates := Date.toOrdinal_injective.eq_iff (a := c.date) (b := m.date)
  have hdates' := Date.toOrdinal_injective.eq_iff (a := c'.date) (b := m.date)
  by_cases hday : c.date = m.date
  · -- the last day
    rw [hday] at hlt
    have hday' : c'.date = m.date := hdates'.mp (by omega)
    rw [hday'] at hlt hle
    simp only [roundsLeft, hday, hday', if_true]
    omega
  · have hclt : c.date.toOrdinal < m.date.toOrdinal := by
      have h1 := Date.le_iff_toOrdinal.mp (Minute.date_le_of_le hcm.le)
      have h2 := mt hdates.mp hday
      omega
    -- at midnight of a day before the last the date fails, or an earlier minute would pass
    have hdate : c.ofDay = 0 → s.dateOk c.date = false := by
      intro h0
      by_contra hok
      have hle' := hleast { m with date := c.date }
        (by
          rw [Minute.le_iff_toMinutes, Minute.toMinutes_eq, h0, Minute.toMinutes_eq]
          exact Nat.add_le_add_left (Nat.zero_le _) _)
        (by
          simp only [passes, Bool.and_eq_true] at hm ⊢
          exact ⟨by simpa using hok, hm.2⟩)
      have := Date.le_iff_toOrdinal.mp (Minute.date_le_of_le hle')
      exact absurd this (by simpa using hclt)
    have hmid : c'.date.toOrdinal = c.date.toOrdinal ∨
        c.date.toOrdinal < c'.date.toOrdinal ∧ c'.ofDay = 0 := by
      rcases advance_cases h with
        ⟨-, d, hd, -, rfl⟩ | ⟨-, d, hd, rfl⟩ | ⟨-, -, hmin⟩ | ⟨-, -, hmin⟩
      · exact Or.inr ⟨Date.lt_iff_toOrdinal.mp (Date.lt_iff.mpr (Or.inl (by simp [hd]))), rfl⟩
      · exact Or.inr ⟨by rw [Minute.midnight_date, Date.toOrdinal_next hd]; omega, rfl⟩
      · have := c.hour_lt
        rw [Minute.toMinutes_eq] at hmin
        omega
      · rw [Minute.toMinutes_eq, Minute.toMinutes_eq] at hmin
        omega
    have hsame : c'.date.toOrdinal = c.date.toOrdinal → c.ofDay ≠ 0 := by
      intro heq h0
      have hf := hdate h0
      rcases advance_cases h with
        ⟨-, d, hd, -, rfl⟩ | ⟨-, d, hd, rfl⟩ | ⟨hok, -⟩ | ⟨hok, -⟩
      · have := Date.toOrdinal_injective (by simpa using heq)
        simp [this] at hd
      · have := Date.toOrdinal_next hd
        simp only [Minute.midnight_date] at heq
        omega
      · rw [hf] at hok
        exact Bool.noConfusion hok
      · rw [hf] at hok
        exact Bool.noConfusion hok
    simp only [roundsLeft, hday, if_false]
    split_ifs <;> omega

/-- **The search is correct for the tests it makes.** -/
theorem search_eq_of_isLeast {n : ℕ} {c m : Minute} (hcm : c ≤ m) (hm : s.passes m = true)
    (hyear : m.date.year < maxYear) (hleast : ∀ t, c ≤ t → s.passes t = true → m ≤ t)
    (hn : roundsLeft m c < n) : s.search n c = some m := by
  induction n generalizing c with
  | zero => omega
  | succ n ih =>
    rw [search]
    rcases hcm.eq_or_lt with rfl | hlt
    · rw [if_pos hm]
    · have hpass : s.passes c = false := by
        by_contra hp
        exact absurd (hleast c le_rfl (by simpa using hp)) (not_le.mpr hlt)
      have hyear' : c.date.year < maxYear := by
        have h1 := Date.monthIndex_le_of_toOrdinal_le
          (Date.le_iff_toOrdinal.mp (Minute.date_le_of_le hcm))
        have := c.date.one_le_month; have := m.date.month_le
        simp only [Date.monthIndex] at h1
        omega
      obtain ⟨c', hc'⟩ := exists_advance (s := s) hyear'
      have hcm' : c' ≤ m := by
        by_contra hgt
        have := not_passes_of_lt_advance hpass hc' hcm (not_le.mp hgt)
        rw [hm] at this
        exact Bool.noConfusion this
      rw [if_neg (by simp [hpass]), hc', Option.bind_some]
      exact ih hcm' (fun t ht => hleast t ((lt_advance hc').le.trans ht))
        (by have := roundsLeft_advance hm hlt hleast hc' hcm'; omega)

theorem search_maxIterations {c m : Minute} (hcm : c ≤ m) (hm : s.passes m = true)
    (hyear : m.date.year < maxYear) (hleast : ∀ t, c ≤ t → s.passes t = true → m ≤ t) :
    s.search maxIterations c = some m := by
  refine search_eq_of_isLeast hcm hm hyear hleast ?_
  have h1 := toOrdinal_le_of_isLeast hm hyear hleast
  have h2 := m.ofDay_lt
  simp only [roundsLeft, maxIterations]
  split_ifs <;> omega

end CronSpecs

end AgentStudio.Triggers

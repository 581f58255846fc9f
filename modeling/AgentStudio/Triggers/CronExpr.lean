import AgentStudio.Triggers.CronSchedule

/-!
# Cron expressions

A `CronExpr` is an expression of five valid fields, with the day of the week from `0` to `7`
and both ends Sunday. `CronExpr.matchesAt` says which minutes it stands for, and
`CronExpr.IsNextRun` which of them is the next one after a reading of the clock.

`CronExpr.passes_specs` computes what the tests of the search make of an expression: they
accept the minutes of `CronExpr.readsAt`, which reads every field up to the first part that
the code cannot read and knows Sunday as `0` only. Every minute they accept belongs to the
expression (`matchesAt_of_readsAt`), so the search is never early, and
`computeNextRun_isNextRun_iff` says when it is not late either: exactly when the tests accept
the next minute of the expression.
-/

namespace AgentStudio.Triggers

open PyText Calendar

/-! ### Expressions -/

structure CronExpr where
  minute : CronField 0 59
  hour : CronField 0 23
  dom : CronField 1 31
  month : CronField 1 12
  dow : CronField 0 7
deriving DecidableEq

namespace CronExpr

variable (e : CronExpr)

def fields : List Str :=
  [e.minute.render, e.hour.render, e.dom.render, e.month.render, e.dow.render]

/-- The fields as the search takes them apart. -/
def specs : CronSpecs :=
  ⟨e.minute.render, e.hour.render, e.dom.render, e.month.render, e.dow.render⟩

/-- Whether the day-of-week field stands for a weekday, Sunday being `0` and `7`. -/
def dowHolds (weekday : ℕ) : Bool :=
  e.dow.holds weekday || (decide (weekday = 0) && e.dow.holds 7)

/-- Whether the expression stands for a date: by its day of the month or its day of the week
if both are restricted, by both otherwise. -/
def dayMatches (d : Date) : Bool :=
  if e.dom.restricted && e.dow.restricted then e.dom.holds d.day || e.dowHolds d.weekday
  else e.dom.holds d.day && e.dowHolds d.weekday

/-- Whether the expression stands for a minute. -/
def matchesAt (t : Minute) : Bool :=
  e.month.holds t.date.month && e.dayMatches t.date && e.hour.holds t.hour
    && e.minute.holds t.minute

/-- The next minute that the expression stands for, strictly after a reading of the clock. -/
def IsNextRun (now : LocalTime) (t : Minute) : Prop :=
  IsLeast {t | now.timestamp < timestamp now.utcoffset t ∧ e.matchesAt t = true} t

/-! ### What the code reads of an expression -/

/-- Whether a date belongs to the expression, as far as the code reads it. -/
def dayReads (d : Date) : Bool :=
  if e.dom.restricted && e.dow.restricted then e.dom.reads d.day || e.dow.reads d.weekday
  else e.dom.reads d.day && e.dow.reads d.weekday

/-- Whether a minute belongs to the expression, as far as the code reads it. -/
def readsAt (t : Minute) : Bool :=
  e.month.reads t.date.month && e.dayReads t.date && e.hour.reads t.hour
    && e.minute.reads t.minute

variable {e} {t : Minute}

theorem passes_specs : e.specs.passes t = e.readsAt t := by
  have hrestr : ∀ {lo hi : ℕ} (f : CronField lo hi), f.render ≠ ['*'] ↔ f.restricted = true :=
    fun f => by rw [ne_eq, f.render_eq_star_iff, Bool.not_eq_false]
  have hday : e.specs.dayOk t.date.day t.date.weekday = e.dayReads t.date := by
    have hdom := e.dom.matchesField_render t.date.one_le_day 31
    have hdow := e.dow.matchesField_render (Nat.zero_le t.date.weekday) 6
    simp only [Nat.cast_one, Nat.cast_zero] at hdom hdow
    simp only [CronSpecs.dayOk, dayReads, specs, hdom, hdow, hrestr, Bool.and_eq_true]
  have hmonth := e.month.matchesField_render t.date.one_le_month 12
  have hhour := e.hour.matchesField_render (Nat.zero_le t.hour) 23
  have hmin := e.minute.matchesField_render (Nat.zero_le t.minute) 59
  simp only [Nat.cast_one, Nat.cast_zero] at hmonth hhour hmin
  rw [CronSpecs.passes, CronSpecs.dateOk, hday]
  simp only [readsAt, specs, CronSpecs.monthOk, CronSpecs.hourOk, CronSpecs.minuteOk, hmonth,
    hhour, hmin, Bool.and_assoc]

theorem matchesAt_of_readsAt (h : e.readsAt t = true) : e.matchesAt t = true := by
  have hdow : e.dow.reads t.date.weekday = true → e.dowHolds t.date.weekday = true := fun h => by
    rw [dowHolds, CronField.holds_of_reads h, Bool.true_or]
  have hday : e.dayReads t.date = true → e.dayMatches t.date = true := by
    rw [dayReads, dayMatches]
    split_ifs with hr
    · rw [Bool.or_eq_true, Bool.or_eq_true]
      exact Or.imp CronField.holds_of_reads hdow
    · rw [Bool.and_eq_true, Bool.and_eq_true]
      exact And.imp CronField.holds_of_reads hdow
  simp only [readsAt, matchesAt, Bool.and_eq_true] at h ⊢
  obtain ⟨⟨⟨hmonth, hd⟩, hhour⟩, hmin⟩ := h
  exact ⟨⟨⟨CronField.holds_of_reads hmonth, hday hd⟩, CronField.holds_of_reads hhour⟩,
    CronField.holds_of_reads hmin⟩

end CronExpr

/-! ### The answer of the code -/

section NextRun

variable {e : CronExpr} {x : Str} {now : LocalTime}

private theorem computeNextRun_eq (hx : words (strip x) = e.fields) (later : ℤ) :
    computeNextRun x now later =
      match now.at'.addMinute.bind (e.specs.search maxIterations) with
      | some t => timestamp now.utcoffset t
      | none => oneHourFrom later := by
  rw [computeNextRun, hx]
  rfl

private theorem addMinute_le_iff {s c t : Minute} (h : s.addMinute = some c) :
    c ≤ t ↔ s < t := by
  rw [Minute.le_iff_toMinutes, Minute.lt_iff_toMinutes, Minute.toMinutes_addMinute h]
  omega

private theorem exists_addMinute {s t : Minute} (h : s < t) : ∃ c, s.addMinute = some c := by
  cases hc : s.addMinute with
  | some c => exact ⟨c, rfl⟩
  | none => exact absurd h (not_lt.mpr (Minute.le_of_addMinute_eq_none hc t))

theorem computeNextRun_eq_of_readsAt (hx : words (strip x) = e.fields) {t : Minute}
    (ht : e.IsNextRun now t) (hyear : t.date.year < maxYear) (hreads : e.readsAt t = true)
    (later : ℤ) : computeNextRun x now later = timestamp now.utcoffset t := by
  have hlt : now.at' < t := LocalTime.timestamp_lt_iff.mp ht.1.1
  obtain ⟨c, hc⟩ := exists_addMinute hlt
  have hsearch : e.specs.search maxIterations c = some t :=
    CronSpecs.search_maxIterations ((addMinute_le_iff hc).mpr hlt)
      (by rw [CronExpr.passes_specs, hreads]) hyear fun u hu hpass =>
        ht.2 ⟨LocalTime.timestamp_lt_iff.mpr ((addMinute_le_iff hc).mp hu),
          CronExpr.matchesAt_of_readsAt (by rw [← CronExpr.passes_specs, hpass])⟩
  rw [computeNextRun_eq hx, hc, Option.bind_some, hsearch]

/-- **The next run.** The answer is the next minute of the expression, whatever the later
reading of the clock, exactly when the tests of the code accept that minute. -/
theorem computeNextRun_isNextRun_iff (hx : words (strip x) = e.fields) :
    (∀ later, now.timestamp ≤ later → ∀ t, e.IsNextRun now t → t.date.year < maxYear →
      computeNextRun x now later = timestamp now.utcoffset t) ↔
    ∀ t, e.IsNextRun now t → t.date.year < maxYear → e.readsAt t = true := by
  refine ⟨fun h t ht hyear => ?_, fun h later _ t ht hyear =>
    computeNextRun_eq_of_readsAt hx ht hyear (h t ht hyear) later⟩
  -- a later reading of the clock whose fallback is not the minute `t`
  obtain ⟨later, hle, hne⟩ : ∃ later, now.timestamp ≤ later ∧
      oneHourFrom later ≠ timestamp now.utcoffset t := by
    by_cases h0 : oneHourFrom now.timestamp = timestamp now.utcoffset t
    · refine ⟨now.timestamp + 1, by omega, ?_⟩
      simp only [oneHourFrom] at h0 ⊢
      omega
    · exact ⟨now.timestamp, le_rfl, h0⟩
  have hrun := h later hle t ht hyear
  rw [computeNextRun_eq hx] at hrun
  cases hs : now.at'.addMinute.bind (e.specs.search maxIterations) with
  | none =>
    rw [hs] at hrun
    exact absurd hrun hne
  | some u =>
    rw [hs] at hrun
    obtain ⟨c, -, hc⟩ := Option.bind_eq_some_iff.mp hs
    have hut : u = t := le_antisymm (timestamp_le_iff.mp hrun.le) (timestamp_le_iff.mp hrun.ge)
    rw [← CronExpr.passes_specs, ← hut, CronSpecs.passes_of_search_eq_some hc]

end NextRun

/-! ### A minute that the code misses -/

/-- `41,40-50/5 * * * *`. -/
def listWithSteps : CronExpr where
  minute := ⟨[.num ⟨[4, 1], by decide⟩,
    .rangeStep ⟨[4, 0], by decide⟩ ⟨[5, 0], by decide⟩ ⟨[5], by decide⟩], by decide, by decide⟩
  hour := ⟨[.any], by decide, by decide⟩
  dom := ⟨[.any], by decide, by decide⟩
  month := ⟨[.any], by decide, by decide⟩
  dow := ⟨[.any], by decide, by decide⟩

/-- Minute `m` after midnight of 2024-01-01. -/
def newYearMinute (m : Fin 60) : Minute :=
  ⟨⟨2024, 1, 1, by decide, by decide, by decide, by decide, by decide, by decide⟩, 0, m,
    by decide, m.isLt⟩

def newYear : LocalTime := ⟨newYearMinute 39, 0, 0, 0, by decide, by decide⟩

private theorem isNextRun_listWithSteps :
    listWithSteps.IsNextRun newYear (newYearMinute 40) := by
  refine ⟨⟨LocalTime.timestamp_lt_iff.mpr (by decide), by decide⟩, fun t ht => ?_⟩
  have hlt := Minute.lt_iff_toMinutes.mp (LocalTime.timestamp_lt_iff.mp ht.1)
  have hmin : (newYearMinute 40).toMinutes = newYear.at'.toMinutes + 1 := by decide
  exact Minute.le_iff_toMinutes.mpr (by omega)

/-- The code answers `41,40-50/5 * * * *` at 00:39 with 00:41, not with 00:40. -/
theorem computeNextRun_late : ¬ ∀ (e : CronExpr) (x : Str) (now : LocalTime) (later : ℤ),
    words (strip x) = e.fields → now.timestamp ≤ later →
    ∀ t, e.IsNextRun now t → t.date.year < maxYear →
      computeNextRun x now later = timestamp now.utcoffset t := by
  intro h
  have hlate : computeNextRun "41,40-50/5 * * * *" newYear newYear.timestamp
      = timestamp 0 (newYearMinute 41) := by decide
  have hnext := h listWithSteps "41,40-50/5 * * * *" newYear newYear.timestamp
    (by decide) le_rfl (newYearMinute 40) isNextRun_listWithSteps (by decide)
  rw [hlate] at hnext
  exact absurd hnext (by decide)

/-- `computeNextRun_isNextRun_iff` on the text `41,40-50/5 * * * *` at 00:39. -/
theorem computeNextRun_isNextRun_iff_newYear :
    (∀ later, newYear.timestamp ≤ later → ∀ t, listWithSteps.IsNextRun newYear t →
      t.date.year < maxYear →
      computeNextRun "41,40-50/5 * * * *".toList newYear later
        = timestamp newYear.utcoffset t) ↔
    ∀ t, listWithSteps.IsNextRun newYear t → t.date.year < maxYear →
      listWithSteps.readsAt t = true :=
  computeNextRun_isNextRun_iff (by decide)

end AgentStudio.Triggers

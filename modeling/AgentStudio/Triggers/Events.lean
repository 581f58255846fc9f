import AgentStudio.Triggers.Registration

/-!
# Events for event-driven jobs

An event-driven job lies dormant until `trigger_event` arms it for the next tick, in the cron
manager of `agent_runtime/triggers.py`. Arming and disarming share the field `next_run`: the
trigger sets it to the time, and the end of an execution sets it to zero.

A `Trace` is a run that goes on forever, and `Trace.Polling` says that the poll loop never stops.
An event that finds the job not `Busy` keeps it armed until an execution begins
(`step_armed`), so it is answered (`events_answered`). An event that arrives while an execution
is in the handler or is being recorded is lost at the end of that execution (`event_lost`):
`not_events_answered` is such a trace.
-/

namespace AgentStudio.Triggers

open PyText PyDict

/-- The execution has begun and is still going to set `next_run`. -/
def Phase.begun : Phase → Bool
  | .running _ | .recording _ _ => true
  | _ => false

/-- An execution of the object has begun and is still going to set `next_run`. -/
def State.Busy (s : State) (r : Ref) : Prop := (s.runs.lookup r).any Phase.begun = true

section Steps

variable {zone : ℤ → LocalTime} {s t : State} {e : Event} {r : Ref}

/-! ### What an event does to an execution and to `next_run` -/

theorem lookup_gathered (rs : List Ref) (r : Ref) :
    (rs.map fun r => (r, Phase.due)).lookup r = if r ∈ rs then some .due else none := by
  induction rs with
  | nil => rfl
  | cons r' rs ih =>
    rw [List.map_cons, List.lookup_cons, ih]
    by_cases hr : r = r' <;> simp [hr, beq_false_of_ne]

theorem step_phase (h : step zone s e = some t) (r : Ref) :
    t.runs.lookup r = s.runs.lookup r ∨
      (∃ now, e = .started r now ∧ s.runs.lookup r = some .due) ∨
      (∃ outcome startedAt, e = .handled r outcome ∧
        s.runs.lookup r = some (.running startedAt) ∧
        t.runs.lookup r = some (.recording startedAt outcome.tokens)) ∨
      (∃ now startedAt tokens, e = .recorded r now ∧
        s.runs.lookup r = some (.recording startedAt tokens) ∧
        (t.runs.lookup r = some .saving ∨ t.runs.lookup r = some .deleting)) ∨
      (e = .written r ∧ (s.runs.lookup r = some .saving ∨ s.runs.lookup r = some .deleting) ∧
        t.runs.lookup r = none) ∨
      ∃ now, e = .tick now ∧ s.runs = [] ∧
        t.runs.lookup r = if r ∈ s.dueJobs now then some .due else none := by
  have hother : ∀ {r' : Ref} {p : Phase}, r ≠ r' →
      (setItem r' p s.runs).lookup r = s.runs.lookup r := by
    intro r' p hne
    rw [lookup_setItem, if_neg hne]
  cases e with
  | register | aregister | unregister | aunregister =>
    obtain rfl := Option.some.inj h
    exact .inl rfl
  | saved r' =>
    obtain ⟨_, rfl⟩ := step_saved.mp h
    exact .inl rfl
  | deleted jobId =>
    obtain ⟨_, rfl⟩ := step_deleted.mp h
    exact .inl rfl
  | triggerEvent jobId now =>
    obtain ⟨_, rfl⟩ | ⟨_, _, rfl⟩ := step_triggerEvent h <;> exact .inl rfl
  | tick now =>
    obtain ⟨hruns, rfl⟩ := step_tick.mp h
    exact .inr (.inr (.inr (.inr (.inr ⟨now, rfl, hruns, lookup_gathered _ r⟩))))
  | started r' now =>
    obtain ⟨hp, rfl⟩ := step_started.mp h
    by_cases hr : r = r'
    · subst hr
      exact .inr (.inl ⟨now, rfl, hp⟩)
    · exact .inl (hother hr)
  | handled r' outcome =>
    obtain ⟨startedAt, hp, rfl⟩ := step_handled h
    by_cases hr : r = r'
    · subst hr
      exact .inr (.inr (.inl ⟨outcome, startedAt, rfl, hp, by simp [State.goOn]⟩))
    · exact .inl (hother hr)
  | recorded r' now =>
    obtain ⟨startedAt, tokens, hp, rfl⟩ := step_recorded h
    by_cases hr : r = r'
    · subst hr
      refine .inr (.inr (.inr (.inl ⟨now, startedAt, tokens, rfl, hp, ?_⟩)))
      by_cases ho : (s.heap r).oneShot = true
      · rw [afterRecord_of_oneShot ho]
        exact .inr (by simp [State.goOn])
      · rw [afterRecord_of_not_oneShot ho]
        exact .inl (by simp [State.goOn])
    · refine .inl ?_
      by_cases ho : (s.heap r').oneShot = true
      · rw [afterRecord_of_oneShot ho]
        exact hother hr
      · rw [afterRecord_of_not_oneShot ho]
        exact hother hr
  | written r' =>
    have hpop : (pop r' s.runs).lookup r = if r = r' then none else s.runs.lookup r :=
      lookup_pop ..
    by_cases hr : r = r'
    · subst hr
      obtain ⟨hp, rfl⟩ | ⟨hp, rfl⟩ := step_written h
      · exact .inr (.inr (.inr (.inr (.inl ⟨rfl, .inl hp, hpop.trans (if_pos rfl)⟩))))
      · exact .inr (.inr (.inr (.inr (.inl ⟨rfl, .inr hp, hpop.trans (if_pos rfl)⟩))))
    · obtain ⟨_, rfl⟩ | ⟨_, rfl⟩ := step_written h <;> exact .inl (hpop.trans (if_neg hr))

theorem step_nextRun (he : ¬ e.Registers r.id) (h : step zone s e = some t) :
    (t.heap r).nextRun = (s.heap r).nextRun ∨
      (∃ jobId now, e = .triggerEvent jobId now ∧ s.armable jobId = some r ∧
        (t.heap r).nextRun = now) ∨
      ∃ now startedAt tokens, e = .recorded r now ∧
        s.runs.lookup r = some (.recording startedAt tokens) ∧
        t = afterRecord zone r startedAt tokens now s := by
  have hmodify : ∀ {r' : Ref} {f : CronJob → CronJob}, (r = r' → ∀ j, (f j).nextRun = j.nextRun) →
      ((s.modify r' f).heap r).nextRun = (s.heap r).nextRun := by
    intro r' f hf
    rw [State.heap_modify, Function.update_apply]
    split_ifs with hr
    · rw [hf hr, hr]
    · rfl
  have hreg : ∀ {r' : Ref} {q : Request} {now : ℤ}, e.RegistersAs r' q now → r ≠ r' := by
    rintro r' q now hr' rfl
    exact he ⟨r, q, now, hr', rfl⟩
  cases e with
  | register r' q now =>
    obtain rfl := Option.some.inj h
    exact .inl (congrArg _ (Function.update_of_ne (hreg (.inl rfl)) _ _))
  | aregister r' q now =>
    obtain rfl := Option.some.inj h
    exact .inl (congrArg _ (Function.update_of_ne (hreg (.inr rfl)) _ _))
  | unregister | aunregister =>
    obtain rfl := Option.some.inj h
    exact .inl rfl
  | saved r' =>
    obtain ⟨_, rfl⟩ := step_saved.mp h
    exact .inl rfl
  | deleted jobId =>
    obtain ⟨_, rfl⟩ := step_deleted.mp h
    exact .inl rfl
  | tick now =>
    obtain ⟨_, rfl⟩ := step_tick.mp h
    exact .inl rfl
  | written r' =>
    obtain ⟨_, rfl⟩ | ⟨_, rfl⟩ := step_written h <;> exact .inl rfl
  | triggerEvent jobId now =>
    obtain ⟨_, rfl⟩ | ⟨r', ha, rfl⟩ := step_triggerEvent h
    · exact .inl rfl
    · by_cases hr : r = r'
      · subst hr
        refine .inr (.inl ⟨jobId, now, rfl, ha, ?_⟩)
        simp [CronJob.armed]
      · refine .inl ?_
        rw [State.heap_saveJob]
        exact hmodify fun h => absurd h hr
  | started r' now =>
    obtain ⟨_, rfl⟩ := step_started.mp h
    refine .inl ?_
    rw [State.heap_goOn]
    refine hmodify fun _ j => ?_
    rw [CronJob.begun]
    split <;> rfl
  | handled r' outcome =>
    obtain ⟨_, _, rfl⟩ := step_handled h
    refine .inl ?_
    rw [State.heap_goOn]
    refine hmodify fun _ j => ?_
    cases outcome with
    | success tokens => rfl
    | noHandler => rfl
    | failed =>
      simp only [CronJob.handled, CronJob.handleRetry]
      split <;> rfl
  | recorded r' now =>
    obtain ⟨startedAt, tokens, hp, rfl⟩ := step_recorded h
    by_cases hr : r = r'
    · subst hr
      exact .inr (.inr ⟨now, startedAt, tokens, rfl, hp, rfl⟩)
    · refine .inl ?_
      by_cases ho : (s.heap r').oneShot = true
      · rw [afterRecord_of_oneShot ho, State.heap_goOn, State.heap_leave]
        exact hmodify fun h => absurd h hr
      · rw [afterRecord_of_not_oneShot ho]
        simp [Function.update_of_ne hr]

theorem step_due (hs : s.runs.lookup r = some .due) (hnot : ∀ now, e ≠ .started r now)
    (h : step zone s e = some t) : t.runs.lookup r = some .due := by
  rcases step_phase h r with hp | ⟨now, he, -⟩ | ⟨_, _, -, hp, -⟩ | ⟨_, _, _, -, hp, -⟩ |
    ⟨-, hp, -⟩ | ⟨_, -, hp, -⟩
  · rw [hp, hs]
  · exact absurd he (hnot now)
  · rw [hs] at hp
    cases hp
  · rw [hs] at hp
    cases hp
  · rw [hs] at hp
    rcases hp with hp | hp <;> cases hp
  · rw [hp] at hs
    cases hs

/-- **A job stays armed.** As long as no execution of it begins, a job that is not busy stays so,
and only another event changes its `next_run`. -/
theorem step_armed (hreg : ¬ e.Registers r.id) (hnot : ∀ now, e ≠ .started r now)
    (hs : ¬ s.Busy r) (h : step zone s e = some t) :
    ¬ t.Busy r ∧ ((t.heap r).nextRun = (s.heap r).nextRun ∨
      ∃ jobId now, e = .triggerEvent jobId now ∧ (t.heap r).nextRun = now) := by
  constructor
  · rcases step_phase h r with hp | ⟨now, he, -⟩ | ⟨_, _, -, hp, -⟩ | ⟨_, _, _, -, hp, -⟩ |
      ⟨-, -, hp⟩ | ⟨now, -, -, hp⟩
    · rwa [State.Busy, hp]
    · exact absurd he (hnot now)
    · exact absurd (by simp [State.Busy, hp, Phase.begun]) hs
    · exact absurd (by simp [State.Busy, hp, Phase.begun]) hs
    · simp [State.Busy, hp]
    · rw [State.Busy, hp]
      split_ifs <;> simp [Phase.begun]
  · rcases step_nextRun hreg h with hn | ⟨jobId, now, he, -, hn⟩ | ⟨_, _, _, -, hp, -⟩
    · exact .inl hn
    · exact .inr ⟨jobId, now, he, hn⟩
    · exact absurd (by simp [State.Busy, hp, Phase.begun]) hs

/-- No execution of the job is about to begin, nor will one be. -/
def State.Dormant (s : State) (r : Ref) : Prop :=
  s.Busy r ∨ ((s.heap r).nextRun = 0 ∧ s.runs.lookup r ≠ some .due)

private theorem nextRun_afterRecord {startedAt tokens now : ℤ}
    (hmode : (s.heap r).loopMode = .eventDriven)
    (hjobs : (afterRecord zone r startedAt tokens now s).jobs.lookup r.id = some r)
    (henabled : ((afterRecord zone r startedAt tokens now s).heap r).enabled = true) :
    ((afterRecord zone r startedAt tokens now s).heap r).nextRun = 0 := by
  by_cases ho : (s.heap r).oneShot = true
  · rw [afterRecord_of_oneShot ho] at hjobs
    simp [State.goOn, State.leave] at hjobs
  · rw [afterRecord_of_not_oneShot ho] at henabled ⊢
    simp only [State.heap_goOn, State.heap_modify, Function.update_self] at henabled ⊢
    simp only [CronJob.rescheduled] at henabled ⊢
    split at henabled
    · cases henabled
    · have hmode' : (((s.heap r).ranAt startedAt).counted tokens).loopMode = .eventDriven := hmode
      rw [if_pos hmode']

/-- An event-driven job that stays registered and enabled is dormant until the next event. -/
theorem step_dormant (hreg : ¬ e.Registers r.id) (hmode : (s.heap r).loopMode = .eventDriven)
    (hevent : ∀ jobId now, e = .triggerEvent jobId now → s.armable jobId ≠ some r)
    (hjobs : t.jobs.lookup r.id = some r) (henabled : (t.heap r).enabled = true)
    (hs : s.Dormant r) (h : step zone s e = some t) : t.Dormant r := by
  have hzero : ¬ s.Busy r → (t.heap r).nextRun = 0 := by
    intro hb
    rcases step_nextRun hreg h with hn | ⟨jobId, now, he, ha, -⟩ | ⟨_, _, _, -, hp, -⟩
    · exact hn.trans (hs.resolve_left hb).1
    · exact absurd ha (hevent jobId now he)
    · exact absurd (by simp [State.Busy, hp, Phase.begun]) hb
  rcases step_phase h r with hp | ⟨now, -, hp⟩ | ⟨_, _, -, -, hp⟩ |
    ⟨now, startedAt, tokens, rfl, hp, hp'⟩ | ⟨-, hp, hp'⟩ | ⟨now, -, hruns, hp⟩
  · by_cases hb : s.Busy r
    · exact .inl (by rwa [State.Busy, hp])
    · exact .inr ⟨hzero hb, hp ▸ (hs.resolve_left hb).2⟩
  · exact absurd hp (hs.resolve_left (by simp [State.Busy, hp, Phase.begun])).2
  · exact .inl (by simp [State.Busy, hp, Phase.begun])
  · -- the execution that is recorded disarms the job
    obtain ⟨_, _, hp₀, rfl⟩ := step_recorded h
    refine .inr ⟨nextRun_afterRecord hmode hjobs henabled, ?_⟩
    rcases hp' with hp' | hp' <;> simp [hp']
  · refine .inr ⟨hzero ?_, by simp [hp']⟩
    rcases hp with hp | hp <;> simp [State.Busy, hp, Phase.begun]
  · have hb : ¬ s.Busy r := by simp [State.Busy, hruns]
    have hdue : r ∉ s.dueJobs now := by
      simp [State.dueJobs, (hs.resolve_left hb).1]
    exact .inr ⟨hzero hb, by simp [hp, hdue]⟩

end Steps

/-! ### Traces -/

/-- A run of the manager that goes on forever. -/
structure Trace (zone : ℤ → LocalTime) where
  state : ℕ → State
  event : ℕ → Event
  start : ∃ table, state 0 = State.load table
  legal : ∀ n, step zone (state n) (event n) = some (state (n + 1))

namespace Trace

variable {zone : ℤ → LocalTime} (T : Trace zone)

/-- The poll loop never stops: time is positive, and there is always a later tick, whose reading
of the clock is not before that of any `trigger_event` until then. -/
structure Polling : Prop where
  positive : ∀ n jobId now, T.event n = .triggerEvent jobId now → 0 < now
  ticks : ∀ n, ∃ m ≥ n, ∃ now, T.event m = .tick now ∧
    ∀ k ≤ m, ∀ jobId time, T.event k = .triggerEvent jobId time → time ≤ now

/-- `trigger_event` returns `True` and arms the object. -/
def Accepts (n : ℕ) (r : Ref) : Prop :=
  ∃ jobId now, T.event n = .triggerEvent jobId now ∧ (T.state n).armable jobId = some r

/-- From a step on, the object stays registered and enabled. -/
def Stays (n : ℕ) (r : Ref) : Prop :=
  ∀ m > n, (T.state m).jobs.lookup r.id = some r ∧ ((T.state m).heap r).enabled = true ∧
    ¬ (T.event m).Registers r.id

/-- Every event for a job that stays registered and enabled is followed by an execution of it
that begins after the event. -/
def Answered : Prop :=
  ∀ n r, T.Accepts n r → T.Stays n r → ∃ m > n, ∃ now, T.event m = .started r now

variable {T} {n : ℕ} {r : Ref}

/-- As long as no execution begins, an event that found the job not busy keeps it armed, at the
time of an event until then. -/
private theorem armed_of_accepts (hpoll : T.Polling) (h : T.Accepts n r) (hstays : T.Stays n r)
    (hbusy : ¬ (T.state n).Busy r) (hnot : ∀ m > n, ∀ now, T.event m ≠ .started r now) {m : ℕ}
    (hm : n < m) :
    ¬ (T.state m).Busy r ∧ 0 < ((T.state m).heap r).nextRun ∧
      ∃ k < m, ∃ jobId, T.event k = .triggerEvent jobId ((T.state m).heap r).nextRun := by
  induction m, hm using Nat.le_induction with
  | base =>
    obtain ⟨jobId, now, he, ha⟩ := h
    obtain ⟨hnone, -⟩ | ⟨r', ha', hstate⟩ := step_triggerEvent (he ▸ T.legal n)
    · rw [ha] at hnone
      cases hnone
    · obtain rfl := Option.some.inj (ha.symm.trans ha')
      have hnext : ((T.state (n + 1)).heap r).nextRun = now := by
        rw [hstate]
        simp [CronJob.armed]
      refine ⟨by rw [hstate]; exact hbusy, ?_, n, Nat.lt_succ_self n, jobId, ?_⟩
      · rw [hnext]
        exact hpoll.positive n jobId now he
      · rw [hnext, he]
  | succ m hm ih =>
    obtain ⟨hfree, hpos, k, hk, jobId, hevent⟩ := ih
    obtain ⟨hfree', hnext | ⟨jobId', now, he, hnext⟩⟩ :=
      step_armed (hstays m hm).2.2 (hnot m hm) hfree (T.legal m)
    · rw [hnext]
      exact ⟨hfree', hpos, k, Nat.lt_succ_of_lt hk, jobId, hevent⟩
    · rw [hnext]
      exact ⟨hfree', hpoll.positive m jobId' now he, m, Nat.lt_succ_self m, jobId', he⟩

private theorem started_of_due {m l : ℕ} (hm : (T.state m).runs.lookup r = some .due)
    (hml : m ≤ l) {now : ℤ} (hl : T.event l = .tick now) :
    ∃ k ≥ m, ∃ now, T.event k = .started r now := by
  by_contra hnone
  push Not at hnone
  have hdue : (T.state l).runs.lookup r = some .due := by
    clear hl
    induction l, hml using Nat.le_induction with
    | base => exact hm
    | succ l hl ih => exact step_due ih (hnone l hl) (T.legal l)
  obtain ⟨hruns, -⟩ := step_tick.mp (hl ▸ T.legal l)
  rw [hruns] at hdue
  cases hdue

/-- **Events are answered.** If no event arrives while an execution of its job is in the handler
or is being recorded, every event is followed by an execution. -/
theorem events_answered (hpoll : T.Polling)
    (hfree : ∀ n r, T.Accepts n r → ¬ (T.state n).Busy r) : T.Answered := by
  intro n r h hstays
  by_contra hnone
  push Not at hnone
  obtain ⟨m, hm, now, htick, hclock⟩ := hpoll.ticks (n + 1)
  obtain ⟨-, hpos, k, hk, jobId, hevent⟩ :=
    armed_of_accepts hpoll h hstays (hfree n r h) hnone hm
  obtain ⟨hjobs, henabled, -⟩ := hstays m hm
  -- the tick finds the job armed and gathers it
  have hdue : r ∈ (T.state m).dueJobs now := by
    obtain ⟨l₁, l₂, hsplit, -⟩ := List.lookup_eq_some_iff.mp hjobs
    refine List.mem_filter.mpr ⟨?_, ?_⟩
    · rw [hsplit]
      simp
    · simpa [henabled, hpos] using hclock k hk.le jobId _ hevent
  have hgathered : (T.state (m + 1)).runs.lookup r = some .due := by
    obtain ⟨-, hstate⟩ := step_tick.mp (htick ▸ T.legal m)
    rw [← hstate]
    exact (lookup_gathered _ r).trans (if_pos hdue)
  obtain ⟨l, hl, now', hlater, -⟩ := hpoll.ticks (m + 1)
  obtain ⟨i, hi, time, hstart⟩ := started_of_due hgathered hl hlater
  exact hnone i (by omega) time hstart

/-- **An event is lost** if it finds its job busy and no other event for it follows. -/
theorem event_lost (h : T.Accepts n r) (hbusy : (T.state n).Busy r) (hstays : T.Stays n r)
    (hlast : ∀ m > n, ¬ T.Accepts m r) {m : ℕ} (hm : n < m) (now : ℤ) :
    T.event m ≠ .started r now := by
  have hdormant : ((T.state m).heap r).loopMode = .eventDriven ∧ (T.state m).Dormant r := by
    induction m, hm using Nat.le_induction with
    | base =>
      obtain ⟨jobId, now, he, ha⟩ := h
      have hmode := (armable_eq_some.mp ha).2.2
      obtain ⟨hnone, -⟩ | ⟨r', ha', hstate⟩ := step_triggerEvent (he ▸ T.legal n)
      · rw [ha] at hnone
        cases hnone
      · obtain rfl := Option.some.inj (ha.symm.trans ha')
        rw [hstate]
        exact ⟨by simpa [CronJob.armed] using hmode, .inl hbusy⟩
    | succ m hm ih =>
      obtain ⟨hmode, hd⟩ := ih
      obtain ⟨-, -, hreg⟩ := hstays m hm
      obtain ⟨hjobs, henabled, -⟩ := hstays (m + 1) (Nat.lt_succ_of_lt hm)
      have hdef := congrArg Definition.loopMode (step_definition hreg (T.legal m))
      refine ⟨hdef.trans hmode, ?_⟩
      exact step_dormant hreg hmode (fun jobId now he ha => hlast m hm ⟨jobId, now, he, ha⟩)
        hjobs henabled hd (T.legal m)
  intro he
  obtain ⟨hdue, -⟩ := step_started.mp (he ▸ T.legal m)
  rcases hdormant.2 with hb | ⟨-, hnot⟩
  · simp [State.Busy, hdue, Phase.begun] at hb
  · exact hnot hdue

end Trace

/-! ### An event during an execution -/

def guardRef : Ref := ⟨"guard", 1⟩

/-- The job is registered and run for an event. While it runs, a second event arrives, for the
job or for an id that is not registered. From then on there are only ticks. -/
def guardEvent (again : Bool) : ℕ → Event
  | 0 => .register guardRef (.job patrol "event_driven") 1
  | 1 => .triggerEvent guardRef.id 2
  | 2 => .tick 3
  | 3 => .started guardRef 3
  | 4 => .triggerEvent (if again then guardRef.id else []) 4
  | 5 => .handled guardRef (.success 0)
  | 6 => .recorded guardRef 5
  | 7 => .written guardRef
  | n + 8 => .tick (n + 8)

def guardState (again : Bool) : ℕ → State
  | 0 => .load []
  | n + 1 =>
    (step (fun _ => newYear) (guardState again n) (guardEvent again n)).getD (guardState again n)

private theorem guardState_add (again : Bool) (n : ℕ) :
    guardState again (n + 8) = guardState again 8 := by
  induction n with
  | zero => rfl
  | succ n ih =>
    rw [Nat.add_right_comm, guardState, ih]
    cases again <;> rfl

def guardTrace (again : Bool) : Trace fun _ => newYear where
  state := guardState again
  event := guardEvent again
  start := ⟨[], rfl⟩
  legal
    | 0 | 1 | 2 | 3 | 4 | 5 | 6 | 7 => by cases again <;> rfl
    | n + 8 => by
      rw [guardState_add again n, Nat.add_right_comm, guardState_add again (n + 1)]
      cases again <;> rfl

theorem polling_guardTrace (again : Bool) : (guardTrace again).Polling where
  positive
    | 1, _, _, h | 4, _, _, h => by
      cases h
      decide
    | 0, _, _, h | 2, _, _, h | 3, _, _, h | 5, _, _, h | 6, _, _, h | 7, _, _, h
    | _ + 8, _, _, h => by cases h
  ticks n := by
    refine ⟨n + 8, Nat.le_add_right n 8, n + 8, rfl, ?_⟩
    rintro (_ | _ | _ | _ | _ | _ | _ | _ | k) - jobId time h <;> cases h <;> omega

theorem stays_guardTrace (again : Bool) : (guardTrace again).Stays 4 guardRef
  | 5, _ | 6, _ | 7, _ => by
    refine ⟨?_, ?_, by rintro ⟨_, _, _, h | h, _⟩ <;> cases h⟩ <;> cases again <;> rfl
  | m + 8, _ => by
    refine ⟨(congrArg (·.jobs.lookup guardRef.id) (guardState_add again m)).trans ?_,
      (congrArg (fun s => (s.heap guardRef).enabled) (guardState_add again m)).trans ?_,
      by rintro ⟨_, _, _, h | h, _⟩ <;> cases h⟩ <;> cases again <;> rfl
  | 0, h | 1, h | 2, h | 3, h | 4, h => absurd h (by decide)

/-- The end of the execution loses the event that arrived while it ran. -/
theorem not_events_answered :
    ¬ ∀ (zone : ℤ → LocalTime) (T : Trace zone), T.Polling → T.Answered := by
  intro h
  have haccepts : (guardTrace true).Accepts 4 guardRef := ⟨guardRef.id, 4, rfl, by decide⟩
  obtain ⟨m, hm, now, he⟩ := h _ (guardTrace true) (polling_guardTrace true) 4 guardRef haccepts
    (stays_guardTrace true)
  refine Trace.event_lost haccepts rfl (stays_guardTrace true) ?_ hm now he
  rintro (_ | _ | _ | _ | _ | _ | _ | _ | k) hk ⟨jobId, time, h, -⟩ <;> cases h <;> omega

/-- `Trace.events_answered` on a trace in which only an event for another id arrives while the job
runs. -/
theorem events_answered_guardTrace : (guardTrace false).Answered := by
  refine Trace.events_answered (polling_guardTrace false) ?_
  rintro (_ | _ | _ | _ | _ | _ | _ | _ | k) r ⟨jobId, time, h, ha⟩ <;> cases h
  · exact Bool.false_ne_true
  · exact (Option.some_ne_none r ha.symm).elim

end AgentStudio.Triggers

import AgentStudio.Triggers.CronExpr
import AgentStudio.Triggers.CronManager

/-!
# Registrations and the table of cron jobs

What the rows of `cron_jobs` say about the registry, in the cron manager of
`agent_runtime/triggers.py`. The row of an id is `Backed` if it is the registered job, or absent
when no job is registered; while a write is in flight that will make it so, it is only
`Mending`. An execution keeps the job object that it was gathered with and writes it back at its
end, without a look at the registry, so a row can also go wrong for good (`Stale`).

`coherent_runs` is the invariant of all runs without a stale write, and
`registration_durable` reads off what it means: after an `unregister` the row is gone, and after
a `register` it holds the new definition, as soon as nothing is in flight for the id.
`not_registration_durable` is a run with a stale write: a job that is unregistered while it runs
comes back.
-/

namespace AgentStudio.Triggers

open PyText PyDict

/-! ### What the table says -/

namespace State

variable (s : State)

structure Idle (jobId : Str) : Prop where
  saves : ∀ r : Ref, r.id = jobId → r ∉ s.saves
  deletes : jobId ∉ s.deletes
  runs : ∀ r : Ref, r.id = jobId → s.runs.lookup r = none

/-- The row of an id is the registered job; without a registered job there is no row. -/
def Backed (jobId : Str) : Prop :=
  s.table.lookup jobId = (s.jobs.lookup jobId).map s.heap

/-- A write is in flight that makes the row of an id right. -/
def Mending (jobId : Str) : Prop :=
  match s.jobs.lookup jobId with
  | none => jobId ∈ s.deletes ∨ ∃ r : Ref, r.id = jobId ∧ s.runs.lookup r = some .deleting
  | some r => r ∈ s.saves ∨ ∃ p, s.runs.lookup r = some p ∧ p ≠ .deleting

/-- The objects are registered under their own ids. -/
def Keyed : Prop := ∀ (jobId : Str) (r : Ref), s.jobs.lookup jobId = some r → r.id = jobId

/-- The registry is keyed, and every row is right or will be. -/
structure Coherent : Prop where
  keyed : s.Keyed
  rows : ∀ jobId, s.Backed jobId ∨ s.Mending jobId

/-- Saving this object leaves a wrong row for good. -/
def Overwrites (r : Ref) : Prop := s.jobs.lookup r.id ≠ some r ∧ ¬ s.Mending r.id

/-- Deleting the row of this id loses it for good. -/
def Erases (jobId : Str) : Prop := s.jobs.lookup jobId ≠ none ∧ ¬ s.Mending jobId

/-- The event is a late write of a job that is not the registered one: a save of such an object,
a delete of the row of a registered job, or the end of a one-shot job under whose id another one
is registered. -/
def Stale : Event → Prop
  | .saved r => s.Overwrites r
  | .deleted jobId => s.Erases jobId
  | .recorded r _ => (s.heap r).oneShot = true ∧ ∃ r', s.jobs.lookup r.id = some r' ∧ r' ≠ r
  | .written r =>
    (s.runs.lookup r = some .saving ∧ s.Overwrites r) ∨
      (s.runs.lookup r = some .deleting ∧ s.Erases r.id)
  | _ => False

end State

def Event.about : Event → Option Str
  | .register r _ _ | .aregister r _ _ | .saved r | .started r _ | .handled r _ | .recorded r _
  | .written r => some r.id
  | .unregister jobId | .aunregister jobId | .deleted jobId | .triggerEvent jobId _ => some jobId
  | .tick _ => none

/-- The event is a call that registers an object, with a request and a reading of the clock. -/
def Event.RegistersAs (r : Ref) (q : Request) (now : ℤ) (e : Event) : Prop :=
  e = .register r q now ∨ e = .aregister r q now

/-- The event is a call that registers a job under an id. -/
def Event.Registers (jobId : Str) (e : Event) : Prop :=
  ∃ r q now, e.RegistersAs r q now ∧ r.id = jobId

def Event.Removes (jobId : Str) (e : Event) : Prop := e = .unregister jobId ∨ e = .aunregister jobId

/-- The event is the end of an execution of this object. -/
def Event.Fires (r : Ref) (e : Event) : Prop := ∃ now, e = .recorded r now

/-! ### What an event leaves alone -/

/-- Two states agree on everything under an id. -/
structure SameFor (jobId : Str) (s t : State) : Prop where
  jobs : t.jobs.lookup jobId = s.jobs.lookup jobId
  table : t.table.lookup jobId = s.table.lookup jobId
  heap : ∀ r : Ref, r.id = jobId → t.heap r = s.heap r
  runs : ∀ r : Ref, r.id = jobId → t.runs.lookup r = s.runs.lookup r
  saves : ∀ r : Ref, r.id = jobId → (r ∈ t.saves ↔ r ∈ s.saves)
  deletes : jobId ∈ t.deletes ↔ jobId ∈ s.deletes

namespace SameFor

variable {jobId other : Str} {s t u : State} {r : Ref}

theorem refl (jobId : Str) (s : State) : SameFor jobId s s :=
  ⟨rfl, rfl, fun _ _ => rfl, fun _ _ => rfl, fun _ _ => Iff.rfl, Iff.rfl⟩

theorem trans (h : SameFor jobId s t) (h' : SameFor jobId t u) : SameFor jobId s u :=
  ⟨h'.jobs.trans h.jobs, h'.table.trans h.table,
    fun r hr => (h'.heap r hr).trans (h.heap r hr),
    fun r hr => (h'.runs r hr).trans (h.runs r hr),
    fun r hr => (h'.saves r hr).trans (h.saves r hr), h'.deletes.trans h.deletes⟩

private theorem ne_of_id {r r' : Ref} (h : r.id ≠ jobId) (hr : r'.id = jobId) : r' ≠ r := by
  rintro rfl
  exact h hr

theorem modify (h : r.id ≠ jobId) (f : CronJob → CronJob) : SameFor jobId s (s.modify r f) :=
  { refl jobId s with heap := fun _ hr => Function.update_of_ne (ne_of_id h hr) _ _ }

theorem saveJob (h : r.id ≠ jobId) : SameFor jobId s (s.saveJob r) :=
  { refl jobId s with table := by simp [State.saveJob, Ne.symm h] }

theorem deleteJob (h : other ≠ jobId) : SameFor jobId s (s.deleteJob other) :=
  { refl jobId s with table := by simp [State.deleteJob, Ne.symm h] }

theorem goOn (h : r.id ≠ jobId) (p : Phase) : SameFor jobId s (s.goOn r p) :=
  { refl jobId s with runs := fun _ hr => by simp [State.goOn, ne_of_id h hr] }

theorem enter (h : r.id ≠ jobId) (j : CronJob) : SameFor jobId s (s.enter r j) :=
  { refl jobId s with
    jobs := by simp [State.enter, Ne.symm h]
    heap := fun _ hr => Function.update_of_ne (ne_of_id h hr) _ _ }

theorem leave (h : other ≠ jobId) : SameFor jobId s (s.leave other) :=
  { refl jobId s with jobs := by simp [State.leave, Ne.symm h] }

theorem finish (h : r.id ≠ jobId) : SameFor jobId s { s with runs := pop r s.runs } :=
  { refl jobId s with runs := fun _ hr => by simp [ne_of_id h hr] }

end SameFor

theorem step_sameFor {zone : ℤ → LocalTime} {s t : State} {e : Event} {jobId other : Str}
    (hs : s.Keyed) (habout : e.about = some other) (hne : other ≠ jobId)
    (h : step zone s e = some t) : SameFor jobId s t := by
  have hne_ref : ∀ {r r' : Ref}, r.id ≠ jobId → r'.id = jobId → r' ≠ r := by
    rintro r r' hr hr' rfl
    exact hr hr'
  cases e with
  | tick now => cases habout
  | register r q now =>
    obtain rfl := Option.some.inj habout
    obtain rfl := Option.some.inj h
    exact (SameFor.enter hne _).trans (.saveJob hne)
  | aregister r q now =>
    obtain rfl := Option.some.inj habout
    obtain rfl := Option.some.inj h
    refine (SameFor.enter hne (q.build zone r.id now)).trans { SameFor.refl jobId _ with
      saves := fun r' hr' => ?_ }
    simp [State.enter, hne_ref hne hr']
  | saved r =>
    obtain rfl := Option.some.inj habout
    obtain ⟨_, rfl⟩ := step_saved.mp h
    refine (SameFor.saveJob hne).trans { SameFor.refl jobId _ with saves := fun r' hr' => ?_ }
    exact List.mem_erase_of_ne (hne_ref hne hr')
  | unregister other =>
    obtain rfl := Option.some.inj habout
    obtain rfl := Option.some.inj h
    exact (SameFor.leave hne).trans (.deleteJob hne)
  | aunregister other =>
    obtain rfl := Option.some.inj habout
    obtain rfl := Option.some.inj h
    refine (SameFor.leave hne).trans { SameFor.refl jobId _ with deletes := ?_ }
    simp [State.leave, Ne.symm hne]
  | deleted other =>
    obtain rfl := Option.some.inj habout
    obtain ⟨_, rfl⟩ := step_deleted.mp h
    refine (SameFor.deleteJob hne).trans { SameFor.refl jobId _ with deletes := ?_ }
    exact List.mem_erase_of_ne (Ne.symm hne)
  | triggerEvent other now =>
    obtain rfl := Option.some.inj habout
    obtain ⟨-, rfl⟩ | ⟨r, ha, rfl⟩ := step_triggerEvent h
    · exact .refl _ _
    · have hr : r.id ≠ jobId := by rwa [hs _ _ (armable_eq_some.mp ha).1]
      exact (SameFor.modify hr _).trans (.saveJob hr)
  | started r now =>
    obtain rfl := Option.some.inj habout
    obtain ⟨_, rfl⟩ := step_started.mp h
    exact (SameFor.modify hne _).trans (.goOn hne _)
  | handled r outcome =>
    obtain rfl := Option.some.inj habout
    obtain ⟨_, _, rfl⟩ := step_handled h
    exact (SameFor.modify hne _).trans (.goOn hne _)
  | recorded r now =>
    obtain rfl := Option.some.inj habout
    obtain ⟨_, _, _, rfl⟩ := step_recorded h
    by_cases ho : (s.heap r).oneShot = true
    · rw [afterRecord_of_oneShot ho]
      exact ((SameFor.modify hne _).trans (.leave hne)).trans (.goOn hne _)
    · rw [afterRecord_of_not_oneShot ho]
      exact ((SameFor.modify hne _).trans (.modify hne _)).trans (.goOn hne _)
  | written r =>
    obtain rfl := Option.some.inj habout
    obtain ⟨_, rfl⟩ | ⟨_, rfl⟩ := step_written h
    · exact (SameFor.saveJob hne).trans (.finish hne)
    · exact (SameFor.deleteJob hne).trans (.finish hne)

/-! ### What an event does to the registry and to the definitions -/

theorem step_jobs {zone : ℤ → LocalTime} {s t : State} {e : Event} (h : step zone s e = some t) :
    t.jobs = s.jobs ∨ (∃ r q now, e.RegistersAs r q now ∧ t.jobs = setItem r.id r s.jobs) ∨
      (∃ jobId, e.Removes jobId ∧ t.jobs = pop jobId s.jobs) ∨
      ∃ r, e.Fires r ∧ (s.heap r).oneShot = true ∧ t.jobs = pop r.id s.jobs := by
  cases e with
  | register r q now =>
    obtain rfl := Option.some.inj h
    exact .inr (.inl ⟨r, q, now, .inl rfl, rfl⟩)
  | aregister r q now =>
    obtain rfl := Option.some.inj h
    exact .inr (.inl ⟨r, q, now, .inr rfl, rfl⟩)
  | unregister jobId =>
    obtain rfl := Option.some.inj h
    exact .inr (.inr (.inl ⟨jobId, .inl rfl, rfl⟩))
  | aunregister jobId =>
    obtain rfl := Option.some.inj h
    exact .inr (.inr (.inl ⟨jobId, .inr rfl, rfl⟩))
  | recorded r now =>
    obtain ⟨_, _, _, rfl⟩ := step_recorded h
    by_cases ho : (s.heap r).oneShot = true
    · rw [afterRecord_of_oneShot ho]
      exact .inr (.inr (.inr ⟨r, ⟨now, rfl⟩, ho, rfl⟩))
    · rw [afterRecord_of_not_oneShot ho]
      exact .inl rfl
  | saved r =>
    obtain ⟨_, rfl⟩ := step_saved.mp h
    exact .inl rfl
  | deleted jobId =>
    obtain ⟨_, rfl⟩ := step_deleted.mp h
    exact .inl rfl
  | triggerEvent jobId now =>
    obtain ⟨_, rfl⟩ | ⟨_, _, rfl⟩ := step_triggerEvent h <;> exact .inl rfl
  | tick now =>
    obtain ⟨_, rfl⟩ := step_tick.mp h
    exact .inl rfl
  | started r now =>
    obtain ⟨_, rfl⟩ := step_started.mp h
    exact .inl rfl
  | handled r outcome =>
    obtain ⟨_, _, rfl⟩ := step_handled h
    exact .inl rfl
  | written r =>
    obtain ⟨_, rfl⟩ | ⟨_, rfl⟩ := step_written h <;> exact .inl rfl

@[simp] theorem CronJob.toDefinition_armed (j : CronJob) (now : ℤ) :
    (j.armed now).toDefinition = j.toDefinition :=
  rfl

@[simp] theorem CronJob.toDefinition_ranAt (j : CronJob) (startedAt : ℤ) :
    (j.ranAt startedAt).toDefinition = j.toDefinition :=
  rfl

@[simp] theorem CronJob.toDefinition_begun (j : CronJob) :
    j.begun.toDefinition = j.toDefinition := by
  rw [begun]
  split <;> rfl

@[simp] theorem CronJob.toDefinition_handled (j : CronJob) (outcome : Outcome) :
    (j.handled outcome).toDefinition = j.toDefinition := by
  cases outcome with
  | success tokens => rfl
  | noHandler => rfl
  | failed =>
    simp only [handled, handleRetry]
    split <;> rfl

@[simp] theorem CronJob.toDefinition_rescheduled (zone : ℤ → LocalTime) (j : CronJob)
    (tokens now : ℤ) : (j.rescheduled zone tokens now).toDefinition = j.toDefinition := by
  simp only [rescheduled]
  split
  · rfl
  · split <;> rfl

private theorem toDefinition_modify {s : State} {r : Ref} {f : CronJob → CronJob}
    (hf : ∀ j, (f j).toDefinition = j.toDefinition) (r' : Ref) :
    ((s.modify r f).heap r').toDefinition = (s.heap r').toDefinition := by
  rw [State.heap_modify, Function.update_apply]
  split_ifs with hr
  · rw [hf, hr]
  · rfl

theorem step_definition {zone : ℤ → LocalTime} {s t : State} {e : Event} {r : Ref}
    (he : ¬ e.Registers r.id) (h : step zone s e = some t) :
    (t.heap r).toDefinition = (s.heap r).toDefinition := by
  have hreg : ∀ {r' : Ref} {q : Request} {now : ℤ}, e.RegistersAs r' q now → r ≠ r' := by
    rintro r' q now hr' rfl
    exact he ⟨r, q, now, hr', rfl⟩
  cases e with
  | register r' q now =>
    obtain rfl := Option.some.inj h
    exact congrArg _ (Function.update_of_ne (hreg (.inl rfl)) _ _)
  | aregister r' q now =>
    obtain rfl := Option.some.inj h
    exact congrArg _ (Function.update_of_ne (hreg (.inr rfl)) _ _)
  | unregister | aunregister =>
    obtain rfl := Option.some.inj h
    rfl
  | saved r =>
    obtain ⟨_, rfl⟩ := step_saved.mp h
    rfl
  | deleted jobId =>
    obtain ⟨_, rfl⟩ := step_deleted.mp h
    rfl
  | tick now =>
    obtain ⟨_, rfl⟩ := step_tick.mp h
    rfl
  | written r' =>
    obtain ⟨_, rfl⟩ | ⟨_, rfl⟩ := step_written h <;> rfl
  | triggerEvent jobId now =>
    obtain ⟨_, rfl⟩ | ⟨r', _, rfl⟩ := step_triggerEvent h
    · rfl
    · exact toDefinition_modify (fun j => j.toDefinition_armed now) r
  | started r' now =>
    obtain ⟨_, rfl⟩ := step_started.mp h
    exact toDefinition_modify CronJob.toDefinition_begun r
  | handled r' outcome =>
    obtain ⟨_, _, rfl⟩ := step_handled h
    exact toDefinition_modify (fun j => j.toDefinition_handled outcome) r
  | recorded r' now =>
    obtain ⟨startedAt, tokens, _, rfl⟩ := step_recorded h
    have hran := toDefinition_modify (s := s) (r := r') (fun j => j.toDefinition_ranAt startedAt) r
    by_cases ho : (s.heap r').oneShot = true
    · rw [afterRecord_of_oneShot ho]
      exact hran
    · rw [afterRecord_of_not_oneShot ho]
      exact (toDefinition_modify (fun j => j.toDefinition_rescheduled zone tokens now) r).trans
        hran

/-! ### The invariant -/

namespace State

variable {s t : State} {jobId : Str} {r : Ref}

theorem Backed.of_same (h : SameFor jobId s t) (hs : s.Keyed) (hb : s.Backed jobId) :
    t.Backed jobId := by
  rw [Backed, h.table, h.jobs, hb]
  cases hr : s.jobs.lookup jobId with
  | none => rfl
  | some r => exact congrArg some (h.heap r (hs _ _ hr)).symm

theorem Mending.mono (h : s.Mending jobId)
    (hjobs : t.jobs.lookup jobId = s.jobs.lookup jobId)
    (hdeletes : s.jobs.lookup jobId = none → jobId ∈ s.deletes → jobId ∈ t.deletes)
    (hdeleting : s.jobs.lookup jobId = none → ∀ r : Ref, r.id = jobId →
      s.runs.lookup r = some .deleting → t.runs.lookup r = some .deleting)
    (hsaves : ∀ r, s.jobs.lookup jobId = some r → r ∈ s.saves → r ∈ t.saves)
    (hruns : ∀ r, s.jobs.lookup jobId = some r → ∀ p, p ≠ .deleting →
      s.runs.lookup r = some p → ∃ p', t.runs.lookup r = some p' ∧ p' ≠ .deleting) :
    t.Mending jobId := by
  rw [Mending] at h ⊢
  rw [hjobs]
  cases hr : s.jobs.lookup jobId with
  | none =>
    rw [hr] at h
    rcases h with h | ⟨r, hid, hrun⟩
    · exact .inl (hdeletes hr h)
    · exact .inr ⟨r, hid, hdeleting hr r hid hrun⟩
  | some r =>
    rw [hr] at h
    rcases h with h | ⟨p, hp, hne⟩
    · exact .inl (hsaves r hr h)
    · exact .inr (hruns r hr p hne hp)

theorem Mending.of_same (h : SameFor jobId s t) (hs : s.Keyed) (hm : s.Mending jobId) :
    t.Mending jobId :=
  hm.mono h.jobs (fun _ => h.deletes.mpr) (fun _ r hid hr => (h.runs r hid).trans hr)
    (fun r hr => (h.saves r (hs _ _ hr)).mpr)
    fun r hr p hne hp => ⟨p, (h.runs r (hs _ _ hr)).trans hp, hne⟩

theorem mending_of_run {p : Phase} (hjobs : s.jobs.lookup jobId = some r)
    (hp : s.runs.lookup r = some p) (hne : p ≠ .deleting) : s.Mending jobId := by
  rw [Mending, hjobs]
  exact .inr ⟨p, hp, hne⟩

theorem Idle.backed (h : s.Idle jobId) (hs : s.Coherent) : s.Backed jobId := by
  refine (hs.rows jobId).resolve_right fun hm => ?_
  rw [Mending] at hm
  cases hr : s.jobs.lookup jobId with
  | none =>
    rw [hr] at hm
    rcases hm with hm | ⟨r, hid, hrun⟩
    · exact h.deletes hm
    · rw [h.runs r hid] at hrun
      cases hrun
  | some r =>
    rw [hr] at hm
    rcases hm with hm | ⟨p, hp, -⟩
    · exact h.saves r (hs.keyed _ _ hr) hm
    · rw [h.runs r (hs.keyed _ _ hr)] at hp
      cases hp

end State

section Steps

variable {zone : ℤ → LocalTime} {s t : State} {e : Event} {jobId : Str} {r : Ref}

private theorem rows_goOn {f : CronJob → CronJob} {p p' : Phase} (hs : s.Coherent)
    (hp : s.runs.lookup r = some p) (hne : p ≠ .deleting) (hne' : p' ≠ .deleting) :
    ((s.modify r f).goOn r p').Backed r.id ∨ ((s.modify r f).goOn r p').Mending r.id := by
  have hlookup : ∀ r', ((s.modify r f).goOn r p').runs.lookup r' =
      if r' = r then some p' else s.runs.lookup r' := fun r' => lookup_setItem ..
  by_cases hj : s.jobs.lookup r.id = some r
  · refine .inr (State.mending_of_run (p := p') hj ?_ hne')
    rw [hlookup, if_pos rfl]
  have hother : ∀ {r'}, s.jobs.lookup r.id = some r' → r' ≠ r := by
    rintro r' hr' rfl
    exact hj hr'
  refine (hs.rows r.id).imp (fun hb => ?_) fun hm => ?_
  · rw [State.Backed] at hb ⊢
    refine hb.trans ?_
    cases hr : s.jobs.lookup r.id with
    | none => simp [State.goOn, State.modify, hr]
    | some r' => simp [State.goOn, State.modify, hr, Function.update_of_ne (hother hr)]
  · refine hm.mono rfl (fun _ => id) (fun _ r' _ hd => ?_) (fun _ _ => id)
      fun r' hr' q hq hrun => ?_
    · have : r' ≠ r := by
        rintro rfl
        exact hne (Option.some.inj (hp.symm.trans hd))
      rw [hlookup, if_neg this, hd]
    · exact ⟨q, by rw [hlookup, if_neg (hother hr'), hrun], hq⟩

theorem step_rows_about (hs : s.Coherent) (he : ¬ s.Stale e) (habout : e.about = some jobId)
    (h : step zone s e = some t) : t.Backed jobId ∨ t.Mending jobId := by
  cases e with
  | tick now => cases habout
  | register r q now =>
    obtain rfl := Option.some.inj habout
    obtain rfl := Option.some.inj h
    exact .inl (by simp [State.Backed, State.enter, State.saveJob])
  | aregister r q now =>
    obtain rfl := Option.some.inj habout
    obtain rfl := Option.some.inj h
    exact .inr (by simp [State.Mending, State.enter])
  | saved r =>
    obtain rfl := Option.some.inj habout
    obtain ⟨_, rfl⟩ := step_saved.mp h
    by_cases hj : s.jobs.lookup r.id = some r
    · exact .inl (by simp [State.Backed, State.saveJob, hj])
    · have hm : s.Mending r.id := by
        by_contra hm
        exact he ⟨hj, hm⟩
      refine .inr (hm.mono rfl (fun _ => id) (fun _ _ _ => id) (fun r' hr' hsave => ?_)
        fun _ _ p hp hrun => ⟨p, hrun, hp⟩)
      refine (List.mem_erase_of_ne ?_).mpr hsave
      rintro rfl
      exact hj hr'
  | unregister other =>
    obtain rfl := Option.some.inj habout
    obtain rfl := Option.some.inj h
    exact .inl (by simp [State.Backed, State.leave, State.deleteJob])
  | aunregister other =>
    obtain rfl := Option.some.inj habout
    obtain rfl := Option.some.inj h
    exact .inr (by simp [State.Mending, State.leave])
  | deleted other =>
    obtain rfl := Option.some.inj habout
    obtain ⟨_, rfl⟩ := step_deleted.mp h
    by_cases hj : s.jobs.lookup other = none
    · exact .inl (by simp [State.Backed, State.deleteJob, hj])
    · have hm : s.Mending other := by
        by_contra hm
        exact he ⟨hj, hm⟩
      exact .inr (hm.mono rfl (fun hnone => absurd hnone hj) (fun hnone => absurd hnone hj)
        (fun _ _ => id) fun _ _ p hp hrun => ⟨p, hrun, hp⟩)
  | triggerEvent other now =>
    obtain rfl := Option.some.inj habout
    obtain ⟨-, rfl⟩ | ⟨r, ha, rfl⟩ := step_triggerEvent h
    · exact hs.rows _
    · have hj := (armable_eq_some.mp ha).1
      obtain rfl := hs.keyed _ _ hj
      exact .inl (by simp [State.Backed, State.saveJob, State.modify, hj])
  | started r now =>
    obtain rfl := Option.some.inj habout
    obtain ⟨hp, rfl⟩ := step_started.mp h
    exact rows_goOn hs hp (by simp) (by simp)
  | handled r outcome =>
    obtain rfl := Option.some.inj habout
    obtain ⟨_, hp, rfl⟩ := step_handled h
    exact rows_goOn hs hp (by simp) (by simp)
  | recorded r now =>
    obtain rfl := Option.some.inj habout
    obtain ⟨startedAt, tokens, hp, rfl⟩ := step_recorded h
    by_cases ho : (s.heap r).oneShot = true
    · rw [afterRecord_of_oneShot ho]
      refine .inr ?_
      simp only [State.Mending, State.goOn, State.leave, lookup_pop, if_true]
      exact .inr ⟨r, rfl, by simp⟩
    · have hmodify : (s.modify r (·.ranAt startedAt)).modify r (·.rescheduled zone tokens now) =
          s.modify r fun j => (j.ranAt startedAt).rescheduled zone tokens now := by
        simp [State.modify]
      rw [afterRecord_of_not_oneShot ho, hmodify]
      exact rows_goOn hs hp (by simp) (by simp)
  | written r =>
    obtain rfl := Option.some.inj habout
    have hlookup : ∀ r', (pop r s.runs).lookup r' =
        if r' = r then none else s.runs.lookup r' := fun r' => lookup_pop ..
    obtain ⟨hp, rfl⟩ | ⟨hp, rfl⟩ := step_written h
    · by_cases hj : s.jobs.lookup r.id = some r
      · exact .inl (by simp [State.Backed, State.saveJob, hj])
      · have hm : s.Mending r.id := by
          by_contra hm
          exact he (.inl ⟨hp, hj, hm⟩)
        refine .inr (hm.mono rfl (fun _ => id) (fun _ r' _ hd => ?_) (fun _ _ => id)
          fun r' hr' p hne hrun => ⟨p, ?_, hne⟩)
        · refine (hlookup r').trans ((if_neg ?_).trans hd)
          rintro rfl
          cases hp.symm.trans hd
        · refine (hlookup r').trans ((if_neg ?_).trans hrun)
          rintro rfl
          exact hj hr'
    · by_cases hj : s.jobs.lookup r.id = none
      · exact .inl (by simp [State.Backed, State.deleteJob, hj])
      · have hm : s.Mending r.id := by
          by_contra hm
          exact he (.inr ⟨hp, hj, hm⟩)
        refine .inr (hm.mono rfl (fun _ => id) (fun hnone => absurd hnone hj) (fun _ _ => id)
          fun r' hr' p hne hrun => ⟨p, ?_, hne⟩)
        refine (hlookup r').trans ((if_neg ?_).trans hrun)
        rintro rfl
        exact hne (Option.some.inj (hrun.symm.trans hp))

theorem step_keyed (hs : s.Keyed) (h : step zone s e = some t) : t.Keyed := by
  have hpop : ∀ other, t.jobs = pop other s.jobs → t.Keyed := by
    intro other hjobs jobId r hr
    rw [hjobs, lookup_pop] at hr
    split_ifs at hr
    exact hs _ _ hr
  rcases step_jobs h with hjobs | ⟨r, _, _, -, hjobs⟩ | ⟨other, -, hjobs⟩ | ⟨r, -, -, hjobs⟩
  · intro jobId r hr
    rw [hjobs] at hr
    exact hs _ _ hr
  · intro jobId r' hr
    rw [hjobs, lookup_setItem] at hr
    split_ifs at hr with hid
    · rw [← Option.some.inj hr, hid]
    · exact hs _ _ hr
  · exact hpop other hjobs
  · exact hpop r.id hjobs

/-- **One event.** An event that is not a stale write keeps every row right or on the way. -/
theorem step_coherent (hs : s.Coherent) (he : ¬ s.Stale e) (h : step zone s e = some t) :
    t.Coherent := by
  refine ⟨step_keyed hs.keyed h, fun jobId => ?_⟩
  cases habout : e.about with
  | some other =>
    by_cases hid : other = jobId
    · exact step_rows_about hs he (habout.trans (congrArg some hid)) h
    · have hsame := step_sameFor hs.keyed habout hid h
      exact (hs.rows jobId).imp (.of_same hsame hs.keyed) (.of_same hsame hs.keyed)
  | none =>
    cases e with
    | tick now =>
      -- a tick waits for the executions of the last one
      obtain ⟨hruns, rfl⟩ := step_tick.mp h
      refine (hs.rows jobId).imp id fun hm => hm.mono rfl (fun _ => id) (fun _ r _ hr => ?_)
        (fun _ _ => id) fun r _ p _ hr => ?_
      all_goals
        rw [hruns] at hr
        cases hr
    | _ => cases habout

theorem step_jobs_none (he : ¬ e.Registers jobId) (hs : s.jobs.lookup jobId = none)
    (h : step zone s e = some t) : t.jobs.lookup jobId = none := by
  rcases step_jobs h with hjobs | ⟨r, q, now, hr, hjobs⟩ | ⟨other, -, hjobs⟩ | ⟨r, -, -, hjobs⟩
  · rw [hjobs, hs]
  · have hne : jobId ≠ r.id := by
      rintro rfl
      exact he ⟨r, q, now, hr, rfl⟩
    rw [hjobs, lookup_setItem, if_neg hne, hs]
  · rw [hjobs, lookup_pop, hs, ite_self]
  · rw [hjobs, lookup_pop, hs, ite_self]

/-- An object stays registered until its id is registered or unregistered, unless it is a
one-shot job that has been run. -/
theorem step_jobs_some (hstale : ¬ s.Stale e) (hreg : ¬ e.Registers r.id)
    (hrem : ¬ e.Removes r.id) (hfire : (s.heap r).oneShot = true → ¬ e.Fires r)
    (hr : s.jobs.lookup r.id = some r) (h : step zone s e = some t) :
    t.jobs.lookup r.id = some r := by
  rcases step_jobs h with hjobs | ⟨r', q, now, hr', hjobs⟩ | ⟨other, ho, hjobs⟩ |
    ⟨r', ⟨now, rfl⟩, ho, hjobs⟩
  · rw [hjobs, hr]
  · have hne : r.id ≠ r'.id := fun hid => hreg ⟨r', q, now, hr', hid.symm⟩
    rw [hjobs, lookup_setItem, if_neg hne, hr]
  · have hne : r.id ≠ other := by
      rintro rfl
      exact hrem ho
    rw [hjobs, lookup_pop, if_neg hne, hr]
  · have hne : r.id ≠ r'.id := by
      intro hid
      have hrr : r ≠ r' := by
        rintro rfl
        exact hfire ho ⟨now, rfl⟩
      exact hstale ⟨ho, r, hid ▸ hr, hrr⟩
    rw [hjobs, lookup_pop, if_neg hne, hr]

end Steps

/-! ### Runs -/

theorem lookup_jobs_load (table : List (Str × CronJob)) (jobId : Str) :
    (State.load table).jobs.lookup jobId = (table.lookup jobId).map fun _ => ⟨jobId, 0⟩ := by
  change (table.map fun row => (row.1, (⟨row.1, 0⟩ : Ref))).lookup jobId = _
  induction table with
  | nil => rfl
  | cons row rows ih =>
    obtain ⟨key, job⟩ := row
    by_cases hk : jobId = key
    · subst hk
      simp
    · rw [List.map_cons, List.lookup_cons, List.lookup_cons, beq_false_of_ne hk]
      exact ih

theorem coherent_load (table : List (Str × CronJob)) : (State.load table).Coherent := by
  refine ⟨fun jobId r hr => ?_, fun jobId => .inl ?_⟩
  · rw [lookup_jobs_load] at hr
    obtain ⟨_, _, rfl⟩ := Option.map_eq_some_iff.mp hr
    rfl
  · rw [State.Backed, lookup_jobs_load]
    change table.lookup jobId = _
    cases hrow : table.lookup jobId with
    | none => rfl
    | some job => exact congrArg some (by simp [State.load, hrow])

variable {zone : ℤ → LocalTime} {table : List (Str × CronJob)} {es : List Event} {s : State}

theorem coherent_runs (hrun : runs zone es (.load table) = some s)
    (hfresh : Walks.Along (step zone) (fun s e => ¬ s.Stale e) es (.load table)) : s.Coherent :=
  Walks.after_invariant (I := State.Coherent) (fun _ _ _ _ hu he h => step_coherent hu he h)
    (coherent_load table) hfresh hrun

/-- What registrations and removals promise for the last state of a run, for the ids for which
nothing is in flight there: an id that was unregistered, and not registered since, has no row and
is not loaded again; an id that was registered, and neither registered nor unregistered since,
has a row with the definition it was registered with, unless it is a one-shot job that has been
run. -/
structure Durable (zone : ℤ → LocalTime) (es : List Event) (s : State) : Prop where
  gone : ∀ before e after jobId, es = before ++ e :: after → e.Removes jobId →
    (∀ x ∈ after, ¬ x.Registers jobId) → s.Idle jobId →
    s.table.lookup jobId = none ∧ (State.load s.table).jobs.lookup jobId = none
  kept : ∀ before e after r q now, es = before ++ e :: after → e.RegistersAs r q now →
    (∀ x ∈ after, ¬ x.Registers r.id ∧ ¬ x.Removes r.id ∧
      ((q.build zone r.id now).oneShot = true → ¬ x.Fires r)) → s.Idle r.id →
    ∃ row, s.table.lookup r.id = some row ∧
      row.toDefinition = (q.build zone r.id now).toDefinition

private theorem split_run {before after : List Event} {e : Event}
    (hrun : runs zone (before ++ e :: after) (.load table) = some s)
    (hfresh : Walks.Along (step zone) (fun s e => ¬ s.Stale e) (before ++ e :: after)
      (.load table)) :
    ∃ u v, u.Coherent ∧ step zone u e = some v ∧ v.Coherent ∧ runs zone after v = some s ∧
      Walks.Along (step zone) (fun s e => ¬ s.Stale e) after v := by
  obtain ⟨u, hu, hrest⟩ := Walks.after_append.mp hrun
  obtain ⟨v, hv, hlast⟩ := Option.bind_eq_some_iff.mp hrest
  have hcoh : u.Coherent := coherent_runs hu hfresh.left
  have hnext := hfresh.right hu
  exact ⟨u, v, hcoh, hv, step_coherent hcoh hnext.1 hv, hlast, hnext.2 v hv⟩

/-- **Registrations are durable in every run without a stale write.** -/
theorem registration_durable (hrun : runs zone es (.load table) = some s)
    (hfresh : Walks.Along (step zone) (fun s e => ¬ s.Stale e) es (.load table)) :
    Durable zone es s := by
  have hcoh := coherent_runs hrun hfresh
  constructor
  · rintro before e after jobId rfl he hafter hidle
    obtain ⟨u, v, -, hv, -, hlast, hfresh⟩ := split_run hrun hfresh
    -- the removal itself takes the id out of the registry
    have hnone : v.jobs.lookup jobId = none := by
      rcases he with rfl | rfl
      all_goals
        obtain rfl := Option.some.inj hv
        simp [State.leave, State.deleteJob]
    have hend : s.jobs.lookup jobId = none :=
      Walks.after_invariant (I := fun t : State => t.jobs.lookup jobId = none)
        (fun _ _ x hx ht _ h => step_jobs_none (hafter x hx) ht h) hnone hfresh hlast
    have hrow : s.table.lookup jobId = none := by rw [hidle.backed hcoh, hend, Option.map_none]
    exact ⟨hrow, by rw [lookup_jobs_load, hrow, Option.map_none]⟩
  · rintro before e after r q now rfl he hafter hidle
    obtain ⟨u, v, -, hv, -, hlast, hfresh⟩ := split_run hrun hfresh
    have hnew : v.jobs.lookup r.id = some r ∧ v.heap r = q.build zone r.id now := by
      rcases he with rfl | rfl
      all_goals
        obtain rfl := Option.some.inj hv
        simp [State.enter, State.saveJob]
    have hend : s.jobs.lookup r.id = some r ∧
        (s.heap r).toDefinition = (q.build zone r.id now).toDefinition :=
      Walks.after_invariant
        (I := fun t : State => t.jobs.lookup r.id = some r ∧
          (t.heap r).toDefinition = (q.build zone r.id now).toDefinition)
        (fun t _ x hx ht hstale h => by
          obtain ⟨hreg, hrem, hfire⟩ := hafter x hx
          have hone : (t.heap r).oneShot = (q.build zone r.id now).oneShot :=
            congrArg Definition.oneShot ht.2
          exact ⟨step_jobs_some hstale hreg hrem (fun ho => hfire (hone ▸ ho)) ht.1 h,
            (step_definition hreg h).trans ht.2⟩)
        ⟨hnew.1, congrArg _ hnew.2⟩ hfresh hlast
    refine ⟨s.heap r, ?_, hend.2⟩
    rw [hidle.backed hcoh, hend.1, Option.map_some]

/-! ### A job that is unregistered while it runs -/

/-- A job that is run again and again. -/
def patrol : CronJob :=
  { (default : CronJob) with name := "patrol", enabled := true, createdAt := 1 }

def patrolRef : Ref := ⟨"patrol", 1⟩

/-- The job is registered and an execution begins. -/
def patrolBegins : List Event :=
  [.register patrolRef (.job patrol "continuous") 1, .tick 1, .started patrolRef 1]

def patrolEnds : List Event :=
  [.handled patrolRef (.success 0), .recorded patrolRef 2, .written patrolRef]

/-- The state after a run in a new database. -/
def patrolled (es : List Event) : State :=
  (runs (fun _ => newYear) es (.load [])).getD (.load [])

/-- The execution that goes on after `unregister` writes the row of the job again. -/
theorem not_registration_durable : ¬ ∀ (zone : ℤ → LocalTime) (table : List (Str × CronJob))
    (es : List Event) (s : State), runs zone es (.load table) = some s → Durable zone es s := by
  intro h
  have hdurable := h (fun _ => newYear) []
    (patrolBegins ++ .unregister patrolRef.id :: patrolEnds)
    (patrolled (patrolBegins ++ .unregister patrolRef.id :: patrolEnds)) rfl
  have hgone := hdurable.gone _ _ _ patrolRef.id rfl (.inl rfl)
    (by simp [patrolEnds, Event.Registers, Event.RegistersAs])
    ⟨fun _ _ => List.not_mem_nil, List.not_mem_nil, fun _ _ => rfl⟩
  exact absurd hgone.1 (by decide)

/-- `registration_durable` on a run in which the row that the execution writes is deleted by the
thread of `aunregister`. -/
theorem registration_durable_patrol :
    let es := patrolBegins ++ .aunregister patrolRef.id ::
      (patrolEnds ++ [.deleted patrolRef.id])
    Durable (fun _ => newYear) es (patrolled es) := by
  have hcons := @Walks.Along.cons _ _ (step fun _ => newYear) fun s e => ¬ s.Stale e
  refine @registration_durable _ [] _ _ rfl (hcons id rfl <| hcons id rfl <| hcons id rfl <|
    hcons id rfl <| hcons id rfl <| hcons (fun h => ?_) rfl <| hcons ?_ rfl <|
    hcons (fun h => h.1 rfl) rfl trivial)
  · exact absurd h.1 (by decide)
  · rintro (⟨-, -, hm⟩ | ⟨hd, -⟩)
    · exact hm (.inl (List.mem_singleton_self _))
    · cases hd

end AgentStudio.Triggers

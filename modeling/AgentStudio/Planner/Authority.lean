import AgentStudio.Planner.Engine

/-!
# What a plan may execute

A step should be completed only in a plan that has been approved, and has not been rejected or
cancelled since (`standing`), and only when each of its dependencies is a step of the plan that is
completed or skipped (`DepsDone`). `Engine.Lawful` says so of every call of `execute_step` that
completes a step.

`execute_step` looks at the status of the step only, so a step of a plan that waits for approval can
be executed, and it passes over a dependency that names no step. `Agrees` is the invariant that
relates the status of a plan to the last decision about it, and `lawful_iff` shows that these two
are the only ways to complete a step which should not be.

`orderly_run` is about the decisions: in every run each follows on one that admits it, and a plan
that is rejected or cancelled completes no step.
-/

namespace AgentStudio.Planner

open PyText PyDict Machine

/-! ### Conditions on a call -/

/-- The last decision about a plan. -/
def standing (planId : Str) : List Entry → Option Decision
  | [] => none
  | .decided id d :: record => if id = planId then some d else standing planId record
  | .call _ _ _ :: record => standing planId record

/-- The dependencies of a step that the plan has are done. -/
def ExecutionPlan.Unblocked (p : ExecutionPlan) (step : PlanStep) : Prop :=
  ∀ d ∈ step.dependencies, ∀ s, p.findStep d = some s → s.Done

/-- Each dependency of a step is a step of the plan that is done. -/
def ExecutionPlan.DepsDone (p : ExecutionPlan) (step : PlanStep) : Prop :=
  ∀ d ∈ step.dependencies, ∃ s ∈ p.steps, s.id = d ∧ s.Done

/-- Each dependency of a step is a step of the plan. -/
def ExecutionPlan.DepsNamed (p : ExecutionPlan) (step : PlanStep) : Prop :=
  ∀ d ∈ step.dependencies, d ∈ p.steps.map PlanStep.id

/-- The call of `execute_step` completes a step. -/
def ExecutionPlan.Completes (p : ExecutionPlan) (step : PlanStep) : Prop :=
  step.status ≠ .completed ∧ (p.outcome step).status = .completed

/-- Every call that completes a step is of an approved plan, and the dependencies are done. -/
def Engine.Lawful (s : Engine) : Prop :=
  ∀ planId p stepId record, .call planId p stepId :: record <:+ s.record →
    ∀ step, p.findStep stepId = some step → p.Completes step →
      standing planId record = some .approved ∧ p.DepsDone step

/-- The calls of a step that can be executed and is not blocked are of a plan that does not wait
for approval, and the plan has the dependencies. -/
def Engine.CallsApproved (s : Engine) : Prop :=
  ∀ planId p stepId, .call planId p stepId ∈ s.record →
    ∀ step, p.findStep stepId = some step → step.Executable → p.Unblocked step →
      p.status ≠ .pendingApproval ∧ p.DepsNamed step

variable {p p' : ExecutionPlan} {step : PlanStep} {planId stepId : Str} {s : Engine}

/-! ### The steps of a plan -/

theorem findStep_eq_some (h : p.findStep stepId = some step) : step ∈ p.steps ∧ step.id = stepId :=
  ⟨List.mem_of_find?_eq_some h, by simpa using List.find?_some h⟩

theorem exists_findStep (h : stepId ∈ p.steps.map PlanStep.id) :
    ∃ step, p.findStep stepId = some step := by
  obtain ⟨s, hs, rfl⟩ := List.mem_map.mp h
  exact Option.isSome_iff_exists.mp (List.find?_isSome.mpr ⟨s, hs, decide_eq_true rfl⟩)

theorem find_replaceStep (stepId d : Str) (new : PlanStep) (hnew : new.id = stepId)
    (steps : List PlanStep) :
    (replaceStep stepId (fun _ => new) steps).find? (·.id = d) =
      if d = stepId then (steps.find? (·.id = d)).map fun _ => new
      else steps.find? (·.id = d) := by
  induction steps with
  | nil => simp [replaceStep]
  | cons s steps ih =>
    by_cases hs : s.id = stepId
    · by_cases hd : d = stepId
      · simp [replaceStep, hs, hd, hnew]
      · simp [replaceStep, hs, hd, hnew, Ne.symm hd]
    · by_cases hd : s.id = d
      · have : d ≠ stepId := fun h => hs (hd.trans h)
        simp [replaceStep, hd, this]
      · simp only [replaceStep, hs, hd, if_false, decide_false, Bool.false_eq_true,
          not_false_eq_true, List.find?_cons_of_neg, ih]

theorem mem_replaceStep {new x : PlanStep} {steps : List PlanStep}
    (h : x ∈ replaceStep stepId (fun _ => new) steps) : x = new ∨ x ∈ steps := by
  induction steps with
  | nil => exact absurd h List.not_mem_nil
  | cons s steps ih =>
    rw [replaceStep] at h
    split_ifs at h with hs
    · exact (List.mem_cons.mp h).imp_right (List.mem_cons_of_mem s)
    · rcases List.mem_cons.mp h with rfl | h
      · exact Or.inr List.mem_cons_self
      · exact (ih h).imp_right (List.mem_cons_of_mem s)

/-! ### What a call does -/

theorem blocker_eq_none_iff {deps : List Str} :
    p.blocker deps = none ↔ ∀ d ∈ deps, ∀ s, p.findStep d = some s → s.Done := by
  induction deps with
  | nil => simp [ExecutionPlan.blocker]
  | cons d deps ih =>
    rw [ExecutionPlan.blocker, List.forall_mem_cons, ← ih]
    cases p.findStep d with
    | none => simp
    | some s => by_cases hs : s.Done <;> simp [hs]

theorem perform_status (s : PlanStep) : s.perform.status = .completed := by
  obtain ⟨id, description, files, action, complexity, deps, status, diff, result, target⟩ := s
  cases action <;> rfl

/-- While a step is executed it is found under its id with the status `executing`, and the other
steps as before; so it is blocked exactly if it would have been before. -/
theorem unblocked_executing (hstep : p.findStep step.id = some step) (hexec : step.Executable) :
    (p.setStep step.id fun _ => step.begin).blocker step.dependencies = none ↔
      p.Unblocked step := by
  have hnot : ¬ step.Done := by
    rintro (h | h) <;> rcases hexec with h' | h' <;> exact absurd (h.symm.trans h') (by decide)
  rw [blocker_eq_none_iff]
  refine forall₂_congr fun d _ => ?_
  have hfind : (p.setStep step.id fun _ => step.begin).findStep d =
      if d = step.id then (p.findStep d).map fun _ => step.begin else p.findStep d :=
    find_replaceStep step.id d step.begin rfl p.steps
  by_cases hd : d = step.id
  · subst hd
    rw [hfind, if_pos rfl, hstep]
    constructor
    · intro h
      rcases h _ rfl with h | h <;> cases h
    · intro h
      exact absurd (h _ rfl) hnot
  · rw [hfind, if_neg hd]

theorem completes_iff (hstep : p.findStep step.id = some step) :
    p.Completes step ↔ step.Executable ∧ p.Unblocked step := by
  unfold ExecutionPlan.Completes ExecutionPlan.outcome
  by_cases hexec : step.Executable
  · have hne : step.status ≠ .completed := by
      rcases hexec with h | h <;> rw [h] <;> decide
    rw [if_pos hexec, and_iff_right hne, and_iff_right hexec, ← unblocked_executing hstep hexec]
    split
    next depId depStep hblocked =>
      rw [hblocked]
      exact iff_of_false (fun h => by cases h) (Option.some_ne_none _)
    next hfree => exact iff_of_true (perform_status _) hfree
  · rw [if_neg hexec]
    exact iff_of_false (fun h => h.1 h.2) fun h => hexec h.1

/-! ### The status of a plan and the decisions about it -/

/-- The status of a plan is what the last decision about it lets it be. -/
def ExecutionPlan.Agrees (p : ExecutionPlan) : Option Decision → Prop
  | none => False
  | some .created => p.status = .pendingApproval
  | some .approved => p.status = .approved ∨ p.status = .executing ∨ p.status = .completed
  | some .rejected => p.status = .rejected ∧ ∀ s ∈ p.steps, ¬ s.Executable
  | some .cancelled => p.status = .rejected ∧ ∀ s ∈ p.steps, ¬ s.Executable

theorem not_executable_skip (s : PlanStep) : ¬ s.skip.Executable := by
  unfold PlanStep.skip
  split_ifs with h
  · rintro (h | h) <;> cases h
  · exact h

theorem agrees_newPlan (autoVerify : Bool) (id task : Str) (drafts : List Draft) (now : ℕ) :
    (newPlan autoVerify id task drafts now).Agrees (some .created) := rfl

theorem approve_eq_some (h : p.approve = some p') :
    p'.status = .approved ∧ p'.steps = p.steps.map PlanStep.approve := by
  unfold ExecutionPlan.approve at h
  split_ifs at h
  rw [← Option.some.inj h]
  exact ⟨rfl, rfl⟩

theorem reject_eq_some {reason : Str} (h : p.reject reason = some p') :
    p'.status = .rejected ∧ p'.steps = p.steps.map PlanStep.skip := by
  unfold ExecutionPlan.reject at h
  split_ifs at h <;> rw [← Option.some.inj h] <;> exact ⟨rfl, rfl⟩

theorem cancel_eq_some (h : p.cancel = some p') :
    p'.status = .rejected ∧ p'.steps = p.steps.map PlanStep.skip := by
  unfold ExecutionPlan.cancel at h
  split_ifs at h
  rw [← Option.some.inj h]
  exact ⟨rfl, rfl⟩

theorem agrees_approve (h : p.approve = some p') : p'.Agrees (some .approved) :=
  Or.inl (approve_eq_some h).1

theorem not_executable_of_skip (h : p'.steps = p.steps.map PlanStep.skip) :
    ∀ s ∈ p'.steps, ¬ s.Executable := by
  rw [h]
  exact List.forall_mem_map.mpr fun s _ => not_executable_skip s

theorem agrees_reject {reason : Str} (h : p.reject reason = some p') :
    p'.Agrees (some .rejected) :=
  ⟨(reject_eq_some h).1, not_executable_of_skip (reject_eq_some h).2⟩

theorem agrees_cancel (h : p.cancel = some p') : p'.Agrees (some .cancelled) :=
  ⟨(cancel_eq_some h).1, not_executable_of_skip (cancel_eq_some h).2⟩

variable {st : Option Decision} {record : List Entry}

theorem agrees_setStep (h : p.Agrees st) (hstep : p.findStep stepId = some step) :
    (p.setStep stepId fun _ => p.outcome step).Agrees st := by
  have hrejected : (∀ s ∈ p.steps, ¬ s.Executable) →
      ∀ s ∈ replaceStep stepId (fun _ => p.outcome step) p.steps, ¬ s.Executable := by
    intro hnone s hs
    rcases mem_replaceStep hs with rfl | hs
    · have hno := hnone step (findStep_eq_some hstep).1
      rwa [ExecutionPlan.outcome, if_neg hno]
    · exact hnone s hs
  rcases st with - | (- | - | - | -)
  · exact h
  · exact h
  · exact h
  · exact ⟨h.1, hrejected h.2⟩
  · exact ⟨h.1, hrejected h.2⟩

theorem agrees_executeStep (h : p.Agrees st) (hp : p.executeStep stepId = .ok (step, p')) :
    p'.Agrees st := by
  unfold ExecutionPlan.executeStep at hp
  split at hp
  · cases hp
  next found hfound =>
    cases hp
    exact agrees_setStep h hfound

/-- The plan of every call in a pass, and the plan that the pass leaves, agree with what the plan
agreed with before: every call is one `execute_step`. -/
theorem agrees_executeFrom (is : List ℕ) (h : p.Agrees st) :
    (ExecutionPlan.executeFrom is p).plan.Agrees st ∧
      ∀ c ∈ (ExecutionPlan.executeFrom is p).calls, c.1.Agrees st := by
  induction is generalizing p with
  | nil => exact ⟨h, List.forall_mem_nil _⟩
  | cons i is ih =>
    unfold ExecutionPlan.executeFrom
    split
    · exact ⟨h, List.forall_mem_nil _⟩
    next found hfound =>
      split_ifs
      · exact ih h
      · exact ih h
      · have hcall : ∀ c ∈ [(p, found.id)], c.1.Agrees st := by
          intro c hc
          rw [List.mem_singleton.mp hc]
          exact h
        split
        · exact ⟨h, hcall⟩
        next result p' hp' =>
          split_ifs
          · exact ⟨agrees_executeStep h hp', hcall⟩
          · obtain ⟨hplan, hcalls⟩ := ih (agrees_executeStep h hp')
            refine ⟨hplan, fun c hc => ?_⟩
            exact (List.mem_append.mp hc).elim (hcalls c) (hcall c)

theorem agrees_executing (h : p.Agrees st)
    (hstatus : p.status = .approved ∨ p.status = .executing) :
    st = some .approved ∧ { p with status := .executing }.Agrees st := by
  have hne : p.status ≠ .pendingApproval ∧ p.status ≠ .rejected := by
    rcases hstatus with hs | hs <;> rw [hs] <;> decide
  rcases st with - | (- | - | - | -)
  · exact h.elim
  · exact absurd h hne.1
  · exact ⟨rfl, Or.inr (Or.inl rfl)⟩
  · exact absurd h.1 hne.2
  · exact absurd h.1 hne.2

theorem finished_eq_ok {pass : Pass} (hp : pass.finished = .ok p) :
    p = pass.plan ∨ p = { pass.plan with status := .completed } := by
  obtain ⟨plan, calls, allCompleted⟩ := pass
  rcases allCompleted with e | allCompleted
  · cases hp
  · have hp : (if allCompleted && plan.steps.all fun s => decide s.Done then
        { plan with status := .completed } else plan) = p := Except.ok.inj hp
    split_ifs at hp
    · exact Or.inr hp.symm
    · exact Or.inl hp.symm

theorem agrees_finished {pass : Pass} (h : pass.plan.Agrees (some .approved))
    (hp : pass.finished = .ok p) : p.Agrees (some .approved) := by
  rcases finished_eq_ok hp with rfl | rfl
  · exact h
  · exact Or.inr (Or.inr rfl)

/-! ### The invariant of the engine -/

/-- The plans of the engine, and the plans of the recorded calls, agree with the decisions made
up to then. -/
structure Engine.Coherent (s : Engine) : Prop where
  plans : ∀ planId p, s.plans.lookup planId = some p → p.Agrees (standing planId s.record)
  calls : ∀ planId p stepId record, .call planId p stepId :: record <:+ s.record →
    p.Agrees (standing planId record)

theorem standing_calls (planId id : Str) (calls : List (ExecutionPlan × Str))
    (record : List Entry) :
    standing planId (calls.map (fun c => Entry.call id c.1 c.2) ++ record) =
      standing planId record := by
  induction calls with
  | nil => rfl
  | cons c calls ih => exact ih

theorem Engine.Coherent.decided (hs : s.Coherent) {d : Decision} (h : p.Agrees (some d)) :
    (s.put planId p [.decided planId d]).Coherent where
  plans := by
    intro id q hq
    have hlookup : (setItem planId p s.plans).lookup id = some q := hq
    rw [lookup_setItem] at hlookup
    change q.Agrees (if planId = id then some d else standing id s.record)
    split_ifs at hlookup with hid
    · rw [if_pos hid.symm, ← Option.some.inj hlookup]
      exact h
    · rw [if_neg (Ne.symm hid)]
      exact hs.plans id q hlookup
  calls := by
    intro id q stepId record hq
    rcases List.suffix_cons_iff.mp hq with hq | hq
    · cases hq
    · exact hs.calls id q stepId record hq

theorem Engine.Coherent.called (hs : s.Coherent) (calls : List (ExecutionPlan × Str))
    (h : p.Agrees (standing planId s.record))
    (hcalls : ∀ c ∈ calls, c.1.Agrees (standing planId s.record)) :
    (s.put planId p (calls.map fun c => Entry.call planId c.1 c.2)).Coherent where
  plans := by
    intro id q hq
    have hlookup : (setItem planId p s.plans).lookup id = some q := hq
    have hstanding := standing_calls id planId calls s.record
    rw [lookup_setItem] at hlookup
    change q.Agrees (standing id (_ ++ s.record))
    rw [hstanding]
    split_ifs at hlookup with hid
    · rw [← Option.some.inj hlookup, hid]
      exact h
    · exact hs.plans id q hlookup
  calls := by
    intro id q stepId record hq
    change _ <:+ calls.map (fun c => Entry.call planId c.1 c.2) ++ s.record at hq
    induction calls with
    | nil => exact hs.calls id q stepId record hq
    | cons c calls ih =>
      rcases List.suffix_cons_iff.mp hq with hq | hq
      · obtain ⟨hc, rfl⟩ := List.cons.inj hq
        cases hc
        have hstanding := standing_calls planId planId calls s.record
        exact hstanding.symm ▸ hcalls c List.mem_cons_self
      · exact ih (fun c hc => hcalls c (List.mem_cons_of_mem _ hc)) hq

theorem coherent_decideOn {d : Decision} {f : ExecutionPlan → Option ExecutionPlan}
    (hf : ∀ p p', f p = some p' → p'.Agrees (some d)) (planId : Str) (hs : s.Coherent) :
    (s.decideOn planId d f).2.Coherent := by
  unfold Engine.decideOn
  split
  · exact hs
  next p' hp' =>
    obtain ⟨p, -, hp⟩ := Option.bind_eq_some_iff.mp hp'
    exact hs.decided (hf p p' hp)

theorem coherent_executeStep (planId stepId : Str) (hs : s.Coherent) :
    (s.executeStep planId stepId).2.Coherent := by
  unfold Engine.executeStep
  split
  · exact hs
  next p hp =>
    have hagrees := hs.plans planId p hp
    have hcall : ∀ c ∈ [(p, stepId)], c.1.Agrees (standing planId s.record) := by
      intro c hc
      rw [List.mem_singleton.mp hc]
      exact hagrees
    split
    · exact hs.called [(p, stepId)] hagrees hcall
    next result p' hp' =>
      exact hs.called [(p, stepId)] (agrees_executeStep hagrees hp') hcall

theorem coherent_executePlan (planId : Str) (hs : s.Coherent) :
    (s.executePlan planId).2.Coherent := by
  unfold Engine.executePlan
  split
  · exact hs
  next p hp =>
    split_ifs with hstatus
    · obtain ⟨hstanding, hexecuting⟩ := agrees_executing (hs.plans planId p hp) hstatus
      obtain ⟨hplan, hcalls⟩ :=
        agrees_executeFrom (List.range p.steps.length) hexecuting
      dsimp only
      split
      · exact hs.called p.pass.calls hplan hcalls
      next p' hp' =>
        refine hs.called p.pass.calls ?_ hcalls
        rw [hstanding] at hplan ⊢
        exact agrees_finished hplan hp'
    · exact hs

theorem coherent_operate (op : Op) (s : Engine) (hs : s.Coherent) : (operate op s).2.Coherent := by
  cases op with
  | createPlan planId task drafts now =>
    exact hs.decided (agrees_newPlan s.autoVerify planId task drafts now)
  | approvePlan planId => exact coherent_decideOn (fun _ _ => agrees_approve) planId hs
  | rejectPlan planId reason => exact coherent_decideOn (fun _ _ => agrees_reject) planId hs
  | cancelPlan planId => exact coherent_decideOn (fun _ _ => agrees_cancel) planId hs
  | executeStep planId stepId => exact coherent_executeStep planId stepId hs
  | executePlan planId => exact coherent_executePlan planId hs

theorem coherent_run (autoVerify : Bool) (ops : List Op) :
    (run operate ops { autoVerify }).2.Coherent :=
  run_invariant_always coherent_operate ops
    { plans := fun _ _ h => absurd h (Option.some_ne_none _).symm
      calls := fun _ _ _ _ h => absurd h (by simp) }

/-! ### Lawful calls -/

theorem approved_iff (h : p.Agrees st) (hstep : step ∈ p.steps) (hexec : step.Executable) :
    st = some .approved ↔ p.status ≠ .pendingApproval := by
  rcases st with - | (- | - | - | -)
  · exact h.elim
  · exact iff_of_false (by simp) fun hne => hne h
  · refine iff_of_true rfl ?_
    rcases h with h | h | h <;> rw [h] <;> decide
  · exact absurd hexec (h.2 step hstep)
  · exact absurd hexec (h.2 step hstep)

theorem depsDone_iff (h : p.Unblocked step) : p.DepsDone step ↔ p.DepsNamed step := by
  constructor
  · intro hdone d hd
    obtain ⟨s, hs, hid, -⟩ := hdone d hd
    exact List.mem_map.mpr ⟨s, hs, hid⟩
  · intro hnamed d hd
    obtain ⟨s, hs⟩ := exists_findStep (hnamed d hd)
    exact ⟨s, (findStep_eq_some hs).1, (findStep_eq_some hs).2, h d hd s hs⟩

/-- One call: it is lawful exactly if the plan does not wait for approval and has the
dependencies, where the step can be executed and is not blocked. -/
theorem lawful_call_iff (h : p.Agrees st) (hstep : p.findStep stepId = some step) :
    (p.Completes step → st = some .approved ∧ p.DepsDone step) ↔
      (step.Executable → p.Unblocked step → p.status ≠ .pendingApproval ∧ p.DepsNamed step) := by
  obtain ⟨hmem, rfl⟩ := findStep_eq_some hstep
  rw [completes_iff hstep, and_imp]
  refine forall_congr' fun hexec => forall_congr' fun hfree => ?_
  rw [approved_iff h hmem hexec, depsDone_iff hfree]

theorem lawful_iff_callsApproved (hs : s.Coherent) : s.Lawful ↔ s.CallsApproved := by
  constructor
  · intro h planId p stepId hcall step hstep
    obtain ⟨later, record, hrecord⟩ := List.append_of_mem hcall
    have hsuffix : Entry.call planId p stepId :: record <:+ s.record := ⟨later, hrecord.symm⟩
    exact (lawful_call_iff (hs.calls _ _ _ _ hsuffix) hstep).mp (h _ _ _ _ hsuffix step hstep)
  · intro h planId p stepId record hsuffix step hstep
    have hcall : Entry.call planId p stepId ∈ s.record := hsuffix.subset List.mem_cons_self
    exact (lawful_call_iff (hs.calls _ _ _ _ hsuffix) hstep).mpr (h _ _ _ hcall step hstep)

/-- In every run, steps are completed only in plans that are approved, with all dependencies done,
exactly if the calls that complete a step are of plans that do not wait for approval and have all
dependencies of the step. -/
theorem completes_lawfully_iff (autoVerify : Bool) (ops : List Op) :
    (run operate ops { autoVerify }).2.Lawful ↔ (run operate ops { autoVerify }).2.CallsApproved :=
  lawful_iff_callsApproved (coherent_run autoVerify ops)

/-- A plan with one step, which nobody has approved. -/
def stubPlan : ExecutionPlan := newPlan false [] [] (generateStepsStub [] []) 0

/-- The step of a plan that waits for approval is executed when a client asks for it. -/
theorem not_completes_lawfully : ¬ (run operate
    [.createPlan [] [] (generateStepsStub [] []) 0, .executeStep [] "step_1".toList]
    { autoVerify := false }).2.Lawful := by
  intro h
  have hcall := h [] stubPlan "step_1" [.decided [] .created] (List.suffix_refl _) _ rfl
    ⟨by decide, by decide⟩
  exact absurd hcall.1 (by decide)

/-! ### The life of a plan -/

def Decision.Follows (d : Decision) (st : Option Decision) : Prop :=
  match d with
  | .created => True
  | .approved | .rejected => st = some .created
  | .cancelled => st = some .created ∨ st = some .approved

/-- Every decision follows on the one that stood, so that a rejected or cancelled plan is never
approved, and no call completes a step of such a plan. -/
structure Engine.Orderly (s : Engine) : Prop where
  decisions : ∀ planId d record, .decided planId d :: record <:+ s.record →
    d.Follows (standing planId record)
  calls : ∀ planId p stepId record, .call planId p stepId :: record <:+ s.record →
    standing planId record = some .rejected ∨ standing planId record = some .cancelled →
      ∀ step, p.findStep stepId = some step → ¬ p.Completes step

/-- What an operation adds to the record: a decision that may follow, or calls. -/
inductive Records (s s' : Engine) : Prop
  | decided (planId : Str) (d : Decision) (h : s'.record = .decided planId d :: s.record)
      (hd : d.Follows (standing planId s.record))
  | called (planId : Str) (calls : List (ExecutionPlan × Str))
      (h : s'.record = calls.map (fun c => Entry.call planId c.1 c.2) ++ s.record)

theorem eq_created {st : Option Decision} (h : p.Agrees st)
    (hp : p.status = .pendingApproval ∨ p.status = .draft) :
    st = some .created := by
  rcases st with - | (- | - | - | -)
  · exact h.elim
  · rfl
  · rcases h with h | h | h <;> simp [h] at hp
  · simp [h.1] at hp
  · simp [h.1] at hp

theorem records_decideOn (hs : s.Coherent) {d : Decision}
    {f : ExecutionPlan → Option ExecutionPlan} (planId : Str)
    (hf : ∀ p st p', p.Agrees st → f p = some p' → d.Follows st) :
    Records s (s.decideOn planId d f).2 := by
  unfold Engine.decideOn
  cases hp : (s.plans.lookup planId).bind f with
  | none => exact .called planId [] rfl
  | some p' =>
    obtain ⟨p, hp, hfp⟩ := Option.bind_eq_some_iff.mp hp
    exact .decided planId d rfl (hf p _ p' (hs.plans planId p hp) hfp)

theorem records_operate (op : Op) (hs : s.Coherent) : Records s (operate op s).2 := by
  cases op with
  | createPlan planId task drafts now => exact .decided planId .created rfl trivial
  | approvePlan planId =>
    refine records_decideOn hs planId fun p st p' hp hf => ?_
    unfold ExecutionPlan.approve at hf
    split_ifs at hf with hstatus
    exact eq_created hp (.inl hstatus)
  | rejectPlan planId reason =>
    refine records_decideOn hs planId fun p st p' hp hf => ?_
    unfold ExecutionPlan.reject at hf
    split_ifs at hf with hstatus <;> exact eq_created hp hstatus
  | cancelPlan planId =>
    refine records_decideOn hs planId fun p st p' hp hf => ?_
    unfold ExecutionPlan.cancel at hf
    split_ifs at hf with hstatus
    rcases st with - | (- | - | - | -)
    · exact hp.elim
    · exact .inl rfl
    · exact .inr rfl
    · exact absurd (.inr hp.1) hstatus
    · exact absurd (.inr hp.1) hstatus
  | executeStep planId stepId =>
    change Records s (s.executeStep planId stepId).2
    unfold Engine.executeStep
    split
    · exact .called planId [] rfl
    next p hp => split <;> exact .called planId [(p, stepId)] rfl
  | executePlan planId =>
    change Records s (s.executePlan planId).2
    unfold Engine.executePlan
    split
    · exact .called planId [] rfl
    next p hp =>
      split_ifs
      · dsimp only
        split <;> exact .called planId p.pass.calls rfl
      · exact .called planId [] rfl

theorem Records.decisions {s' : Engine} (h : Records s s')
    (hs : ∀ planId d record, .decided planId d :: record <:+ s.record →
      d.Follows (standing planId record)) (planId : Str) (d : Decision) (record : List Entry)
    (hd : .decided planId d :: record <:+ s'.record) : d.Follows (standing planId record) := by
  cases h with
  | decided planId' d' hrecord hfollows =>
    rcases List.suffix_cons_iff.mp (hrecord ▸ hd) with heq | hd
    · obtain ⟨hentry, rfl⟩ := List.cons.inj heq
      cases hentry
      exact hfollows
    · exact hs planId d record hd
  | called planId' calls hrecord =>
    rw [hrecord] at hd
    clear hrecord
    induction calls with
    | nil => exact hs planId d record hd
    | cons c calls ih =>
      rcases List.suffix_cons_iff.mp hd with heq | hd
      · cases (List.cons.inj heq).1
      · exact ih hd

/-- **The life of a plan**, in every sequence of operations. -/
theorem orderly_run (autoVerify : Bool) (ops : List Op) :
    (run operate ops { autoVerify }).2.Orderly where
  decisions := by
    have hstep (op : Op) (s : Engine) (hs : s.Coherent ∧ ∀ planId d record,
        .decided planId d :: record <:+ s.record → d.Follows (standing planId record)) :
        (operate op s).2.Coherent ∧ ∀ planId d record,
          .decided planId d :: record <:+ (operate op s).2.record →
            d.Follows (standing planId record) :=
      ⟨coherent_operate op s hs.1, (records_operate op hs.1).decisions hs.2⟩
    refine (run_invariant_always hstep ops ⟨coherent_run autoVerify [], ?_⟩).2
    exact fun _ _ _ h => absurd (List.suffix_nil.mp h) (List.cons_ne_nil _ _)
  calls planId p stepId record h hdead step hstep hdone := by
    have hagrees := (coherent_run autoVerify ops).calls _ _ _ _ h
    obtain ⟨hmem, rfl⟩ := findStep_eq_some hstep
    have hexec := ((completes_iff hstep).mp hdone).1
    rcases hdead with hst | hst <;> exact (hst ▸ hagrees).2 step hmem hexec

end AgentStudio.Planner

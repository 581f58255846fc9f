import AgentStudio.Library.Dict
import AgentStudio.Library.Machine
import AgentStudio.Library.Text

/-!
# The planner

`PlannerEngine` of `agent_runtime/planner.py`. A plan is a list of steps with a status for the plan
and one for each step: `approve`, `reject` and `cancel` move both, `executeStep` looks at the status
of the step and at its dependencies, and `executePlan` goes through the steps from the first to the
last. The fields have the types that the dataclasses declare, so the texts of a result can always
be joined.

`operate` is one call of the engine. The engine keeps a record beside its plans: what has been
decided about a plan, and each call of `execute_step` with the plan as it is then, whether a client
makes the call or `execute_plan` does. No operation reads the record.
-/

namespace AgentStudio.Planner

open PyText PyDict

/-! ### Plans -/

/-- `VALID_ACTIONS`, and the action of the steps that verify another one. -/
inductive Action where
  | create
  | modify
  | delete
  | verify
deriving DecidableEq

def Action.text : Action → Str
  | .create => "create"
  | .modify => "modify"
  | .delete => "delete"
  | .verify => "verify"

/-- `VALID_COMPLEXITIES`, and the values of `VALID_RISKS`. -/
inductive Level where
  | low
  | medium
  | high
deriving DecidableEq

/-- `VALID_STEP_STATUSES`. -/
inductive StepStatus where
  | pending
  | approved
  | executing
  | completed
  | failed
  | skipped
deriving DecidableEq

def StepStatus.text : StepStatus → Str
  | .pending => "pending"
  | .approved => "approved"
  | .executing => "executing"
  | .completed => "completed"
  | .failed => "failed"
  | .skipped => "skipped"

/-- `VALID_PLAN_STATUSES`. -/
inductive PlanStatus where
  | draft
  | pendingApproval
  | approved
  | executing
  | completed
  | rejected
deriving DecidableEq

def PlanStatus.text : PlanStatus → Str
  | .draft => "draft"
  | .pendingApproval => "pending_approval"
  | .approved => "approved"
  | .executing => "executing"
  | .completed => "completed"
  | .rejected => "rejected"

/-- `PlanStep`; the metadata of a step is the step that it verifies, if any. -/
structure PlanStep where
  id : Str
  description : Str
  targetFiles : List Str
  action : Action
  estimatedComplexity : Level
  dependencies : List Str
  status : StepStatus := .pending
  diffPreview : Str := []
  result : Str := []
  verifyTargetStep : Option Str := none

/-- `ExecutionPlan`, with the two entries that its metadata can have. -/
structure ExecutionPlan where
  id : Str
  task : Str
  steps : List PlanStep
  createdAt : ℕ
  status : PlanStatus := .draft
  overallRisk : Level := .low
  rejectionReason : Option Str := none
  cancelled : Bool := false

def PlanStep.Executable (s : PlanStep) : Prop := s.status = .approved ∨ s.status = .pending

instance (s : PlanStep) : Decidable s.Executable :=
  inferInstanceAs (Decidable (s.status = .approved ∨ s.status = .pending))

def PlanStep.Done (s : PlanStep) : Prop := s.status = .completed ∨ s.status = .skipped

instance (s : PlanStep) : Decidable s.Done :=
  inferInstanceAs (Decidable (s.status = .completed ∨ s.status = .skipped))

/-- A step that the planner is asked to make, before it has a status. -/
structure Draft where
  id : Str
  description : Str
  targetFiles : List Str
  action : Action
  estimatedComplexity : Level
  dependencies : List Str

def Draft.toStep (d : Draft) : PlanStep where
  id := d.id
  description := d.description
  targetFiles := d.targetFiles
  action := d.action
  estimatedComplexity := d.estimatedComplexity
  dependencies := d.dependencies

/-! ### Making a plan -/

/-- `_generate_steps_stub`. -/
def generateStepsStub (task : Str) (files : List Str) : List Draft :=
  [{ id := "step_1"
     description := "Implement: " ++ task
     targetFiles := if files = [] then ["unknown_file"] else files
     action := .modify
     estimatedComplexity := .medium
     dependencies := [] }]

/-- `_assess_risk`. -/
def assessRisk (steps : List PlanStep) : Level :=
  if steps.any (·.action = .delete) then .high
  else if 3 < ((steps.filter (·.action = .modify)).flatMap PlanStep.targetFiles).dedup.length then
    .medium
  else .low

def verifyStep (step : PlanStep) : PlanStep where
  id := "verify_" ++ step.id
  description := "Verify: " ++ step.description
  targetFiles := step.targetFiles
  action := .verify
  estimatedComplexity := .low
  dependencies := [step.id]
  verifyTargetStep := some step.id

/-- `_generate_verify_steps`. -/
def generateVerifySteps (steps : List PlanStep) : List PlanStep :=
  (steps.filter fun s => s.action = .create ∨ s.action = .modify).map verifyStep

/-- The plan that `create_plan` registers. -/
def newPlan (autoVerify : Bool) (id task : Str) (drafts : List Draft) (now : ℕ) : ExecutionPlan :=
  let steps := drafts.map Draft.toStep
  { id, task, createdAt := now, status := .pendingApproval, overallRisk := assessRisk steps
    steps := if autoVerify then steps ++ generateVerifySteps steps else steps }

/-! ### Deciding about a plan -/

def PlanStep.skip (s : PlanStep) : PlanStep :=
  if s.Executable then { s with status := .skipped } else s

def PlanStep.approve (s : PlanStep) : PlanStep :=
  if s.status = .pending then { s with status := .approved } else s

/-- `approve_plan`, where it does not return `False`. -/
def ExecutionPlan.approve (p : ExecutionPlan) : Option ExecutionPlan :=
  if p.status = .pendingApproval then
    some { p with status := .approved, steps := p.steps.map PlanStep.approve }
  else none

/-- `reject_plan`, where it does not return `False`. -/
def ExecutionPlan.reject (p : ExecutionPlan) (reason : Str) : Option ExecutionPlan :=
  if p.status = .pendingApproval ∨ p.status = .draft then
    some { p with
      status := .rejected
      rejectionReason := if reason = [] then p.rejectionReason else some reason
      steps := p.steps.map PlanStep.skip }
  else none

/-- `cancel_plan`, where it does not return `False`. -/
def ExecutionPlan.cancel (p : ExecutionPlan) : Option ExecutionPlan :=
  if p.status = .completed ∨ p.status = .rejected then none
  else some { p with status := .rejected, cancelled := true, steps := p.steps.map PlanStep.skip }

/-! ### Executing a step -/

def ExecutionPlan.findStep (p : ExecutionPlan) (stepId : Str) : Option PlanStep :=
  p.steps.find? (·.id = stepId)

def replaceStep (stepId : Str) (f : PlanStep → PlanStep) : List PlanStep → List PlanStep
  | [] => []
  | s :: steps => if s.id = stepId then f s :: steps else s :: replaceStep stepId f steps

/-- The first step with an id changes in the plan. -/
def ExecutionPlan.setStep (p : ExecutionPlan) (stepId : Str) (f : PlanStep → PlanStep) :
    ExecutionPlan :=
  { p with steps := replaceStep stepId f p.steps }

/-- `", ".join(step.target_files)`. -/
def joinFiles (files : List Str) : Str := ", ".toList.intercalate files

/-- The first dependency that names a step which is not done, with that step. -/
def ExecutionPlan.blocker (p : ExecutionPlan) : List Str → Option (Str × PlanStep)
  | [] => none
  | depId :: deps =>
    match p.findStep depId with
    | some depStep => if depStep.Done then p.blocker deps else some (depId, depStep)
    | none => p.blocker deps

/-- What a step with a dependency that is not done becomes. -/
def PlanStep.fail (s : PlanStep) (depId : Str) (depStep : PlanStep) : PlanStep :=
  { s with
    status := .failed
    result := "Dependency " ++ depId ++ " not completed (status=" ++
      depStep.status.text ++ ")" }

def PlanStep.perform (s : PlanStep) : PlanStep :=
  let files := joinFiles s.targetFiles
  match s.action with
  | .modify =>
    { s with
      status := .completed
      diffPreview := "--- " ++ files ++ "\n+++ " ++ files ++
        "\n# pending code patch generation"
      result := "Step '" ++ s.description ++ "' executed successfully" }
  | .create => { s with status := .completed, result := "Files created: " ++ files }
  | .delete => { s with status := .completed, result := "Files deleted: " ++ files }
  | .verify =>
    { s with status := .completed, result := "Unknown action: " ++ s.action.text }

def PlanStep.begin (s : PlanStep) : PlanStep := { s with status := .executing }

/-- What `execute_step` makes of a step that it finds. The dependencies are looked at when the
status of the step is `executing` already, so that a step which depends on itself is blocked. -/
def ExecutionPlan.outcome (p : ExecutionPlan) (step : PlanStep) : PlanStep :=
  if step.Executable then
    match (p.setStep step.id fun _ => step.begin).blocker step.dependencies with
    | some (depId, depStep) => step.begin.fail depId depStep
    | none => step.begin.perform
  else step

inductive PlannerError where
  | planNotFound (planId : Str)
  | stepNotFound (stepId planId : Str)
  | cannotExecute (planId : Str) (status : PlanStatus)
deriving DecidableEq

def PlannerError.message : PlannerError → Str
  | .planNotFound planId => "Plan " ++ planId ++ " not found"
  | .stepNotFound stepId planId =>
    "Step " ++ stepId ++ " not found in plan " ++ planId
  | .cannotExecute planId status =>
    "Plan " ++ planId ++ " status=" ++ status.text ++ ", cannot execute"

/-- `execute_step`, from where the plan is found: the step that it returns, and the plan. -/
def ExecutionPlan.executeStep (p : ExecutionPlan) (stepId : Str) :
    Except PlannerError (PlanStep × ExecutionPlan) :=
  match p.findStep stepId with
  | none => .error (.stepNotFound stepId p.id)
  | some step => .ok (p.outcome step, p.setStep stepId fun _ => p.outcome step)

/-! ### Executing a plan -/

/-- A pass of `execute_plan` over steps of a plan: the plan that it leaves, the calls of
`execute_step` that it makes with the plan before each, the last one first, and its result. -/
structure Pass where
  plan : ExecutionPlan
  calls : List (ExecutionPlan × Str) := []
  allCompleted : Except PlannerError Bool := .ok true

/-- The loop of `execute_plan`, over the positions of the steps that are left. -/
def ExecutionPlan.executeFrom : List ℕ → ExecutionPlan → Pass
  | [], p => { plan := p }
  | i :: is, p =>
    match p.steps[i]? with
    | none => { plan := p }
    | some step =>
      if step.Done then executeFrom is p
      else if step.status = .failed then
        let rest := executeFrom is p
        { rest with allCompleted := rest.allCompleted.map fun _ => false }
      else
        match p.executeStep step.id with
        | .error e => { plan := p, calls := [(p, step.id)], allCompleted := .error e }
        | .ok (result, p') =>
          if result.status = .failed then
            { plan := p', calls := [(p, step.id)], allCompleted := .ok false }
          else
            let rest := executeFrom is p'
            { rest with calls := rest.calls ++ [(p, step.id)] }

/-- The end of `execute_plan`. -/
def Pass.finished (pass : Pass) : Except PlannerError ExecutionPlan :=
  pass.allCompleted.map fun allCompleted =>
    if allCompleted && pass.plan.steps.all fun s => decide s.Done then
      { pass.plan with status := .completed }
    else pass.plan

/-- The pass of `execute_plan` over all steps of the plan. -/
def ExecutionPlan.pass (p : ExecutionPlan) : Pass :=
  executeFrom (List.range p.steps.length) { p with status := .executing }

/-! ### The engine -/

inductive Decision where
  | created
  | approved
  | rejected
  | cancelled
deriving DecidableEq

/-- An entry of the record: a decision about a plan, or a call of `execute_step` that finds its
plan. -/
inductive Entry where
  | decided (planId : Str) (d : Decision)
  | call (planId : Str) (plan : ExecutionPlan) (stepId : Str)

/-- `PlannerEngine`, with its record, the last entry first. -/
structure Engine where
  autoVerify : Bool
  plans : List (Str × ExecutionPlan) := []
  record : List Entry := []

/-- The operations of the engine; `createPlan` has the identifier and the time that it takes, and
the steps that the model or the stub comes up with. -/
inductive Op where
  | createPlan (planId task : Str) (drafts : List Draft) (now : ℕ)
  | approvePlan (planId : Str)
  | rejectPlan (planId reason : Str)
  | cancelPlan (planId : Str)
  | executeStep (planId stepId : Str)
  | executePlan (planId : Str)

inductive Reply where
  | plan (p : ExecutionPlan)
  | flag (b : Bool)
  | step (s : PlanStep)
  | raised (e : PlannerError)

/-- A plan is stored, and the record grows. -/
def Engine.put (s : Engine) (planId : Str) (p : ExecutionPlan) (entries : List Entry) : Engine :=
  { s with plans := setItem planId p s.plans, record := entries ++ s.record }

def Engine.decideOn (s : Engine) (planId : Str) (d : Decision)
    (f : ExecutionPlan → Option ExecutionPlan) : Reply × Engine :=
  match (s.plans.lookup planId).bind f with
  | none => (.flag false, s)
  | some p => (.flag true, s.put planId p [.decided planId d])

/-- `execute_step`. -/
def Engine.executeStep (s : Engine) (planId stepId : Str) : Reply × Engine :=
  match s.plans.lookup planId with
  | none => (.raised (.planNotFound planId), s)
  | some p =>
    match p.executeStep stepId with
    | .error e => (.raised e, s.put planId p [.call planId p stepId])
    | .ok (step, p') => (.step step, s.put planId p' [.call planId p stepId])

/-- `execute_plan`. -/
def Engine.executePlan (s : Engine) (planId : Str) : Reply × Engine :=
  match s.plans.lookup planId with
  | none => (.raised (.planNotFound planId), s)
  | some p =>
    if p.status = .approved ∨ p.status = .executing then
      let calls := p.pass.calls.map fun c => Entry.call planId c.1 c.2
      match p.pass.finished with
      | .error e => (.raised e, s.put planId p.pass.plan calls)
      | .ok p' => (.plan p', s.put planId p' calls)
    else (.raised (.cannotExecute planId p.status), s)

def operate : Op → Engine → Reply × Engine
  | .createPlan planId task drafts now, s =>
    let p := newPlan s.autoVerify planId task drafts now
    (.plan p, s.put planId p [.decided planId .created])
  | .approvePlan planId, s => s.decideOn planId .approved ExecutionPlan.approve
  | .rejectPlan planId reason, s => s.decideOn planId .rejected (·.reject reason)
  | .cancelPlan planId, s => s.decideOn planId .cancelled ExecutionPlan.cancel
  | .executeStep planId stepId, s => s.executeStep planId stepId
  | .executePlan planId, s => s.executePlan planId

end AgentStudio.Planner

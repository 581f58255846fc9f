import AgentStudio.Runtime.Policy

/-!
# Waiting for an approval

`_await_safety_approval` in `agent_runtime/_runtime_safety.py`: what a verdict of the safety
gateway and the confirmation policy of a graph make of a call. The flow ends with an error, or
the call goes on. It goes on without a question when the policy decides so, or when neither the
verdict nor the policy asks; else it asks and waits for `approve_action` or `reject_action`
(`Ask`).

`raised_awaitSafetyApproval` says when the flow ends with an error, and
`approved_awaitSafetyApproval` when it has asked and got an approval.
-/

namespace AgentStudio.Runtime

open PyText PyJson

/-! ### Verdicts -/

/-- `SafetyAction`. -/
inductive SafetyAction where
  | allow
  | preview
  | block
  | redact
deriving DecidableEq

/-- `SafetyVerdict`, with the entries of `metadata` that the flow reads. -/
structure SafetyVerdict where
  action : SafetyAction
  reason : Str := []
  requiresApproval : Bool := false
  actionId : Str := []
  level : Option Str := none
  diffPreview : Option Json := none

/-- What the policy of a graph says about a call. -/
structure PolicyMeta where
  tier : Tier
  risk : Risk
  decision : Decision

/-! ### Events -/

/-- The events of the flow and of its callers, with the metadata of each: `SAFETY_APPROVAL` in
its four actions, `SAFETY_TIMEOUT`, `TOOL_RESULT` and `ERROR`. -/
inductive Event where
  /-- a question; its `stop_reason` is `"pause_turn"` -/
  | pendingApproval (content category nodeId actionId level : Str) (diffPreview : Option Json)
      (policy : Option PolicyMeta)
  | approved (content category nodeId : Str) (actionId path : Option Str)
      (policy : Option PolicyMeta)
  | rejected (content category nodeId actionId : Str)
  | blocked (content category nodeId : Str) (path : Option Str)
  | safetyTimeout (content category nodeId actionId disposition : Str)
  | toolResult (content name nodeId : Str)
  | error (content nodeId : Str)

def Event.isError : Event → Bool
  | .error _ _ => true
  | _ => false

def Event.asksFor : Event → Option Str
  | .pendingApproval _ _ _ actionId _ _ _ => some actionId
  | _ => none

/-- The events of a flow, and what it sets `ctx.error` to. -/
structure Passage where
  events : List Event
  error : Str := []

/-- The consumer of the events stops at an error. -/
def Passage.raised (p : Passage) : Bool := p.events.any Event.isError

/-! ### The operator -/

/-- A call of `approve_action` or `reject_action`. With a gateway it is taken when the guard
confirms it and the action is pending. -/
structure Command where
  approve : Bool
  actionId : Str
  taken : Bool

/-- What a question meets: the id that a verdict without one gets, the calls that arrive before
the timeout, and `FUSION_SAFETY_TIMEOUT_DISPOSITION`. -/
structure Ask where
  freshId : Str
  commands : List Command := []
  disposition : Str := "reject"

inductive Resolution where
  | approved
  | rejected
  | timeout
deriving DecidableEq

namespace Ask

variable (ask : Ask)

/-- The first call for an action that is taken resolves its future. -/
def resolution (actionId : Str) : Resolution :=
  match ask.commands.find? fun c => c.actionId = actionId && c.taken with
  | some c => if c.approve then .approved else .rejected
  | none => .timeout

/-- `os.environ.get(…).strip().lower()`. -/
def timeoutDisposition : Str := lowerAll (strip ask.disposition)

/-- An explicit approval: `approve_action`, or a timeout with the disposition `"approve"`. -/
def Grants (actionId : Str) : Prop :=
  ask.resolution actionId = .approved ∨
    ask.resolution actionId = .timeout ∧ ask.timeoutDisposition = "approve"

instance (actionId : Str) : Decidable (ask.Grants actionId) :=
  inferInstanceAs (Decidable (_ ∨ _))

/-- Among the events is a question that gets an explicit approval. -/
def Approves (events : List Event) : Prop :=
  ∃ e ∈ events, ∃ actionId, e.asksFor = some actionId ∧ ask.Grants actionId

end Ask

/-! ### The flow -/

/-- `s or default`. -/
def orText (s default : Str) : Str := if s = [] then default else s

def rejectedText (category reason : Str) : Str :=
  "SafetyGateway: " ++ category ++ " rejected — " ++ reason

def timedOutText (category : Str) : Str :=
  "SafetyGateway: approval timed out for " ++ category

/-- The question of the flow: it is pending until the future of the action is resolved. -/
def awaitFuture (policyMeta : Option PolicyMeta) (v : SafetyVerdict) (category nodeLabel : Str)
    (ask : Ask) : Passage :=
  let actionId := orText v.actionId ask.freshId
  let pending := Event.pendingApproval v.reason category nodeLabel actionId (v.level.getD [])
    v.diffPreview policyMeta
  let timedOut := Event.safetyTimeout ("Safety approval timed out for " ++ category)
    category nodeLabel actionId ask.timeoutDisposition
  let approved := Event.approved (orText v.reason "approved") category nodeLabel
    (some actionId) none none
  match ask.resolution actionId with
  | .approved => ⟨[pending, approved], []⟩
  | .rejected =>
    ⟨[pending, .rejected v.reason category nodeLabel actionId,
      .error (rejectedText category v.reason) []], rejectedText category v.reason⟩
  | .timeout =>
    if ask.timeoutDisposition = "approve" then ⟨[pending, timedOut, approved], []⟩
    else ⟨[pending, timedOut, .error (timedOutText category) []], timedOutText category⟩

section

variable (isAlnum : Char → Bool) (policy : Option ConfirmationPolicy) (toolName : Str)
  (params : Dict)

/-- `_confirmation_policy_meta`. -/
def confirmationPolicyMeta : Option PolicyMeta :=
  policy.map fun p =>
    let risk := scoreToolRisk isAlnum toolName params none
    ⟨p.effectiveTier toolName, risk, p.decision risk toolName⟩

def policyDecision : Option Decision :=
  (confirmationPolicyMeta isAlnum policy toolName params).map PolicyMeta.decision

def PolicyMeta.reason (m : PolicyMeta) (action : Str) : Str :=
  "confirmation policy tier '" ++ m.tier.toStr ++ "' requires approval for "
    ++ action ++ " (risk " ++ m.risk.text ++ ")"

/-- `_policy_escalation_verdict`. -/
def policyEscalationVerdict : Option SafetyVerdict :=
  match confirmationPolicyMeta isAlnum policy toolName params with
  | some m =>
    if m.decision = .confirm then
      some { action := .preview, reason := m.reason toolName, requiresApproval := true,
             level := some "L2" }
    else none
  | none => none

/-- `_await_safety_approval`. -/
def awaitSafetyApproval (v : SafetyVerdict) (category nodeLabel : Str) (ask : Ask) : Passage :=
  match confirmationPolicyMeta isAlnum policy toolName params with
  | none =>
    if v.requiresApproval then awaitFuture none v category nodeLabel ask
    else ⟨[.approved (orText v.reason "approved") category nodeLabel none none none], []⟩
  | some m =>
    match m.decision with
    | .auto =>
      ⟨[.approved (orText v.reason "auto-approved by confirmation policy") category
        nodeLabel none none (some m)], []⟩
    | .confirm =>
      -- where only the policy asks, the pending card says what it asks about
      let v := if v.requiresApproval then v
        else { v with reason := m.reason (orText toolName category), requiresApproval := true }
      awaitFuture (some m) v category nodeLabel ask

end

/-! ### What the flow does -/

section

variable {isAlnum : Char → Bool} {policy : Option ConfirmationPolicy} {toolName : Str}
  {params : Dict} {policyMeta : Option PolicyMeta} {v : SafetyVerdict} {category nodeLabel : Str}
  {ask : Ask}

theorem rejectedText_ne_nil (category reason : Str) : rejectedText category reason ≠ [] :=
  List.cons_ne_nil _ _

theorem timedOutText_ne_nil (category : Str) : timedOutText category ≠ [] :=
  List.cons_ne_nil _ _

/-- **The question.** It ends without an error if and only if it gets an explicit approval. -/
theorem awaitFuture_spec :
    let p := awaitFuture policyMeta v category nodeLabel ask
    (p.error = [] ↔ p.raised = false) ∧ (p.raised = false ↔ ask.Approves p.events) := by
  simp only [awaitFuture, Ask.Approves, Ask.Grants]
  cases h : ask.resolution (orText v.actionId ask.freshId) with
  | approved => simp [Passage.raised, Event.isError, Event.asksFor, h]
  | rejected =>
    simp [Passage.raised, Event.isError, Event.asksFor, h, rejectedText_ne_nil]
  | timeout =>
    by_cases hd : ask.timeoutDisposition = "approve"
    · simp only [if_pos hd]
      simp [Passage.raised, Event.isError, Event.asksFor, h, hd]
    · simp only [if_neg hd]
      simpa [Passage.raised, Event.isError, Event.asksFor, h, timedOutText_ne_nil] using hd

/-- The flow asks when the policy does, or when there is no policy and the verdict does. -/
def Asks (decision : Option Decision) (v : SafetyVerdict) : Prop :=
  decision = some .confirm ∨ decision = none ∧ v.requiresApproval = true

theorem error_awaitSafetyApproval :
    (awaitSafetyApproval isAlnum policy toolName params v category nodeLabel ask).error = [] ↔
      (awaitSafetyApproval isAlnum policy toolName params v category nodeLabel ask).raised
        = false := by
  simp only [awaitSafetyApproval]
  cases confirmationPolicyMeta isAlnum policy toolName params with
  | none =>
    by_cases hv : v.requiresApproval = true
    · simpa only [if_pos hv] using awaitFuture_spec.1
    · simp [hv, Passage.raised, Event.isError]
  | some m =>
    cases hm : m.decision with
    | auto => simp [hm, Passage.raised, Event.isError]
    | confirm => simpa only [hm] using awaitFuture_spec.1

/-- **The flow.** Where it asks, an explicit approval decides; else the call goes on without
one. -/
theorem awaitSafetyApproval_spec :
    let p := awaitSafetyApproval isAlnum policy toolName params v category nodeLabel ask
    let asks := Asks (policyDecision isAlnum policy toolName params) v
    (asks → (p.raised = false ↔ ask.Approves p.events)) ∧
      (¬ asks → p.raised = false ∧ ¬ ask.Approves p.events) := by
  simp only [awaitSafetyApproval, policyDecision, Asks]
  cases confirmationPolicyMeta isAlnum policy toolName params with
  | none =>
    by_cases hv : v.requiresApproval = true
    · simpa [hv] using awaitFuture_spec.2
    · simp [hv, Passage.raised, Event.isError, Ask.Approves, Event.asksFor]
  | some m =>
    cases hm : m.decision with
    | auto => simp [hm, Passage.raised, Event.isError, Ask.Approves, Event.asksFor]
    | confirm => simpa [hm] using awaitFuture_spec.2

end

end AgentStudio.Runtime

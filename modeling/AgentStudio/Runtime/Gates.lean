import AgentStudio.Runtime.Approval

/-!
# Safety gates

The places in `agent_runtime/_runtime_nodes.py` and `_runtime_dynamic_tools.py` where a verdict
of the safety gateway stands before an LLM call or a tool call. The two LLM gates look at the
verdict and wait for an approval. The tool gates go through the tool funnel, which returns the
verdict with its outcome (`FunnelOutcome`); the sequential ones are admitted a second time after
an approval, the self-repair goes on without that, and the others cannot wait. A dynamic tool
looks at its own verdict.

`onlyApproved_iff` is about a verdict that blocks: at which gates, and under which policies, a
call passes only with an explicit approval.
-/

namespace AgentStudio.Runtime

open PyText PyJson

/-! ### Outcomes -/

/-- `FunnelOutcome`, what the tool funnel makes of a call. -/
structure FunnelOutcome where
  allowed : Bool
  needsApproval : Bool := false
  blockedBy : Str := []
  reason : Str := []
  args : Dict := Dict.empty
  safetyResult : Option SafetyVerdict := none
  escalation : Option SafetyVerdict := none

/-- The funnel lets no call through that the gateway blocks, and leaves it to an approval if the
verdict does. -/
def FunnelOutcome.RespectsBlock (o : FunnelOutcome) : Prop :=
  ∀ v, o.safetyResult = some v → v.action = .block →
    o.allowed = false ∧ o.needsApproval = v.requiresApproval

/-- What a gate does: its events, `ctx.error` after it, the text that is returned in place of a
result, and what a call that passes is made with. -/
structure Gate (α : Type) where
  events : List Event
  error : Str
  denial : Str := []
  passed : Option α := none

def Gate.forget {α : Type} (gate : Gate α) : Gate Unit :=
  { gate with passed := gate.passed.map fun _ => () }

/-- `"tool_call"`. -/
def toolCallCategory : Str := "tool_call"

/-- `"llm_call"`. -/
def llmCallCategory : Str := "llm_call"

/-- `"self_repair"`. -/
def selfRepairPath : Str := "self_repair"

section

variable (isAlnum : Char → Bool) (policy : Option ConfirmationPolicy) (nodeLabel ctxError : Str)

/-! ### LLM calls -/

def llmGate (blockedText blockedNodeId : Str) (path : Option Str) (v : SafetyVerdict) (ask : Ask) :
    Gate Unit :=
  if v.action = .block ∧ v.requiresApproval = false then
    { events := [.blocked v.reason llmCallCategory blockedNodeId path,
        .error (blockedText ++ v.reason) blockedNodeId]
      error := blockedText ++ v.reason }
  else
    let p := awaitSafetyApproval isAlnum policy [] Dict.empty v llmCallCategory nodeLabel ask
    if p.raised then { events := p.events, error := p.error }
    else { events := p.events, error := ctxError, passed := some () }

/-- The LLM call of `_execute_llm_node`. -/
def llmCallGate (v : SafetyVerdict) (ask : Ask) : Gate Unit :=
  llmGate isAlnum policy nodeLabel ctxError "SafetyGateway blocked LLM call: " [] none v ask

def selfRepairLlmGate (v : SafetyVerdict) (ask : Ask) : Gate Unit :=
  llmGate isAlnum policy nodeLabel ctxError "SafetyGateway blocked self-repair LLM call: "
    nodeLabel (some selfRepairPath) v ask

/-! ### Tool calls -/

def deniedText (o : FunnelOutcome) : Str :=
  let reason := orText o.reason "denied"
  if o.blockedBy = "safety" then "SafetyGateway blocked tool call: " ++ reason
  else if o.blockedBy = "hook" then "Blocked by hook: " ++ reason
  else if o.blockedBy = "permission" then "Permission denied tool call: " ++ reason
  else "Blocked by " ++ o.blockedBy ++ ": " ++ reason

/-- The event of a call that the gateway blocks in the funnel. -/
def blockedEvents (o : FunnelOutcome) (nodeId : Str) (path : Option Str) : List Event :=
  if o.blockedBy = "safety" then
    [.blocked (orText o.reason "denied") toolCallCategory nodeId path]
  else []

/-- The event of a call that the gateway lets through in the funnel. -/
def approvedEvents (o : FunnelOutcome) (nodeId : Str) (path : Option Str) : List Event :=
  if o.safetyResult.isSome then
    [.approved (orText o.reason "approved") toolCallCategory nodeId none path none]
  else []

variable (toolName : Str) (params : Dict)

/-- The text of a call that needs an approval that nobody can give. -/
def noBackendText (o : FunnelOutcome) : Str :=
  "Error: tool '" ++ toolName ++ "' requires approval (permission rule " ++ o.reason
    ++ "); no approval backend wired"

/-- The admission of a sequential call, after its approval if it needs one: `report` is the event
of a denial, and `errorAfter` what it leaves in `ctx.error`. -/
def admission (nodeId : Str) (report : Str → Event) (errorAfter : Str → Str) (events : List Event)
    (o : FunnelOutcome) : Gate Dict :=
  if o.allowed = false ∨ o.needsApproval then
    { events := events ++ blockedEvents o nodeId none ++ [report (deniedText o)]
      error := errorAfter (deniedText o)
      denial := deniedText o }
  else
    { events := events ++ approvedEvents o nodeId none, error := ctxError, passed := some o.args }

def admitToolCall : List Event → FunnelOutcome → Gate Dict :=
  admission ctxError nodeLabel (.toolResult · toolName nodeLabel) fun _ => ctxError

def admitToolNode : List Event → FunnelOutcome → Gate Dict :=
  admission ctxError [] (.error · []) id

/-- A tool call of an LLM node: `readmission` is the second admission. -/
def toolCallGate (o readmission : FunnelOutcome) (ask : Ask) : Gate Dict :=
  if o.needsApproval then
    match o.safetyResult.or o.escalation with
    | none =>
      { events := [.toolResult (noBackendText toolName o) toolName nodeLabel]
        error := ctxError
        denial := noBackendText toolName o }
    | some v =>
      let p := awaitSafetyApproval isAlnum policy toolName params v toolCallCategory nodeLabel ask
      if orText p.error ctxError ≠ [] then { events := p.events, error := orText p.error ctxError }
      else admitToolCall nodeLabel ctxError toolName p.events readmission
  else admitToolCall nodeLabel ctxError toolName [] o

/-- The error of a tool node that needs an approval that nobody can give. -/
def noBackendError (o : FunnelOutcome) : Str :=
  "Permission denied tool call: tool '" ++ toolName ++ "' requires approval ("
    ++ o.reason ++ "); no approval backend wired"

/-- A tool node: `readmission` is the second admission. -/
def toolNodeGate (o readmission : FunnelOutcome) (ask : Ask) : Gate Dict :=
  if o.needsApproval then
    match o.safetyResult.or o.escalation with
    | none =>
      { events := [.error (noBackendError toolName o) []]
        error := noBackendError toolName o
        denial := noBackendError toolName o }
    | some v =>
      let p := awaitSafetyApproval isAlnum policy toolName params v toolCallCategory nodeLabel ask
      if orText p.error ctxError ≠ [] then { events := p.events, error := orText p.error ctxError }
      else admitToolNode ctxError p.events readmission
  else admitToolNode ctxError [] o

/-- A tool call of a self-repair: it is not admitted again after an approval. -/
def selfRepairToolGate (o : FunnelOutcome) (ask : Ask) : Gate Dict :=
  let escalation :=
    if o.allowed && !o.needsApproval then policyEscalationVerdict isAlnum policy toolName params
    else none
  if o.needsApproval || escalation.isSome then
    match o.safetyResult.or escalation with
    | none =>
      { events := [.toolResult (noBackendText toolName o) toolName nodeLabel]
        error := ctxError
        denial := noBackendText toolName o }
    | some v =>
      let p := awaitSafetyApproval isAlnum policy toolName params v toolCallCategory nodeLabel ask
      if p.raised then { events := p.events, error := p.error }
      else { events := p.events, error := ctxError, passed := some params }
  else if o.allowed = false then
    { events := blockedEvents o nodeLabel (some selfRepairPath)
        ++ [.toolResult (deniedText o) toolName nodeLabel]
      error := ctxError
      denial := deniedText o }
  else
    { events := approvedEvents o nodeLabel (some selfRepairPath)
      error := ctxError
      passed := some o.args }

/-- The text of a call that would have to wait for an approval. -/
def cannotPauseText (policyAsks : Bool) : Str :=
  if policyAsks then
    "Error: confirmation policy requires approval for '" ++ toolName
      ++ "'; parallel path cannot pause for approval, retry sequentially"
  else
    "Error: tool '" ++ toolName
      ++ "' requires approval; parallel path cannot pause for approval, retry sequentially"

/-- The text of a call that the funnel denies, where the text names every other gate alike. -/
def gateDeniedText (safetyText : Str) (o : FunnelOutcome) : Str :=
  let reason := orText o.reason "denied"
  if o.blockedBy = "safety" then safetyText ++ reason
  else "Blocked by " ++ o.blockedBy ++ ": " ++ reason

/-- The text of one of several calls at once that the funnel denies. -/
def parallelDeniedText (o : FunnelOutcome) : Str :=
  gateDeniedText "SafetyGateway blocked parallel tool: " o

def registerDeniedText (o : FunnelOutcome) : Str :=
  gateDeniedText "SafetyGateway blocked tool call: " o

/-- The text of a dynamic tool that the gateway blocks. -/
def dynamicDeniedText (v : SafetyVerdict) : Str :=
  "SafetyGateway blocked dynamic tool call: " ++ v.reason

/-- A tool call of several at once (`_exec_parallel_tool`): it cannot wait. -/
def parallelToolGate (o : FunnelOutcome) : Gate Dict :=
  if o.needsApproval then
    { events := [], error := ctxError, denial := cannotPauseText toolName false }
  else if o.allowed ∧ (policyEscalationVerdict isAlnum policy toolName params).isSome then
    { events := [], error := ctxError, denial := cannotPauseText toolName true }
  else if o.allowed = false then
    { events := [], error := ctxError, denial := parallelDeniedText o }
  else { events := [], error := ctxError, passed := some o.args }

/-- `register_tool` and `unregister_tool`: they cannot wait. -/
def registerToolGate (o : FunnelOutcome) : Gate Dict :=
  if o.allowed = false ∨ o.needsApproval then
    { events := [.toolResult (registerDeniedText o) toolName nodeLabel]
      error := ctxError
      denial := registerDeniedText o }
  else { events := [], error := ctxError, passed := some params }

/-- The command of a dynamic tool (`_dyn_execute`). -/
def dynamicToolGate (v : SafetyVerdict) : Gate Dict :=
  if v.action = .block ∧ v.requiresApproval = false then
    { events := [], error := ctxError, denial := dynamicDeniedText v }
  else { events := [], error := ctxError, passed := some params }

end

/-! ### A verdict that blocks -/

inductive Site where
  | llmCall
  | selfRepairLlm
  | toolCall
  | toolNode
  | selfRepairTool
  | parallelTool
  | registerTool
  | dynamicTool
deriving DecidableEq

/-- A call at a gate: the verdict that stands before it and, for a gate that goes through the
funnel, the outcomes of the two admissions. -/
structure Call where
  policy : Option ConfirmationPolicy
  verdict : SafetyVerdict
  nodeLabel : Str := []
  error : Str := []
  toolName : Str := []
  params : Dict := Dict.empty
  outcome : FunnelOutcome := { allowed := true }
  readmission : FunnelOutcome := { allowed := true }

namespace Site

def Funnelled : Site → Prop
  | toolCall | toolNode | selfRepairTool | parallelTool | registerTool => True
  | llmCall | selfRepairLlm | dynamicTool => False

def gate (isAlnum : Char → Bool) (c : Call) (ask : Ask) : Site → Gate Unit
  | llmCall => llmCallGate isAlnum c.policy c.nodeLabel c.error c.verdict ask
  | selfRepairLlm => selfRepairLlmGate isAlnum c.policy c.nodeLabel c.error c.verdict ask
  | toolCall =>
    (toolCallGate isAlnum c.policy c.nodeLabel c.error c.toolName c.params c.outcome c.readmission
      ask).forget
  | toolNode =>
    (toolNodeGate isAlnum c.policy c.nodeLabel c.error c.toolName c.params c.outcome c.readmission
      ask).forget
  | selfRepairTool =>
    (selfRepairToolGate isAlnum c.policy c.nodeLabel c.error c.toolName c.params c.outcome
      ask).forget
  | parallelTool =>
    (parallelToolGate isAlnum c.policy c.error c.toolName c.params c.outcome).forget
  | registerTool => (registerToolGate c.nodeLabel c.error c.toolName c.params c.outcome).forget
  | dynamicTool => (dynamicToolGate c.error c.params c.verdict).forget

/-- A call passes only with an explicit approval, whatever the operator does. -/
def OnlyApproved (isAlnum : Char → Bool) (c : Call) (site : Site) : Prop :=
  ∀ ask, (site.gate isAlnum c ask).passed.isSome = true →
    ask.Approves (site.gate isAlnum c ask).events

/-- The second admission of a call that waits for an approval lets it through. -/
def Readmits (c : Call) : Prop :=
  c.error = [] ∧ c.readmission.allowed = true ∧ c.readmission.needsApproval = false

/-- The condition on a gate, for a verdict that blocks and leaves the call to an approval. -/
def Waits (isAlnum : Char → Bool) (c : Call) : Site → Prop
  | llmCall | selfRepairLlm => policyDecision isAlnum c.policy [] Dict.empty ≠ some .auto
  | toolCall | toolNode =>
    policyDecision isAlnum c.policy c.toolName c.params ≠ some .auto ∨ ¬ Readmits c
  | selfRepairTool => policyDecision isAlnum c.policy c.toolName c.params ≠ some .auto
  | parallelTool | registerTool => True
  | dynamicTool => False

end Site

section

variable {isAlnum : Char → Bool} {policy : Option ConfirmationPolicy} {toolName : Str}
  {params : Dict} {v : SafetyVerdict}

@[simp] theorem events_forget {α : Type} (gate : Gate α) : gate.forget.events = gate.events := rfl

@[simp] theorem isSome_forget {α : Type} (gate : Gate α) :
    gate.forget.passed.isSome = gate.passed.isSome := Option.isSome_map

theorem approves_append {ask : Ask} {es es' : List Event} :
    ask.Approves (es ++ es') ↔ ask.Approves es ∨ ask.Approves es' := by
  simp only [Ask.Approves, List.mem_append, or_and_right, exists_or]

theorem not_approves_approvedEvents {ask : Ask} {o : FunnelOutcome} {nodeId : Str}
    {path : Option Str} : ¬ ask.Approves (approvedEvents o nodeId path) := by
  unfold approvedEvents
  split_ifs <;> simp [Ask.Approves, Event.asksFor]

/-- Before a verdict that asks, the flow lets a call pass only with an explicit approval, unless
the policy decides by itself. -/
theorem flow_iff (hv : v.requiresApproval = true) (category nodeLabel : Str) :
    (∀ ask, (awaitSafetyApproval isAlnum policy toolName params v category nodeLabel ask).raised
        = false → ask.Approves
      (awaitSafetyApproval isAlnum policy toolName params v category nodeLabel ask).events) ↔
      policyDecision isAlnum policy toolName params ≠ some .auto := by
  have hasks : Asks (policyDecision isAlnum policy toolName params) v ↔
      policyDecision isAlnum policy toolName params ≠ some .auto := by
    unfold Asks
    cases policyDecision isAlnum policy toolName params with
    | none => simp [hv]
    | some d => cases d <;> simp
  constructor
  · intro h hauto
    obtain ⟨hraised, hnot⟩ := awaitSafetyApproval_spec.2 (mt hasks.mp (not_not.mpr hauto))
    exact hnot (h { freshId := [] } hraised)
  · exact fun h ask hraised => (awaitSafetyApproval_spec.1 (hasks.mpr h)).mp hraised

theorem llmGate_iff {nodeLabel ctxError blockedText blockedNodeId : Str} {path : Option Str}
    (hblock : v.action = .block) :
    (∀ ask, (llmGate isAlnum policy nodeLabel ctxError blockedText blockedNodeId path v
        ask).passed.isSome = true → ask.Approves
      (llmGate isAlnum policy nodeLabel ctxError blockedText blockedNodeId path v ask).events) ↔
      v.requiresApproval = false ∨ policyDecision isAlnum policy [] Dict.empty ≠ some .auto := by
  unfold llmGate
  cases hv : v.requiresApproval with
  | false => simp [hblock]
  | true =>
    rw [← flow_iff hv llmCallCategory nodeLabel]
    simp only [hblock, true_and, Bool.true_eq_false, if_false, false_or]
    refine forall_congr' fun ask => ?_
    split_ifs with hraised
    · simp [hraised]
    · simp [hraised]

theorem readmitted_iff {nodeLabel ctxError : Str} {readmission : FunnelOutcome}
    {admission : List Event → Gate Dict} (hv : v.requiresApproval = true)
    (hpassed : ∀ events, (admission events).passed.isSome = true ↔
      readmission.allowed = true ∧ readmission.needsApproval = false)
    (hevents : ∀ (ask : Ask) events, (admission events).passed.isSome = true →
      (ask.Approves (admission events).events ↔ ask.Approves events)) :
    let flow := awaitSafetyApproval isAlnum policy toolName params v toolCallCategory nodeLabel
    let gate : Ask → Gate Dict := fun ask =>
      if orText (flow ask).error ctxError ≠ [] then
        { events := (flow ask).events, error := orText (flow ask).error ctxError }
      else admission (flow ask).events
    (∀ ask, (gate ask).passed.isSome = true → ask.Approves (gate ask).events) ↔
      policyDecision isAlnum policy toolName params ≠ some .auto ∨
        ¬ (ctxError = [] ∧ readmission.allowed = true ∧ readmission.needsApproval = false) := by
  intro flow gate
  have hgate : ∀ ask, ((gate ask).passed.isSome = true → ask.Approves (gate ask).events) ↔
      ((ctxError = [] ∧ readmission.allowed = true ∧ readmission.needsApproval = false) →
        (flow ask).raised = false → ask.Approves (flow ask).events) := fun ask => by
    have herror : orText (flow ask).error ctxError = [] ↔
        (flow ask).raised = false ∧ ctxError = [] := by
      have hflow : (flow ask).error = [] ↔ (flow ask).raised = false := error_awaitSafetyApproval
      rw [← hflow, orText]
      split_ifs with h
      · exact ⟨fun hc => ⟨h, hc⟩, And.right⟩
      · exact ⟨fun hc => absurd hc h, fun hc => hc.1⟩
    simp only [gate]
    split_ifs with h
    · have hnot := mt herror.mpr h
      simp only [Option.isSome_none, Bool.false_eq_true, false_implies, true_iff]
      exact fun hc hr => absurd ⟨hr, hc.1⟩ hnot
    · obtain ⟨hraised, hctx⟩ := herror.mp (not_not.mp h)
      rw [hpassed]
      constructor
      · exact fun hgate hc _ => (hevents ask _ ((hpassed _).mpr hc.2)).mp (hgate hc.2)
      · exact fun hflow hc => (hevents ask _ ((hpassed _).mpr hc)).mpr (hflow ⟨hctx, hc⟩ hraised)
  rw [forall_congr' hgate, ← flow_iff hv toolCallCategory nodeLabel]
  by_cases hc : ctxError = [] ∧ readmission.allowed = true ∧ readmission.needsApproval = false
  · exact ⟨fun h => Or.inl fun ask => h ask hc,
      fun h ask _ => (h.resolve_right (not_not.mpr hc)) ask⟩
  · exact iff_of_true (fun _ hc' => absurd hc' hc) (Or.inr hc)

theorem passed_admission {nodeId ctxError : Str} {report : Str → Event} {errorAfter : Str → Str}
    {o : FunnelOutcome} {events : List Event} :
    (admission ctxError nodeId report errorAfter events o).passed.isSome = true ↔
      o.allowed = true ∧ o.needsApproval = false := by
  unfold admission
  split_ifs with h
  · simp only [Option.isSome_none, Bool.false_eq_true, false_iff]
    exact fun ⟨ha, hn⟩ => h.elim (by simp [ha]) (by simp [hn])
  · rw [not_or, Bool.not_eq_false, Bool.not_eq_true] at h
    exact iff_of_true rfl h

theorem approves_admission {nodeId ctxError : Str} {report : Str → Event} {errorAfter : Str → Str}
    {o : FunnelOutcome} {events : List Event} {ask : Ask}
    (h : (admission ctxError nodeId report errorAfter events o).passed.isSome = true) :
    ask.Approves (admission ctxError nodeId report errorAfter events o).events ↔
      ask.Approves events := by
  obtain ⟨ha, hn⟩ := passed_admission.mp h
  have hevents : (admission ctxError nodeId report errorAfter events o).events
      = events ++ approvedEvents o nodeId none := by
    simp only [admission, ha, hn, Bool.true_eq_false, Bool.false_eq_true, or_self, if_false]
  rw [hevents, approves_append, or_iff_left not_approves_approvedEvents]

end

/-- **A verdict that blocks.** A call that the gateway blocks passes a gate only with an explicit
approval, if and only if the verdict leaves no choice or the gate waits for one. -/
theorem onlyApproved_iff (isAlnum : Char → Bool) (site : Site) (c : Call)
    (hblock : c.verdict.action = .block)
    (hfunnel : site.Funnelled →
      c.outcome.safetyResult = some c.verdict ∧ c.outcome.RespectsBlock) :
    site.OnlyApproved isAlnum c ↔
      c.verdict.requiresApproval = false ∨ site.Waits isAlnum c := by
  unfold Site.OnlyApproved
  by_cases hf : site.Funnelled
  · obtain ⟨hresult, hrespects⟩ := hfunnel hf
    obtain ⟨hallowed, hneeds⟩ := hrespects _ hresult hblock
    cases hv : c.verdict.requiresApproval with
    | false =>
      rw [hv] at hneeds
      have hnone : ∀ ask, (site.gate isAlnum c ask).passed = none := fun ask => by
        cases site with
        | llmCall | selfRepairLlm | dynamicTool => exact hf.elim
        | _ =>
          simp only [Site.gate, Gate.forget, toolCallGate, toolNodeGate,
            selfRepairToolGate, parallelToolGate, registerToolGate, admitToolCall, admitToolNode,
            admission, hallowed, hneeds, Bool.false_and, Bool.false_or, Option.isSome_none,
            Bool.false_eq_true, if_false, if_true, true_or, Option.map_none, false_and]
      exact iff_of_true (fun ask hsome => by rw [hnone] at hsome; exact absurd hsome (by simp))
        (Or.inl rfl)
    | true =>
      rw [hv] at hneeds
      rw [or_iff_right Bool.true_eq_false.mp]
      cases site with
      | llmCall | selfRepairLlm | dynamicTool => exact hf.elim
      | toolCall =>
        simp only [Site.gate, isSome_forget, events_forget, toolCallGate, hneeds, if_true, hresult,
          Option.some_or, Site.Waits, Site.Readmits]
        exact readmitted_iff hv (fun _ => passed_admission) fun _ _ => approves_admission
      | toolNode =>
        simp only [Site.gate, isSome_forget, events_forget, toolNodeGate, hneeds, if_true, hresult,
          Option.some_or, Site.Waits, Site.Readmits]
        exact readmitted_iff hv (fun _ => passed_admission) fun _ _ => approves_admission
      | selfRepairTool =>
        simp only [Site.gate, isSome_forget, events_forget, selfRepairToolGate, hneeds, hresult,
          Bool.true_or, if_true, Option.some_or, Site.Waits]
        rw [← flow_iff hv toolCallCategory c.nodeLabel]
        refine forall_congr' fun ask => ?_
        split_ifs with hraised
        · simp [hraised]
        · simp [hraised]
      | parallelTool | registerTool =>
        refine iff_of_true (fun ask hsome => ?_) trivial
        simp only [Site.gate, isSome_forget, parallelToolGate, registerToolGate, hneeds, or_true,
          if_true, Option.isSome_none, Bool.false_eq_true] at hsome
  · cases site with
    | llmCall | selfRepairLlm => exact llmGate_iff hblock
    | dynamicTool =>
      cases hv : c.verdict.requiresApproval with
      | false => simp [Site.gate, dynamicToolGate, hblock, hv]
      | true =>
        simp only [Site.gate, isSome_forget, events_forget, dynamicToolGate, hblock, hv, true_and,
          Bool.true_eq_false, if_false, Option.isSome_some, forall_const, Site.Waits, false_or]
        exact iff_of_false (fun h => by simpa [Ask.Approves] using h { freshId := [] }) not_false
    | _ => exact absurd trivial hf

/-- The verdict of `evaluate_action` when its backend is missing. -/
def backendMissing : SafetyVerdict where
  action := .block
  reason := "Safety backend unavailable"
  requiresApproval := true

/-- Without a policy, a tool node waits for an approval. -/
theorem onlyApproved_toolNode : Site.toolNode.OnlyApproved Char.isAlphanum
    { policy := none
      verdict := backendMissing
      outcome :=
        { allowed := false
          needsApproval := true
          blockedBy := "safety"
          safetyResult := some backendMissing } } := by
  refine (onlyApproved_iff Char.isAlphanum _ _ rfl fun _ => ⟨rfl, fun v hv _ => ?_⟩).mpr
    (Or.inr (Or.inl (Option.some_ne_none _).symm))
  obtain rfl := Option.some.inj hv
  exact ⟨rfl, rfl⟩

/-- Under the tier `never`, an LLM call that the gateway blocks goes on, and nobody is asked. -/
theorem not_onlyApproved_never : ¬ Site.llmCall.OnlyApproved Char.isAlphanum
    { policy := some { tier := .never }, verdict := backendMissing } := by
  intro h
  obtain ⟨e, he, actionId, hask, -⟩ := h { freshId := "a" } rfl
  obtain rfl := List.mem_singleton.mp he
  exact (Option.some_ne_none actionId).symm hask

end AgentStudio.Runtime

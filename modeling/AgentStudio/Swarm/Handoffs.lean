import AgentStudio.Library.Json
import AgentStudio.Library.Machine
import Mathlib.Algebra.Order.Group.Int

/-!
# Handoffs in a swarm

`SwarmRouter.handoff` of `agent_runtime/swarm_router.py`, with what it uses of `FMProtocol` of
`agent_runtime/fmp_router.py`. A handoff counts the hops of its context, and it is refused beyond
the limits of the two agents and of the router.

In a chain of handoffs the context that one of them returns goes to the next. `Chain.step` is a
handoff in a chain, or anything else that happens to the router, in whatever order; only the limit
of the router is set once and for all. `chain_bounded` is about all chains: how many handoffs
succeed, and what each of them does (`HandoffLaw`).
-/

namespace AgentStudio.Swarm

open PyText PyJson PyDict Machine

/-! ### The message protocol -/

/-- `AgentInfo`, as far as it is not set to its defaults. -/
structure AgentInfo where
  id : Str
  name : Str
  capabilities : List Str

/-- `FMPMessageV2`, as far as it is not set to its defaults. -/
structure FMPMessage where
  messageId : Str
  sender : Str
  recipient : Str
  messageType : Str
  payload : List (Str × Json)
  timestamp : ℕ

/-- `FMProtocol`; `order` and `index` are its turn manager. -/
structure FMProtocol where
  localAgentId : Str
  agents : List (Str × AgentInfo) := []
  messageLog : List FMPMessage := []
  sent : ℕ := 0
  order : List Str := []
  index : ℕ := 0

/-- `register_agent`. -/
def FMProtocol.registerAgent (fmp : FMProtocol) (agent : AgentInfo) : FMProtocol :=
  let agents := setItem agent.id agent fmp.agents
  { fmp with agents, order := agents.map Prod.fst, index := 0 }

/-- `send`. -/
def FMProtocol.send (fmp : FMProtocol) (recipient messageType : Str) (payload : List (Str × Json))
    (messageId : Str) (timestamp : ℕ) : FMProtocol :=
  { fmp with
    messageLog := fmp.messageLog ++
      [{ messageId, sender := fmp.localAgentId, recipient, messageType, payload, timestamp }]
    sent := fmp.sent + 1 }

/-! ### The router -/

/-- `SwarmAgent`, as far as a handoff reads it. -/
structure SwarmAgent where
  id : Str
  name : Str := []
  capabilities : List Str := []
  maxHops : ℤ := 3

/-- `HandoffContext`. -/
structure HandoffContext where
  conversation : List Json := []
  metadata : List (Str × Json) := []
  hopCount : ℤ := 0
  taskId : Str := []

structure LoggedHandoff where
  source : Str
  target : Str
  hopCount : ℤ
  taskId : Str
  timestamp : ℕ

/-- `SwarmRouter`, as far as a handoff reads and writes it. -/
structure SwarmRouter where
  maxHops : ℤ := 3
  agents : List (Str × SwarmAgent) := []
  handoffLog : List LoggedHandoff := []
  fmp : FMProtocol

/-- What a handoff takes from the clock and from `uuid4`. -/
structure Moment where
  handedOffAt : ℕ
  loggedAt : ℕ
  messageId : Str
  sentAt : ℕ

namespace SwarmRouter

variable (router : SwarmRouter)

/-- `_ensure_fmp_agent`. -/
def ensureFmpAgent (agent : SwarmAgent) : SwarmRouter :=
  if (router.fmp.agents.lookup agent.id).isSome then router
  else
    { router with
      fmp := router.fmp.registerAgent
        { id := agent.id, name := agent.name, capabilities := agent.capabilities } }

/-- `effective_max`. -/
def effectiveMax (source target : SwarmAgent) : ℤ :=
  min (min source.maxHops target.maxHops) router.maxHops

/-- `handoff`: the new context, if the handoff is not refused, and the router after it. -/
def handoff (sourceId targetId : Str) (ctx : HandoffContext) (now : Moment) :
    Option HandoffContext × SwarmRouter :=
  match router.agents.lookup sourceId, router.agents.lookup targetId with
  | some source, some target =>
    let newHop := ctx.hopCount + 1
    if router.effectiveMax source target < newHop then (none, router)
    else
      let logged : SwarmRouter := { router with
        handoffLog := router.handoffLog ++ [{
          source := sourceId
          target := targetId
          hopCount := newHop
          taskId := ctx.taskId
          timestamp := now.loggedAt }] }
      let known := logged.ensureFmpAgent target
      (some {
        conversation := ctx.conversation
        metadata := setItem "handed_off_at" (.num (Number.ofInt now.handedOffAt))
          (setItem "handed_off_from" (.str sourceId) ctx.metadata)
        hopCount := newHop
        taskId := ctx.taskId },
      { known with
        fmp := known.fmp.send targetId "handoff"
          [("hop_count", .num (Number.ofInt newHop)), ("task_id", .str ctx.taskId)]
          now.messageId now.sentAt })
  | _, _ => (none, router)

end SwarmRouter

/-! ### One handoff -/

/-- What a handoff does: it counts one hop, within the limits of both agents and of the router, or
it is refused and leaves the log and the messages as they are. -/
structure HandoffLaw (router : SwarmRouter) (sourceId targetId : Str) (ctx : HandoffContext)
    (result : Option HandoffContext) (router' : SwarmRouter) : Prop where
  counted : ∀ ctx', result = some ctx' → ctx'.hopCount = ctx.hopCount + 1
  limited : ∀ ctx', result = some ctx' →
    ∃ source target, router.agents.lookup sourceId = some source ∧
      router.agents.lookup targetId = some target ∧
        ctx'.hopCount ≤ min (min source.maxHops target.maxHops) router.maxHops
  refused : result = none → router'.handoffLog = router.handoffLog ∧
    router'.fmp.messageLog = router.fmp.messageLog

variable {router : SwarmRouter} {sourceId targetId : Str} {ctx : HandoffContext} {now : Moment}

theorem handoff_cases (router : SwarmRouter) (sourceId targetId : Str) (ctx : HandoffContext)
    (now : Moment) :
    router.handoff sourceId targetId ctx now = (none, router) ∨
      ∃ source target ctx' router', router.agents.lookup sourceId = some source ∧
        router.agents.lookup targetId = some target ∧
          router.handoff sourceId targetId ctx now = (some ctx', router') ∧
            ctx'.hopCount = ctx.hopCount + 1 ∧
              ctx.hopCount + 1 ≤ router.effectiveMax source target ∧
                router'.maxHops = router.maxHops := by
  rw [SwarmRouter.handoff]
  split
  next source target hsource htarget =>
    dsimp only
    split_ifs with hlimit
    · exact Or.inl rfl
    · refine Or.inr ⟨source, target, _, _, hsource, htarget, rfl, rfl, not_lt.mp hlimit, ?_⟩
      dsimp only
      rw [SwarmRouter.ensureFmpAgent]
      split_ifs
      · rfl
      · rfl
  · exact Or.inl rfl

theorem handoffLaw (router : SwarmRouter) (sourceId targetId : Str) (ctx : HandoffContext)
    (now : Moment) :
    HandoffLaw router sourceId targetId ctx (router.handoff sourceId targetId ctx now).1
      (router.handoff sourceId targetId ctx now).2 := by
  rcases handoff_cases router sourceId targetId ctx now with hrefused | hdone
  · rw [hrefused]
    exact ⟨fun _ h => absurd h (by simp), fun _ h => absurd h (by simp), fun _ => ⟨rfl, rfl⟩⟩
  · obtain ⟨source, target, ctx', router', hsource, htarget, hdone, hcount, hlimit, -⟩ := hdone
    rw [hdone]
    refine ⟨fun _ h => ?_, fun _ h => ?_, fun h => absurd h (by simp)⟩
    · rw [← Option.some.inj h]
      exact hcount
    · rw [← Option.some.inj h, hcount]
      exact ⟨source, target, hsource, htarget, hlimit⟩

/-! ### Chains -/

namespace Chain

/-- A step of a chain: a handoff of the context that the chain has come to, or anything else, after
which the router has other agents, another log and other messages. -/
inductive Input where
  | handoff (sourceId targetId : Str) (now : Moment)
  | others (agents : List (Str × SwarmAgent)) (handoffLog : List LoggedHandoff) (fmp : FMProtocol)

/-- The router, and the context that the chain has come to. -/
structure State where
  router : SwarmRouter
  ctx : HandoffContext

/-- A step of a chain, with the context that a handoff returns. -/
def step : Input → State → Option HandoffContext × State
  | .handoff sourceId targetId now, s =>
    let r := s.router.handoff sourceId targetId s.ctx now
    (r.1, { router := r.2, ctx := r.1.getD s.ctx })
  | .others agents handoffLog fmp, s =>
    (none, { s with router := { s.router with agents, handoffLog, fmp } })

def succeeded (inputs : List Input) (s : State) : ℕ :=
  (run step inputs s).1.countP Option.isSome

def StepLaw : Input → State → Prop
  | .handoff sourceId targetId now, s =>
    HandoffLaw s.router sourceId targetId s.ctx (step (.handoff sourceId targetId now) s).1
      (step (.handoff sourceId targetId now) s).2.router
  | .others _ _ _, _ => True

/-- What a chain keeps: the limit of the router, the hops as the number of successful handoffs, and
the limit on them. -/
structure Counted (limit start : ℤ) (outputs : List (Option HandoffContext)) (s : State) :
    Prop where
  maxHops : s.router.maxHops = limit
  hops : s.ctx.hopCount = start + outputs.countP Option.isSome
  bound : outputs.countP Option.isSome = 0 ∨ s.ctx.hopCount ≤ limit

theorem Counted.step {limit start : ℤ} {outputs : List (Option HandoffContext)} {s : State}
    (h : Counted limit start outputs s) (i : Input) :
    Counted limit start (outputs ++ [(step i s).1]) (step i s).2 := by
  have hsame : ∀ s' : State, s'.router.maxHops = s.router.maxHops → s'.ctx = s.ctx →
      Counted limit start (outputs ++ [none]) s' := by
    intro s' hlimit hctx
    have hcount : (outputs ++ [none]).countP Option.isSome = outputs.countP Option.isSome := by
      simp
    refine ⟨hlimit.trans h.maxHops, ?_, ?_⟩
    · rw [hctx, hcount, h.hops]
    · rw [hctx, hcount]
      exact h.bound
  cases i with
  | others agents handoffLog fmp => exact hsame _ rfl rfl
  | handoff sourceId targetId now =>
    rw [Chain.step]
    rcases handoff_cases s.router sourceId targetId s.ctx now with hrefused | hdone
    · rw [hrefused]
      exact hsame _ rfl rfl
    · obtain ⟨source, target, ctx', router', -, -, hdone, hcount, hlimit, hmax⟩ := hdone
      rw [hdone]
      have hsome : (outputs ++ [some ctx']).countP Option.isSome =
          outputs.countP Option.isSome + 1 := by simp
      refine ⟨hmax.trans h.maxHops, ?_, Or.inr ?_⟩
      · change ctx'.hopCount = _
        rw [hcount, h.hops, hsome]
        push_cast
        ring
      · change ctx'.hopCount ≤ limit
        rw [hcount]
        exact hlimit.trans ((min_le_right _ _).trans_eq h.maxHops)

/-- **Chains of handoffs.** In every chain, from every context, over whichever agents and whatever
else happens in between: at most as many handoffs succeed as the router's limit leaves, and each
handoff counts one hop within the limits, or changes neither the log nor the messages. -/
theorem chain_bounded (s : State) (inputs : List Input) :
    (succeeded inputs s : ℤ) ≤ max 0 (s.router.maxHops - s.ctx.hopCount) ∧
      Along step StepLaw inputs s := by
  have hall : Along step (fun _ _ => True) inputs s := along_of_forall fun _ _ => trivial
  constructor
  · have hstart : Counted s.router.maxHops s.ctx.hopCount [] s :=
      ⟨rfl, (add_zero _).symm, Or.inl rfl⟩
    have hcounted := run_outputs_invariant (fun i _ _ h _ => h.step i) inputs hstart hall
    have hhops := hcounted.hops
    rw [List.nil_append] at hhops
    rcases hcounted.bound with hnone | hbound
    · rw [List.nil_append] at hnone
      rw [succeeded, hnone]
      exact le_max_left _ _
    · rw [succeeded]
      refine le_max_of_le_right ?_
      omega
  · refine along_of_invariant (I := fun _ => True) (fun i s _ _ => ?_) inputs trivial hall
    cases i with
    | handoff sourceId targetId now => exact ⟨trivial, handoffLaw _ _ _ _ _⟩
    | others agents handoffLog fmp => exact ⟨trivial, trivial⟩

/-- Two agents that hand off to each other are stopped by the limit of one of them. -/
example :
    let agents : List (Str × SwarmAgent) :=
      [(['a'], { id := ['a'], maxHops := 2 }), (['b'], { id := ['b'], maxHops := 9 })]
    let now : Moment := { handedOffAt := 0, loggedAt := 0, messageId := [], sentAt := 0 }
    succeeded [.handoff ['a'] ['b'] now, .handoff ['b'] ['a'] now, .handoff ['a'] ['b'] now]
      { router := { agents, fmp := { localAgentId := [] } }, ctx := {} } = 2 := by decide

end Chain

end AgentStudio.Swarm

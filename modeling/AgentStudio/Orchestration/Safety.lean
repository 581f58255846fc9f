import AgentStudio.Orchestration.Orchestrator

/-!
# Who evaluates the calls of an orchestrated agent

Every pattern but `parallel` builds its runtimes with the safety gateway of the orchestrator.
`parallel` leaves it out, and `master_worker` and `broadcast` delegate to `parallel`, so that
nothing evaluates the calls of their workers (`built_orchestrate`). A runtime passes its gateway
on to the runtimes it builds (`safetyGateway_nested`), and has it evaluate every call at a gate.

`evaluated_iff` is the result: in an orchestration every call is evaluated by the orchestrator's
gateway if and only if no worker of `parallel` makes a call and no agent calls a place without a
gate. `unguarded_parallel` is a worker whose LLM call nobody evaluates.
-/

namespace AgentStudio.Orchestration

open PyText PyJson

/-! ### One call -/

def CallSite.Gated (site : CallSite) : Prop := ∃ gate, site = .gated gate

theorem safetyGateway_nested (path : List Nesting) (rt : AgentRuntime) :
    (path.foldl Nesting.build rt).safetyGateway = rt.safetyGateway := by
  induction path generalizing rt with
  | nil => rfl
  | cons n path ih =>
    rw [List.foldl_cons, ih]
    cases n <;> rfl

theorem evaluator_eq_some {rt : AgentRuntime} {c : Call} {g : Ref} :
    c.evaluator rt = some g ↔ rt.safetyGateway = some g ∧ c.site.Gated := by
  rw [Call.evaluator]
  cases hsite : c.site with
  | gated gate =>
    rw [CallSite.evaluator, safetyGateway_nested]
    exact (and_iff_left ⟨gate, rfl⟩).symm
  | planner | verifier | compaction | capture =>
    simp [CallSite.evaluator, CallSite.Gated]

/-! ### The runtimes of a pattern -/

namespace Orchestrator

variable {W : World} {o : Orchestrator}

/-- A run whose runtime the pattern built: without the safety gateway for a worker of
`parallel`, with it for all others. -/
def Built (o : Orchestrator) (run : Run) : Prop :=
  run.runtime = if run.role = .worker then o.parallelRuntime else o.guardedRuntime

variable {runs : List Run}

private theorem built_concat (hruns : ∀ run ∈ runs, o.Built run) {run : Run} (hrun : o.Built run) :
    ∀ run' ∈ runs ++ [run], o.Built run' := by
  intro run' h
  rcases mem_snoc.mp h with h | rfl
  · exact hruns run' h
  · exact hrun

theorem built_sequentialFrom (agents : List AgentConfig) (input : Str) (fedBy : Option ℕ)
    (r : OrchestrationResult) (hruns : ∀ run ∈ runs, o.Built run) :
    ∀ run ∈ (sequentialFrom W o agents input fedBy r runs).2, o.Built run := by
  induction agents generalizing input fedBy r runs with
  | nil => exact hruns
  | cons a agents ih =>
    rw [sequentialFrom]
    dsimp only
    split
    · exact ih _ _ _ (built_concat hruns rfl)
    · exact ih _ _ _ (built_concat hruns rfl)

theorem built_parallelFrom (inputTemplate : Str) (perAgentInputs : List Str) (i : ℕ)
    (agents : List AgentConfig) (hruns : ∀ run ∈ runs, o.Built run) :
    ∀ run ∈ parallelFrom W o inputTemplate perAgentInputs i agents runs, o.Built run := by
  induction agents generalizing i runs with
  | nil => exact hruns
  | cons a agents ih => exact ih (i + 1) (built_concat hruns rfl)

theorem built_parallelAfter (agents : List AgentConfig) (inputTemplate : Str)
    (perAgentInputs : List Str) (hruns : ∀ run ∈ runs, o.Built run) :
    ∀ run ∈ (parallelAfter W o agents inputTemplate perAgentInputs runs).2, o.Built run :=
  fun run h => built_parallelFrom inputTemplate perAgentInputs 0 agents hruns run
    (List.mem_of_mem_drop h)

theorem built_handoffFrom (i : ℕ) (agents : List AgentConfig) (accumulated : Str)
    (chain : List HandoffContext) (fedBy : Option ℕ) (r : OrchestrationResult)
    (hruns : ∀ run ∈ runs, o.Built run) :
    ∀ run ∈ (handoffFrom W o i agents accumulated chain fedBy r runs).2, o.Built run := by
  induction agents generalizing i accumulated chain fedBy r runs with
  | nil => exact hruns
  | cons a agents ih =>
    rw [handoffFrom]
    dsimp only
    split
    · exact built_concat hruns rfl
    · split
      · exact built_concat hruns rfl
      · exact built_concat hruns rfl
      · split_ifs
        · exact built_concat hruns rfl
        · exact ih _ _ _ _ _ (built_concat hruns rfl)

theorem built_supervisorFrom (supervisor : AgentConfig) (workerMap : List (Str × AgentConfig))
    (left round : ℕ) (currentTask : Str) (history : List Routing) (r : OrchestrationResult)
    (hruns : ∀ run ∈ runs, o.Built run) :
    ∀ run ∈ (supervisorFrom W o supervisor workerMap left round currentTask history r runs).2,
      o.Built run := by
  induction left generalizing round currentTask history r runs with
  | zero => exact hruns
  | succ left ih =>
    rw [supervisorFrom]
    dsimp only
    split
    · exact built_concat hruns rfl
    · split_ifs
      · exact built_concat hruns rfl
      · split
        · exact built_concat hruns rfl
        · split
          all_goals
            refine ih _ _ _ _ (built_concat (built_concat hruns ?_) ?_)
            · rfl
            · rfl

theorem built_masterWorker (master : AgentConfig) (workers : List AgentConfig) (task : Str) :
    ∀ run ∈ (masterWorker W o master workers task).2, o.Built run := by
  have hlead : ∀ input runs, o.Built (launch W .lead o.guardedRuntime master input {} none runs) :=
    fun _ _ => rfl
  rw [masterWorker]
  dsimp only
  split
  · intro run h
    rw [List.mem_singleton.mp h]
    exact hlead _ _
  · have hfirst : ∀ run ∈ [launch W .lead o.guardedRuntime master
        (.str (decomposePrompt workers.length task)) {} none []], o.Built run := fun run h => by
      rw [List.mem_singleton.mp h]
      exact hlead _ _
    split
    all_goals
      intro run h
      rcases mem_snoc.mp h with h | rfl
      · rcases List.mem_cons.mp h with h | h
        · rw [h]
          exact hlead _ _
        · exact built_parallelAfter _ _ _ hfirst run h
      · exact hlead _ _

/-- **The runtimes of every pattern**: only the workers of `parallel` run without the safety
gateway. -/
theorem built_orchestrate (p : Pattern) : ∀ run ∈ (orchestrate W o p).2, o.Built run := by
  have hnil : ∀ run ∈ ([] : List Run), o.Built run := List.forall_mem_nil _
  cases p with
  | sequential agents initialInput => exact built_sequentialFrom _ _ _ _ hnil
  | parallel | broadcast => exact built_parallelAfter _ _ _ hnil
  | masterWorker master workers task => exact built_masterWorker master workers task
  | handoff agents initialInput => exact built_handoffFrom _ _ _ _ _ _ hnil
  | supervisor config workers task maxRounds => exact built_supervisorFrom _ _ _ _ _ _ _ hnil

end Orchestrator

/-! ### The result -/

/-- Every LLM call and tool call of an orchestration is evaluated by a safety gateway. -/
def AllEvaluated (g : Ref) (runs : List Run) : Prop :=
  ∀ run ∈ runs, ∀ c ∈ run.outcome.calls, c.evaluator run.runtime = some g

/-- **When the orchestrator's gateway evaluates every call**: for every pattern, every list of
agents and whatever their runs do, if and only if no worker of `parallel` makes a call and every
call is made at a gate. -/
theorem evaluated_iff (W : World) (o : Orchestrator) (g : Ref) (p : Orchestrator.Pattern) :
    AllEvaluated g (Orchestrator.orchestrate W { o with safetyGateway := some g } p).2 ↔
      ∀ run ∈ (Orchestrator.orchestrate W { o with safetyGateway := some g } p).2,
        ∀ c ∈ run.outcome.calls, run.role ≠ .worker ∧ c.site.Gated := by
  refine forall₂_congr fun run hrun => forall₂_congr fun c _ => ?_
  have hbuilt := Orchestrator.built_orchestrate p run hrun
  rw [Orchestrator.Built] at hbuilt
  rw [evaluator_eq_some, hbuilt]
  refine and_congr ?_ Iff.rfl
  split_ifs with hrole
  · exact iff_of_false (by simp [Orchestrator.parallelRuntime]) (fun h => h hrole)
  · exact iff_of_true rfl hrole

/-! ### A call that nobody evaluates -/

section Unguarded

def oneQuestion : Graph.AgentGraph where
  id := "g"
  nodes := [("s", { type := .start }),
    ("q", { type := .llm, model := "m" }), ("e", { type := .end_ })]
  edges := [⟨"s", "q", []⟩, ⟨"q", "e", []⟩]
  startNodeId := "s"
  nodup := by decide

def answering : World where
  execute _ _ _ _ _ :=
    { calls := [⟨[], .gated .llmCall⟩]
      events := [⟨.start, []⟩, ⟨.think, "yes"⟩, ⟨.end_, []⟩] }
  handoff _ _ _ _ := .ok true
  str _ := []

/-- **A pattern offers a path around the gateway**: nothing evaluates the call of a worker. -/
theorem unguarded_parallel : ¬ ∀ (W : World) (o : Orchestrator) (g : Ref)
    (p : Orchestrator.Pattern), AllEvaluated g
      (Orchestrator.orchestrate W { o with safetyGateway := some g } p).2 := by
  intro h
  have hrun := h answering ⟨none, 0, none, false⟩ 1
    (.parallel [⟨"a", oneQuestion⟩] [] []) _ List.mem_cons_self _ List.mem_cons_self
  exact absurd hrun (by decide)

end Unguarded

end AgentStudio.Orchestration

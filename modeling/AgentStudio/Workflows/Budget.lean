import AgentStudio.Workflows.Engine

/-!
# Budget loops

A budget loop of `agent_runtime/workflow_engine.py` begins an iteration as long as the tokens that
it counts are below the budget. It should count the tokens of the whole run (`Accounted`), so
that no iteration begins once the run has consumed the budget (`Capped`).

It counts neither: no pattern reports its tokens to the loop of the phases, so every phase begins
with a count of zero (`tokensUsed_eq_zero`), and the list in which the agents record their tokens
is empty and stays so (`gather_acc`), so every iteration counts with its estimated cost.
`budget_respected` says what is left: without agents that consume tokens before a budget loop
(`Unspent`), and without iterations that cost more than estimated (`Modest`), the budget is
respected. `accounted_iff` says that the first condition is exact.

`iterations` is the loop iteration by iteration (`budgetLoop_eq`). An iteration is `Lawful` if it
adds what its agents reported, or an estimate if none of them reported anything, which it does if
and only if nothing was reported in it (`lawful_iff_silent`).
-/

namespace AgentStudio.Workflows

open PyText

/-! ### The property -/

def consumed (runs : List PhaseRun) : ℕ := (runs.map fun p => p.events.tokens).sum

def PhaseRun.IsBudgetLoop (p : PhaseRun) : Prop := p.phase.pattern = .loopUntilBudget

/-- Every budget loop begins with the tokens that all phases before it consumed. -/
def Accounted (runs : List PhaseRun) : Prop :=
  ∀ before p after, runs = before ++ p :: after → p.IsBudgetLoop →
    p.tokensUsed = (consumed before : ℤ)

/-- No budget loop begins an iteration once the run has consumed the budget. -/
def Capped (budget : ℤ) (runs : List PhaseRun) : Prop :=
  ∀ before p after, runs = before ++ p :: after → p.IsBudgetLoop →
    ∀ earlier cost later, p.events = earlier ++ .iteration cost :: later →
      (consumed before + Trace.tokens earlier : ℕ) < budget

/-! ### The condition -/

/-- Nothing is consumed before a budget loop begins. -/
def Unspent (runs : List PhaseRun) : Prop :=
  ∀ before p after, runs = before ++ p :: after → p.IsBudgetLoop → consumed before = 0

/-- No iteration of a budget loop costs more than estimated. -/
def Modest (tr : Trace) : Prop :=
  ∀ earlier cost agents later, tr = earlier ++ .iteration cost :: (agents ++ later) →
    (∀ e ∈ agents, ∃ cfg input tokens, e = .agent cfg input tokens) →
    (Trace.tokens agents : ℤ) ≤ cost

variable {env : Env} {budget : Option ℤ}

/-! ### What is counted -/

theorem runAgent_acc (cfg : AgentConfig) (input : PyText.Str) (n : ℕ) :
    (runAgent env cfg input (some []) n).2.1 = some [] := by
  rw [runAgent]
  split_ifs
  · rfl
  · dsimp only
    split <;> rfl

/-- Agents record nothing in an empty list, and leave only agent runs. -/
theorem gather_acc (tasks : List (AgentConfig × PyText.Str)) (n : ℕ) :
    (gather env tasks (some []) n).2.1 = some [] ∧
      ∀ e ∈ (gather env tasks (some []) n).2.2,
        ∃ cfg input tokens, e = .agent cfg input tokens := by
  induction tasks generalizing n with
  | nil => exact ⟨rfl, by simp [gather]⟩
  | cons task tasks ih =>
    obtain ⟨cfg, input⟩ := task
    have hagent : ∀ e ∈ (runAgent env cfg input (some []) n).2.2,
        ∃ cfg input tokens, e = .agent cfg input tokens := by
      rw [runAgent]
      split_ifs
      · simp
      · rintro e he
        exact ⟨_, _, _, List.mem_singleton.mp he⟩
    rw [gather]
    rcases hrun : runAgent env cfg input (some []) n with ⟨r, acc, tr⟩
    have hacc := @runAgent_acc env cfg input n
    rw [hrun] at hacc hagent
    obtain rfl : acc = some [] := hacc
    obtain ⟨htail, hevents⟩ := ih (n + tr.length)
    refine ⟨htail, fun e he => ?_⟩
    rcases List.mem_append.mp he with he | he
    · exact hagent e he
    · exact hevents e he

theorem tokensUsed_eq_zero (phases : List Phase) :
    ∀ (idx : ℕ) (input : PyText.Str) (n : ℕ) (outcome : Outcome) (runs : List PhaseRun),
      executePhases env budget phases idx input 0 n = (outcome, runs) →
      ∀ p ∈ runs, p.tokensUsed = 0 := by
  induction phases with
  | nil =>
    intro idx input n outcome runs h
    obtain ⟨-, rfl⟩ := Prod.mk.inj h
    exact List.forall_mem_nil _
  | cons phase phases ih =>
    intro idx input n outcome runs h
    rcases executePhases_cons phase phases idx input 0 n h with
      ⟨-, -, rfl⟩ | ⟨-, -, rfl⟩ | ⟨r, tr, -, -, ⟨-, -, rfl⟩ | ⟨rest, rfl, hrest⟩⟩
    · exact List.forall_mem_nil _
    · simp
    · simp
    · exact List.forall_mem_cons.mpr ⟨rfl, ih _ _ _ _ _ hrest⟩

/-! ### The iterations of a loop -/

theorem tokens_append (tr tr' : Trace) :
    Trace.tokens (tr ++ tr') = Trace.tokens tr + Trace.tokens tr' := by
  rw [Trace.tokens, List.map_append, List.sum_append]
  rfl

theorem tokens_iteration_cons (cost : ℤ) (tr : Trace) :
    Trace.tokens (.iteration cost :: tr) = Trace.tokens tr := by
  simp [Trace.tokens, Event.tokens]

theorem Modest.of_append {tr tr' : Trace} (h : Modest (tr ++ tr')) : Modest tr' := by
  intro earlier cost agents later heq hagents
  refine h (tr ++ earlier) cost agents later ?_ hagents
  rw [heq, List.append_assoc]

/-- **The loop is capped** as long as what it has really consumed is covered by its count. -/
private theorem capped_budgetLoop (phase : Phase) (limit : ℤ) (left : ℕ) :
    ∀ (iteration : ℕ) (used : ℤ) (input : PyText.Str) (all : List PyText.Str) (estimated : Bool)
      (n : ℕ) (spent : ℤ), spent ≤ used →
      Modest (budgetLoop env phase limit left iteration used input all estimated n).2 →
      ∀ earlier cost later,
        (budgetLoop env phase limit left iteration used input all estimated n).2 =
          earlier ++ .iteration cost :: later → spent + Trace.tokens earlier < limit := by
  induction left with
  | zero =>
    intro iteration used input all estimated n spent _ _ earlier cost later h
    cases earlier <;> cases h
  | succ left ih =>
    intro iteration used input all estimated n spent hspent hmodest earlier cost later h
    rw [budgetLoop] at hmodest h
    by_cases hused : used < limit
    swap
    · rw [if_neg hused] at h
      cases earlier <;> cases h
    rw [if_pos hused] at hmodest h
    cases earlier with
    | nil => simpa [Trace.tokens] using lt_of_le_of_lt hspent hused
    | cons e earlier =>
      by_cases hcfg : phase.agentConfigs = []
      · rw [if_pos hcfg] at h
        obtain ⟨-, htail⟩ := List.cons.inj h
        cases earlier <;> cases htail
      · rw [if_neg hcfg] at hmodest h
        obtain ⟨hacc, hagents⟩ := @gather_acc env
          (phase.agentConfigs.map fun cfg => (cfg, input)) (n + 1)
        rcases hgather : gather env (phase.agentConfigs.map fun cfg => (cfg, input)) (some [])
          (n + 1) with ⟨rs, acc, agents⟩
        rw [hgather] at hmodest h hacc hagents
        obtain rfl : acc = some [] := hacc
        dsimp only at hmodest h hagents
        obtain ⟨rfl, htail⟩ := List.cons.inj h
        -- what the agents consume is covered by the estimate of the iteration
        have hcovered := hmodest [] _ agents _ rfl hagents
        have hrest := @Modest.of_append (.iteration phase.fallbackCost :: agents) _ hmodest
        have hsplit : ∃ earlier', earlier = agents ++ earlier' ∧
            (budgetLoop env phase limit left (iteration + 1) (used + phase.fallbackCost)
              ((all ++ outputs rs).getLast?.getD input) (all ++ outputs rs) true
              (n + 1 + agents.length)).2 = earlier' ++ .iteration cost :: later := by
          rcases List.append_eq_append_iff.mp htail with ⟨rest, heq, hlater⟩ | ⟨c, heq, hlater⟩
          · exact ⟨rest, heq, hlater⟩
          · cases c with
            | nil => exact ⟨[], by simpa using heq.symm, hlater.symm⟩
            | cons e c =>
              obtain ⟨rfl, -⟩ := List.cons.inj hlater
              have hmem : _ ∈ agents := heq ▸ List.mem_append_right earlier List.mem_cons_self
              obtain ⟨_, _, _, he⟩ := hagents _ hmem
              cases he
        obtain ⟨earlier', rfl, hlater⟩ := hsplit
        have := ih _ _ _ _ _ _ (spent + Trace.tokens agents) (by omega) hrest _ _ _ hlater
        rw [tokens_iteration_cons, tokens_append]
        push_cast
        omega

/-! ### Runs -/

private theorem events_of_budgetLoop (phases : List Phase) :
    ∀ (idx : ℕ) (input : PyText.Str) (n : ℕ) (outcome : Outcome) (runs : List PhaseRun),
      executePhases env budget phases idx input 0 n = (outcome, runs) →
      ∀ p ∈ runs, p.IsBudgetLoop → p.events = [] ∨ ∃ m,
        p.events = (execLoopUntilBudget env p.phase p.input budget 0 m).2 := by
  induction phases with
  | nil =>
    intro idx input n outcome runs h
    obtain ⟨-, rfl⟩ := Prod.mk.inj h
    exact List.forall_mem_nil _
  | cons phase phases ih =>
    intro idx input n outcome runs h
    have hexec : ∀ {r tr}, execPhase env phase input budget 0 n = (r, tr) →
        phase.pattern = .loopUntilBudget →
        tr = (execLoopUntilBudget env phase input budget 0 n).2 := by
      intro r tr hr hpattern
      rw [execPhase, hpattern] at hr
      exact (congrArg Prod.snd hr).symm
    rcases executePhases_cons phase phases idx input 0 n h with
      ⟨-, -, rfl⟩ | ⟨-, -, rfl⟩ | ⟨r, tr, hr, -, ⟨-, -, rfl⟩ | ⟨rest, rfl, hrest⟩⟩
    · exact List.forall_mem_nil _
    · exact List.forall_mem_cons.mpr ⟨fun _ => .inl rfl, List.forall_mem_nil _⟩
    · exact List.forall_mem_cons.mpr ⟨fun hp => .inr ⟨n, hexec hr hp⟩,
        List.forall_mem_nil _⟩
    · exact List.forall_mem_cons.mpr ⟨fun hp => .inr ⟨n, hexec hr hp⟩, ih _ _ _ _ _ hrest⟩

theorem accounted_iff (env : Env) (phases : List Phase) (initialInput : PyText.Str)
    (budget : Option ℤ) :
    Accounted (execute env phases initialInput budget).2 ↔
      Unspent (execute env phases initialInput budget).2 := by
  have hzero : ∀ before p after, (execute env phases initialInput budget).2 = before ++ p :: after →
      p.tokensUsed = 0 := by
    intro before p after h
    refine @tokensUsed_eq_zero env budget phases 0 initialInput 0 _ _ rfl p ?_
    have hmem : p ∈ (execute env phases initialInput budget).2 := by simp [h]
    exact hmem
  constructor
  · intro h before p after hruns hp
    have := h before p after hruns hp
    rw [hzero before p after hruns] at this
    exact_mod_cast this.symm
  · intro h before p after hruns hp
    rw [hzero before p after hruns, h before p after hruns hp]
    rfl

/-- **The budget is respected** by every run that consumes nothing before a budget loop begins,
and in which no iteration of a budget loop costs more than estimated. -/
theorem budget_respected (env : Env) (phases : List Phase) (initialInput : PyText.Str)
    (limit : ℤ) (hunspent : Unspent (execute env phases initialInput (some limit)).2)
    (hmodest : ∀ p ∈ (execute env phases initialInput (some limit)).2, p.IsBudgetLoop →
      Modest p.events) :
    Accounted (execute env phases initialInput (some limit)).2 ∧
      Capped limit (execute env phases initialInput (some limit)).2 := by
  refine ⟨(accounted_iff env phases initialInput (some limit)).mpr hunspent, ?_⟩
  intro before p after hruns hp earlier cost later hevents
  have hmem : p ∈ (execute env phases initialInput (some limit)).2 := by simp [hruns]
  rw [hunspent before p after hruns hp, Nat.zero_add]
  rcases events_of_budgetLoop phases 0 initialInput 0 _ _ rfl p hmem hp with hnil | ⟨m, hloop⟩
  · rw [hnil] at hevents
    cases earlier <;> cases hevents
  · have hm := hmodest p hmem hp
    rw [hloop] at hm hevents
    have := capped_budgetLoop p.phase limit _ 0 0 p.input [] false m 0 le_rfl hm _ _ _ hevents
    omega

/-! ### Runs of one agent -/

/-- Agents whose runs consume some tokens, in a run that is not cancelled. -/
def consuming (tokens : ℕ) : Env where
  backend := true
  answer _ _ _ := ⟨.ok "done", tokens, 0⟩
  loads _ := .error (.caught [])
  maxBranches := 32
  cancelled _ := false
  interrupted _ := false

/-- A phase of one agent, with at most two iterations. -/
def oneAgent (pattern : Pattern) : Phase :=
  ⟨"phase", pattern, [[("name", "agent")]], { maxIterations := some 2 }⟩

/-- A budget loop begins after a phase that has used up the budget. -/
theorem not_budget_respected : ¬ ∀ (env : Env) (phases : List Phase) (initialInput : PyText.Str)
    (limit : ℤ), Accounted (execute env phases initialInput (some limit)).2 ∧
      Capped limit (execute env phases initialInput (some limit)).2 := by
  intro h
  obtain ⟨haccounted, -⟩ := h (consuming 100) [oneAgent .pipeline, oneAgent .loopUntilBudget]
    "go" 10
  exact absurd (haccounted [_] _ [] rfl rfl) (by decide)

theorem modest_of_tokens_le {tr : Trace} (h : ∀ cost, .iteration cost ∈ tr →
    (Trace.tokens tr : ℤ) ≤ cost) : Modest tr := by
  rintro earlier cost agents later rfl -
  refine le_trans ?_ (h cost (by simp))
  rw [tokens_append, tokens_iteration_cons, tokens_append]
  omega

/-- `budget_respected` for a run of one budget loop. -/
theorem budget_respected_oneAgent :
    Accounted (execute (consuming 2) [oneAgent .loopUntilBudget] [] (some 10000)).2 ∧
      Capped 10000 (execute (consuming 2) [oneAgent .loopUntilBudget] [] (some 10000)).2 := by
  refine budget_respected (consuming 2) [oneAgent .loopUntilBudget] [] 10000 ?_ ?_
  · intro before p after h _
    cases before with
    | nil => rfl
    | cons _ before => cases before <;> cases (List.cons.inj h).2
  · intro p hp _
    obtain rfl := List.mem_singleton.mp hp
    refine modest_of_tokens_le fun cost hcost => ?_
    have hevents : Event.iteration cost ∈ [Event.iteration 5000,
        .agent [("name", "agent")] [] 2, .iteration 5000,
        .agent [("name", "agent")] "done" 2] := hcost
    obtain rfl : cost = 5000 := by simpa using hevents
    decide

/-! ### Iterations -/

/-- An iteration of a budget loop: the count at its start, what its agent calls report, the count
after it, and whether this is an estimate. -/
structure Iteration where
  used : ℤ
  reported : List ℕ
  after : ℤ
  estimated : Bool

/-- The count of an iteration is what is reported in it, or an estimate if nothing is; and it does
not start once the budget is used up. -/
structure Iteration.Lawful (budget : ℤ) (it : Iteration) : Prop where
  grown : it.estimated = false → it.after = it.used + (it.reported.sum : ℕ)
  fallback : it.estimated = true → it.reported = []
  started : it.used < budget

variable (env)

/-- The token usage that agents report, as the events from number `n` on: an agent that raises
reports nothing. -/
def reports : List (AgentConfig × Str) → ℕ → List ℕ
  | [], _ => []
  | (cfg, input) :: tasks, n =>
    if cfg = [] ∨ ¬ env.backend then reports tasks n
    else
      let a := env.answer cfg input n
      let rest := reports tasks (n + 1)
      match a.output with
      | .ok _ => if 0 < a.tokens then a.tokens :: rest else rest
      | .error _ => rest

/-- What the recorded tokens add to the count, and whether it is an estimate. -/
def Phase.charge (phase : Phase) (acc : Option (List ℕ)) : ℤ × Bool :=
  match acc with
  | some (t :: ts) => (((t :: ts).sum : ℕ), false)
  | _ => (phase.fallbackCost, true)

/-- The iterations of the loop of `_exec_loop_until_budget`; the first argument counts those that
are left. -/
def iterations (phase : Phase) (budget : ℤ) : ℕ → ℤ → Str → List Str → ℕ → List Iteration
  | 0, _, _, _, _ => []
  | left + 1, used, input, all, n =>
    if used < budget then
      if phase.agentConfigs = [] then [⟨used, [], used, false⟩]
      else
        let tasks := phase.agentConfigs.map fun cfg => (cfg, input)
        let (rs, acc, tr) := gather env tasks (some []) (n + 1)
        let all := all ++ outputs rs
        let (cost, estimated) := phase.charge acc
        ⟨used, reports env tasks (n + 1), used + cost, estimated⟩ ::
          iterations phase budget left (used + cost) (all.getLast?.getD input) all
            (n + 1 + tr.length)
    else []

/-- The iterations of `_exec_loop_until_budget`. -/
def budgetIterations (phase : Phase) (input : Str) (budget : Option ℤ) (tokensUsed : ℤ) (n : ℕ) :
    List Iteration :=
  iterations env phase (budget.getD (phase.config.defaultBudget.getD 50000))
    (phase.config.maxIterations.getD 50).toNat tokensUsed input [] n

variable {env}

/-! ### The iterations and the loop -/

def countAfter (used : ℤ) (its : List Iteration) : ℤ := its.foldl (fun _ it => it.after) used

theorem exists_gather (tasks : List (AgentConfig × Str)) (n : ℕ) :
    ∃ rs agents, gather env tasks (some []) n = (rs, some [], agents) := by
  rcases hgather : gather env tasks (some []) n with ⟨rs, acc, agents⟩
  have hacc := (@gather_acc env tasks n).1
  rw [hgather] at hacc
  exact ⟨rs, agents, by rw [show acc = some [] from hacc]⟩

theorem budgetLoop_eq (phase : Phase) (budget : ℤ) (left iteration : ℕ) (used : ℤ) (input : Str)
    (all : List Str) (estimated : Bool) (n : ℕ) :
    let its := iterations env phase budget left used input all n
    (budgetLoop env phase budget left iteration used input all estimated n).1.detail =
      .budget (iteration + its.length) (countAfter used its) budget
        (estimated || its.any (·.estimated)) := by
  induction left generalizing iteration used input all estimated n with
  | zero => simp [iterations, budgetLoop, budgetResult, countAfter]
  | succ left ih =>
    by_cases hused : used < budget
    swap
    · simp [iterations, budgetLoop, budgetResult, countAfter, hused]
    by_cases hcfg : phase.agentConfigs = []
    · simp [iterations, budgetLoop, budgetResult, countAfter, hused, hcfg]
    · obtain ⟨rs, agents, hgather⟩ :=
        @exists_gather env (phase.agentConfigs.map fun cfg => (cfg, input)) (n + 1)
      simp only [iterations, budgetLoop, if_pos hused, if_neg hcfg, hgather, Phase.charge, ih,
        countAfter, List.foldl_cons, List.length_cons, List.any_cons]
      simp [Nat.add_assoc, Nat.add_comm 1]

/-! ### What is counted -/

theorem mem_iterations {phase : Phase} {budget : ℤ} {left : ℕ} {used : ℤ} {input : Str}
    {all : List Str} {n : ℕ} {it : Iteration}
    (h : it ∈ iterations env phase budget left used input all n) :
    it.used < budget ∧ (it.estimated = true ∨
      it.estimated = false ∧ it.reported = [] ∧ it.after = it.used) := by
  induction left generalizing used input all n with
  | zero => exact absurd h List.not_mem_nil
  | succ left ih =>
    rw [iterations] at h
    split_ifs at h with hused hcfg
    · obtain rfl := List.mem_singleton.mp h
      exact ⟨hused, .inr ⟨rfl, rfl, rfl⟩⟩
    · obtain ⟨rs, agents, hgather⟩ :=
        @exists_gather env (phase.agentConfigs.map fun cfg => (cfg, input)) (n + 1)
      dsimp only at h
      rw [hgather] at h
      rcases List.mem_cons.mp h with rfl | h
      · exact ⟨hused, .inl rfl⟩
      · exact ih h
    · exact absurd h List.not_mem_nil

/-- **The count.** All iterations of a budget loop are lawful if and only if no agent reports token
usage in any of them. -/
theorem lawful_iff_silent (phase : Phase) (input : Str) (budget : Option ℤ) (tokensUsed : ℤ)
    (n : ℕ) :
    (∀ it ∈ budgetIterations env phase input budget tokensUsed n,
      it.Lawful (budget.getD (phase.config.defaultBudget.getD 50000))) ↔
    ∀ it ∈ budgetIterations env phase input budget tokensUsed n, it.reported = [] := by
  refine forall₂_congr fun it hit => ?_
  obtain ⟨hused, hcases⟩ := mem_iterations hit
  constructor
  · intro hlawful
    rcases hcases with hestimated | ⟨-, hsilent, -⟩
    · exact hlawful.fallback hestimated
    · exact hsilent
  · intro hsilent
    refine ⟨fun hexact => ?_, fun _ => hsilent, hused⟩
    rcases hcases with hestimated | ⟨-, -, hafter⟩
    · exact absurd (hexact.symm.trans hestimated) Bool.false_ne_true
    · rw [hafter, hsilent]
      simp

/-! ### Agents that report -/

/-- All agents answer, and report token usage. -/
def Reporting (env : Env) : Prop :=
  ∀ cfg input n, (∃ out, (env.answer cfg input n).output = .ok out) ∧
    0 < (env.answer cfg input n).tokens

/-- An iteration of an agent that reports two tokens counts five thousand. -/
theorem not_lawful_iterations : ¬ ∀ (env : Env) (phase : Phase) (input : Str)
    (budget : Option ℤ) (tokensUsed : ℤ) (n : ℕ), Reporting env →
      ∀ it ∈ budgetIterations env phase input budget tokensUsed n,
        it.Lawful (budget.getD (phase.config.defaultBudget.getD 50000)) := by
  intro h
  have hreporting : Reporting (consuming 2) := fun _ _ _ => ⟨⟨_, rfl⟩, Nat.zero_lt_two⟩
  have hlawful := h (consuming 2) (oneAgent .loopUntilBudget) [] (some 10) 0 0 hreporting
    ⟨0, [2], 5000, true⟩ List.mem_cons_self
  exact absurd (hlawful.fallback rfl) (by decide)

end AgentStudio.Workflows

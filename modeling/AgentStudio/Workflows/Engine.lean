import AgentStudio.Library.Text
import Mathlib.Data.List.Infix
import Mathlib.Data.Rat.Defs

/-!
# The workflow engine

The phases of a workflow run of `agent_runtime/workflow_engine.py`. `executePhases` is the loop
of `_execute_phases`: each phase gets the output of the phases before it, and a pattern says how
it makes its agents work (`execPipeline`, `execParallelBarrier`, `execLoopUntilDry`,
`execLoopUntilBudget`, `execAdversarialVerify`, `execJudgePanel`). An agent either answers or
raises.

Every pattern also returns its `Trace`: the agent runs with the tokens they consumed, and the
iterations of the budget loops. `executePhases` returns a `PhaseRun` for each phase it begins. `Env`
is what a run gets from outside: the answers of the agents, the settings of the environment, and
when the run is cancelled, before a phase begins or while it is executed.
-/

namespace AgentStudio.Workflows

open PyText

/-! ### Phases -/

/-- `WorkflowPattern`. -/
inductive Pattern where
  | pipeline
  | parallelBarrier
  | loopUntilDry
  | loopUntilBudget
  | adversarialVerify
  | judgePanel
deriving DecidableEq

abbrev AgentConfig := List (Str × Str)

/-- The settings that the patterns read from the `config` of a phase. -/
structure Config where
  items : Option (List Str) := none
  maxBranches : ℤ := 0
  dryThreshold : Option ℤ := none
  maxIterations : Option ℤ := none
  defaultBudget : Option ℤ := none
  costPerIteration : Option ℤ := none
  voterCount : Option ℤ := none
  threshold : Option ℚ := none
  judgeAgent : Option AgentConfig := none
  continueOnError : Bool := false

/-- `WorkflowPhase`. -/
structure Phase where
  name : Str
  pattern : Pattern
  agentConfigs : List AgentConfig
  config : Config

inductive Vote where
  | refuted (error : Option Str)
  | survived
deriving DecidableEq

/-- What a pattern reports besides its output. -/
inductive Detail where
  | none
  | stages (results : List (Str × ℕ × Str))
  | barrier (results : List (Str × Except Str Str))
  | dry (iterations totalFindings : ℕ)
  | budget (iterations : ℕ) (used total : ℤ) (estimated : Bool)
  | verify (passes : Bool) (survived refuted : ℕ) (votes : List Vote)
  | judge (approaches : List (Str × Str)) (winner : ℤ) (judgeOutput : Str)

/-- The result of a phase: `tokens` is the key that the loop of the phases adds up. -/
structure Result where
  output : Str
  error : Option Str := none
  tokens : Option ℤ := none
  detail : Detail := .none

/-- The result is that of a verification that did not pass. -/
def Result.refuted (r : Result) : Bool :=
  match r.detail with
  | .verify passes _ _ _ => !passes
  | _ => false

/-! ### Agents -/

/-- What an agent comes to: its output or the text of its exception, and the tokens that its LLM
calls report. -/
structure Answer where
  output : Except Str Str
  promptTokens : ℕ
  completionTokens : ℕ

def Answer.tokens (a : Answer) : ℕ := a.promptTokens + a.completionTokens

/-- What `json.loads` returns, with its type. A floating-point number is known by the integers that
are less than it, so that infinities and `NaN` are among them. -/
inductive Loaded where
  | null
  | bool (b : Bool)
  | int (i : ℤ)
  | float (below : ℤ → Bool)
  | str (s : Str)
  | arr
  | obj (members : List (Str × Loaded))

def Loaded.typeName : Loaded → Str
  | .null => "NoneType"
  | .bool _ => "bool"
  | .int _ => "int"
  | .float _ => "float"
  | .str _ => "str"
  | .arr => "list"
  | .obj _ => "dict"

/-- The exceptions of `json.loads`: those that the panel catches (`JSONDecodeError`, `TypeError`),
and others, for too many digits or too deep a nesting. -/
inductive LoadError where
  | caught (text : Str)
  | other (text : Str)

/-- What a run gets from outside: whether agents can be run at all (there is a graph runtime or a
gateway), their answers, `json.loads`, the setting `FUSION_WORKFLOW_MAX_BRANCHES`, and the phases
before which, or in which, the run is cancelled. -/
structure Env where
  backend : Bool
  answer : AgentConfig → Str → ℕ → Answer
  loads : Str → Except LoadError Loaded
  maxBranches : ℤ
  cancelled : ℕ → Bool
  interrupted : ℕ → Bool

/-- What can be seen of a phase while it is executed. -/
inductive Event where
  /-- an agent is run -/
  | agent (cfg : AgentConfig) (input : Str) (tokens : ℕ)
  /-- a budget loop begins an iteration that it estimates at a cost -/
  | iteration (cost : ℤ)

abbrev Trace := List Event

def Event.tokens : Event → ℕ
  | .agent _ _ tokens => tokens
  | _ => 0

def Trace.tokens (tr : Trace) : ℕ := (tr.map Event.tokens).sum

/-- A phase that a run begins: its input, the tokens counted so far, what happens in it, and its
result if it is not cancelled. -/
structure PhaseRun where
  idx : ℕ
  phase : Phase
  input : Str
  tokensUsed : ℤ
  events : Trace
  result : Option Result

variable (env : Env)

/-- `_record_tokens`: a list that is empty is not a list to record in. -/
def recordTokens (acc : Option (List ℕ)) (t : ℕ) : Option (List ℕ) :=
  match acc with
  | none => none
  | some [] => some []
  | some (a :: as) => some (if 0 < t then a :: as ++ [t] else a :: as)

/-- `_run_agent`, as the event number `n`. -/
def runAgent (cfg : AgentConfig) (input : Str) (acc : Option (List ℕ)) (n : ℕ) :
    Except Str Str × Option (List ℕ) × Trace :=
  if cfg = [] ∨ ¬ env.backend then (.ok input, acc, [])
  else
    let a := env.answer cfg input n
    let acc := match a.output with
      | .ok _ => recordTokens acc a.tokens
      | .error _ => acc
    (a.output, acc, [.agent cfg input a.tokens])

/-- `asyncio.gather(*tasks, return_exceptions=True)`. -/
def gather : List (AgentConfig × Str) → Option (List ℕ) → ℕ →
    List (Except Str Str) × Option (List ℕ) × Trace
  | [], acc, _ => ([], acc, [])
  | (cfg, input) :: tasks, acc, n =>
    let (r, acc, tr) := runAgent env cfg input acc n
    let (rs, acc, trs) := gather tasks acc (n + tr.length)
    (r :: rs, acc, tr ++ trs)

def outputs (rs : List (Except Str Str)) : List Str :=
  rs.filterMap fun | .ok out => some out | .error _ => none

/-- `separator.join(parts)`. -/
def joinWith (separator : Str) (parts : List Str) : Str := (parts.intersperse separator).flatten

def blankLine : Str := ['\n', '\n']

/-! ### Patterns -/

/-- The stages of `_exec_pipeline` for one item, each fed with the output of the one before. -/
def runStages (item : Str) : List AgentConfig → ℕ → Str → ℕ →
    Except Str (List (Str × ℕ × Str)) × Trace
  | [], _, _, _ => (.ok [], [])
  | cfg :: cfgs, stage, input, n =>
    match runAgent env cfg input none n with
    | (.error e, _, tr) => (.error e, tr)
    | (.ok out, _, tr) =>
      let (rest, trs) := runStages item cfgs (stage + 1) out (n + tr.length)
      (rest.map ((item, stage, out) :: ·), tr ++ trs)

/-- The items of `_exec_pipeline`. -/
def runItems (stages : List AgentConfig) : List Str → ℕ →
    Except Str (List (Str × ℕ × Str)) × Trace
  | [], _ => (.ok [], [])
  | item :: items, n =>
    match runStages env item stages 0 item n with
    | (.error e, tr) => (.error e, tr)
    | (.ok results, tr) =>
      let (rest, trs) := runItems stages items (n + tr.length)
      (rest.map (results ++ ·), tr ++ trs)

/-- `_exec_pipeline`. -/
def execPipeline (phase : Phase) (input : Str) (n : ℕ) : Except Str Result × Trace :=
  if phase.agentConfigs = [] then (.ok { output := input }, [])
  else
    let (results, tr) := runItems env phase.agentConfigs (phase.config.items.getD [input]) n
    (results.map fun results =>
      { output := (results.getLast?.map (·.2.2)).getD input, detail := .stages results }, tr)

/-- The agents of a barrier, at most as many as the branches that are allowed. -/
def barrierConfigs (phase : Phase) : List AgentConfig :=
  let maxBranches :=
    if phase.config.maxBranches ≠ 0 then phase.config.maxBranches else env.maxBranches
  if 0 < maxBranches ∧ maxBranches < phase.agentConfigs.length then
    phase.agentConfigs.take maxBranches.toNat
  else phase.agentConfigs

/-- The name of an agent, or `agent_` and its number. -/
def agentName (cfg : AgentConfig) (i : ℕ) : Str :=
  (cfg.lookup "name".toList).getD ("agent_".toList ++ Nat.toDigits 10 i)

/-- `_exec_parallel_barrier`. -/
def execParallelBarrier (phase : Phase) (input : Str) (n : ℕ) : Except Str Result × Trace :=
  if phase.agentConfigs = [] then (.ok { output := input }, [])
  else
    let configs := barrierConfigs env phase
    let (rs, _, tr) := gather env (configs.map fun cfg => (cfg, input)) none n
    let results := (configs.zip rs).mapIdx fun i r => (agentName r.1 i, r.2)
    (.ok { output := joinWith blankLine (outputs rs), detail := .barrier results }, tr)

/-- The outputs whose first hundred characters are new, with all that have been seen. -/
def newFindings : List Str → List Str → List Str × List Str
  | [], seen => ([], seen)
  | out :: outs, seen =>
    if out.take 100 ∈ seen then newFindings outs seen
    else
      let (found, seen) := newFindings outs (out.take 100 :: seen)
      (out :: found, seen)

/-- The loop of `_exec_loop_until_dry`; the first argument counts the iterations that are left. -/
def dryLoop (phase : Phase) (maxDry : ℤ) :
    ℕ → ℕ → ℕ → Str → List Str → List Str → ℕ → Result × Trace
  | 0, iteration, _, _, all, _, _ =>
    ({ output := joinWith blankLine all, detail := .dry iteration all.length }, [])
  | left + 1, iteration, dry, input, all, seen, n =>
    if (dry : ℤ) < maxDry then
      if phase.agentConfigs = [] then
        ({ output := joinWith blankLine all, detail := .dry (iteration + 1) all.length }, [])
      else
        let (rs, _, tr) := gather env (phase.agentConfigs.map fun cfg => (cfg, input)) none n
        let (found, seen) := newFindings (outputs rs) seen
        let (r, trs) :=
          if found = [] then
            dryLoop phase maxDry left (iteration + 1) (dry + 1) input all seen (n + tr.length)
          else
            dryLoop phase maxDry left (iteration + 1) 0 (joinWith ['\n'] found) (all ++ found) seen
              (n + tr.length)
        (r, tr ++ trs)
    else ({ output := joinWith blankLine all, detail := .dry iteration all.length }, [])

/-- `_exec_loop_until_dry`. -/
def execLoopUntilDry (phase : Phase) (input : Str) (n : ℕ) : Except Str Result × Trace :=
  let (r, tr) := dryLoop env phase (phase.config.dryThreshold.getD 2)
    (phase.config.maxIterations.getD 10).toNat 0 0 input [] [] n
  (.ok r, tr)

/-- The estimated cost of an iteration of a budget loop. -/
def Phase.fallbackCost (phase : Phase) : ℤ := phase.config.costPerIteration.getD 5000

def budgetResult (budget : ℤ) (iteration : ℕ) (used : ℤ) (input : Str) (all : List Str)
    (estimated : Bool) : Result where
  output := if all = [] then input else joinWith blankLine all
  detail := .budget iteration used budget estimated

/-- The loop of `_exec_loop_until_budget`; the first argument counts the iterations that are
left. -/
def budgetLoop (phase : Phase) (budget : ℤ) :
    ℕ → ℕ → ℤ → Str → List Str → Bool → ℕ → Result × Trace
  | 0, iteration, used, input, all, estimated, _ =>
    (budgetResult budget iteration used input all estimated, [])
  | left + 1, iteration, used, input, all, estimated, n =>
    if used < budget then
      if phase.agentConfigs = [] then
        (budgetResult budget (iteration + 1) used input all estimated,
          [.iteration phase.fallbackCost])
      else
        let (rs, acc, tr) :=
          gather env (phase.agentConfigs.map fun cfg => (cfg, input)) (some []) (n + 1)
        let all := all ++ outputs rs
        let input := all.getLast?.getD input
        -- real tokens if any were recorded, else the estimate
        let (used, estimated) := match acc with
          | some (t :: ts) => (used + ((t :: ts).sum : ℕ), estimated)
          | _ => (used + phase.fallbackCost, true)
        let (r, trs) := budgetLoop phase budget left (iteration + 1) used input all estimated
          (n + 1 + tr.length)
        (r, .iteration phase.fallbackCost :: tr ++ trs)
    else (budgetResult budget iteration used input all estimated, [])

/-- `_exec_loop_until_budget`. -/
def execLoopUntilBudget (phase : Phase) (input : Str) (budget : Option ℤ) (tokensUsed : ℤ)
    (n : ℕ) : Except Str Result × Trace :=
  let budget := budget.getD (phase.config.defaultBudget.getD 50000)
  let (r, tr) := budgetLoop env phase budget (phase.config.maxIterations.getD 50).toNat 0 tokensUsed
    input [] false n
  (.ok r, tr)

def skepticPrompt (i : ℕ) (claim : Str) : Str :=
  "You are skeptic #" ++ Nat.toDigits 10 (i + 1) ++
    ". Try to REFUTE the following claim. " ++ claim

def Vote.ofOutput : Except Str Str → Vote
  | .error e => .refuted (some e)
  | .ok vote =>
    let vote := vote.map Char.toLower
    if "refuted" <:+: vote ∨ "false" <:+: vote then .refuted none else .survived

/-- `_exec_adversarial_verify`. -/
def execAdversarialVerify (phase : Phase) (input : Str) (n : ℕ) : Except Str Result × Trace :=
  let voterCount := phase.config.voterCount.getD 3
  let tasks := (List.range voterCount.toNat).map fun i =>
    ((phase.agentConfigs[i % phase.agentConfigs.length]?).getD [], skepticPrompt i input)
  let (rs, _, tr) := gather env tasks none n
  let votes := rs.map Vote.ofOutput
  let survived := votes.count .survived
  let passes := decide (phase.config.threshold.getD (3 / 5) ≤
    (survived : ℚ) / (max voterCount 1 : ℤ))
  (.ok
    { output := if passes then input else []
      detail := .verify passes survived (votes.length - survived) votes }, tr)

def runApproaches (input : Str) : List AgentConfig → ℕ → Except Str (List (Str × Str)) × Trace
  | [], _ => (.ok [], [])
  | cfg :: cfgs, n =>
    match runAgent env cfg input none n with
    | (.error e, _, tr) => (.error e, tr)
    | (.ok out, _, tr) =>
      let (rest, trs) := runApproaches input cfgs (n + tr.length)
      (rest.map (((cfg.lookup "name".toList).getD [], out) :: ·), tr ++ trs)

def scoringPrompt (approaches : List (Str × Str)) : Str :=
  "Score the following approaches on a 0-10 scale. " ++
    "Return JSON: \x7b\"scores\": [\x7b\"index\": 0, \"score\": N, \"reason\": \"...\"\x7d], " ++
    "\"winner\": 0\x7d\n\n" ++
    (approaches.mapIdx fun i a =>
      "Approach " ++ Nat.toDigits 10 i ++ ": " ++ a.2.take 500 ++ blankLine).flatten

/-- The index that the judge names, if it is a number or a truth value: a floating-point number is
known by the integers that are less than it. -/
inductive Index where
  | int (i : ℤ)
  | float (below : ℤ → Bool)

def Loaded.index : Loaded → Option Index
  | .bool b => some (.int (if b then 1 else 0))
  | .int i => some (.int i)
  | .float below => some (.float below)
  | _ => none

/-- What the judge names as the winner: `0` if its output is no JSON. -/
def winnerOf (judgeOutput : Str) : Except Str Loaded :=
  match env.loads judgeOutput with
  | .error (.caught _) => .ok (.int 0)
  | .error (.other e) => .error e
  | .ok (.obj members) => .ok ((members.lookup "winner".toList).getD (.int 0))
  | .ok v => .error ("'" ++ v.typeName ++ "' object has no attribute 'get'")

/-- `min(winner_idx, last)`: the last index only if it is less. -/
def Index.min (last : ℤ) : Index → Index
  | .int i => if last < i then .int last else .int i
  | .float below => if below last then .int last else .float below

/-- `approaches[i]`: a negative index counts from the end. -/
def approachAt (approaches : List (Str × Str)) : Index → Except Str (ℤ × Str × Str)
  | .float _ => .error "list indices must be integers or slices, not float"
  | .int i =>
    let j := if i < 0 then i + approaches.length else i
    if j < 0 then .error "list index out of range"
    else (approaches[j.toNat]?).elim (.error "list index out of range") fun a => .ok (i, a)

/-- The result of a panel, from the output of its judge. -/
def pickWinner (approaches : List (Str × Str)) (judgeOutput : Str) : Except Str Result := do
  let winner ← winnerOf env judgeOutput
  match winner.index with
  | none =>
    .error ("'<' not supported between instances of 'int' and '" ++ winner.typeName ++
      "'")
  | some index =>
    let (winnerIdx, a) ← approachAt approaches (index.min (approaches.length - 1))
    return { output := a.2, detail := .judge approaches winnerIdx judgeOutput }

/-- `_exec_judge_panel`. -/
def execJudgePanel (phase : Phase) (input : Str) (n : ℕ) : Except Str Result × Trace :=
  match phase.agentConfigs with
  | [] => (.ok { output := input }, [])
  | first :: _ =>
    match runApproaches env input phase.agentConfigs n with
    | (.error e, tr) => (.error e, tr)
    | (.ok approaches, tr) =>
      match runAgent env (phase.config.judgeAgent.getD first) (scoringPrompt approaches) none
        (n + tr.length) with
      | (.error e, _, trs) => (.error e, tr ++ trs)
      | (.ok judgeOutput, _, trs) =>
        (pickWinner env approaches judgeOutput, tr ++ trs)

/-! ### The phases -/

def execPhase (phase : Phase) (input : Str) (budget : Option ℤ) (tokensUsed : ℤ) (n : ℕ) :
    Except Str Result × Trace :=
  match phase.pattern with
  | .pipeline => execPipeline env phase input n
  | .parallelBarrier => execParallelBarrier env phase input n
  | .loopUntilDry => execLoopUntilDry env phase input n
  | .loopUntilBudget => execLoopUntilBudget env phase input budget tokensUsed n
  | .adversarialVerify => execAdversarialVerify env phase input n
  | .judgePanel => execJudgePanel env phase input n

def resultOf : Except Str Result → Result
  | .ok r => r
  | .error e => { output := [], error := some e }

/-- The input of the phase after one with the given input and result: an empty output keeps the
input. -/
def nextInput (input : Str) (r : Result) : Str := if r.output = [] then input else r.output

inductive Outcome where
  | completed (output : Str) (tokensUsed : ℤ)
  | failed (error : Str)
  | cancelled

/-- `_execute_phases`, from a phase on. -/
def executePhases (budget : Option ℤ) :
    List Phase → ℕ → Str → ℤ → ℕ → Outcome × List PhaseRun
  | [], _, input, tokensUsed, _ => (.completed input tokensUsed, [])
  | phase :: phases, idx, input, tokensUsed, n =>
    if env.cancelled idx then (.cancelled, [])
    else if env.interrupted idx then (.cancelled, [⟨idx, phase, input, tokensUsed, [], none⟩])
    else
      let (r, tr) := execPhase env phase input budget tokensUsed n
      let result := resultOf r
      let error := result.error.getD []
      let run : PhaseRun := ⟨idx, phase, input, tokensUsed, tr, some result⟩
      if error ≠ [] ∧ ¬ phase.config.continueOnError then
        (.failed ("Phase '" ++ phase.name ++ "' failed: " ++ error), [run])
      else
        let (outcome, runs) := executePhases budget phases (idx + 1) (nextInput input result)
          (tokensUsed + result.tokens.getD 0) (n + tr.length)
        (outcome, run :: runs)

def execute (phases : List Phase) (initialInput : Str) (budget : Option ℤ) :
    Outcome × List PhaseRun :=
  executePhases env budget phases 0 initialInput 0 0

/-! ### What the results of the patterns have in common -/

/-- The result of a pattern that did not raise: no error, no count of tokens, and no output if it
is that of a verification that did not pass. -/
structure Result.Plain (r : Result) : Prop where
  error : r.error = none
  tokens : r.tokens = none
  output : r.refuted = true → r.output = []

variable {env}

private theorem plain_of_map {α : Type} {x : Except Str α} {f : α → Result} {r : Result}
    (hf : ∀ a, (f a).Plain) (h : x.map f = .ok r) : r.Plain := by
  cases x with
  | error e => cases h
  | ok a =>
    obtain rfl := Except.ok.inj h
    exact hf a

private theorem plain_dryLoop (phase : Phase) (maxDry : ℤ) (left : ℕ) :
    ∀ (iteration dry : ℕ) (input : Str) (all seen : List Str) (n : ℕ),
      (dryLoop env phase maxDry left iteration dry input all seen n).1.Plain := by
  induction left with
  | zero => exact fun _ _ _ _ _ _ => ⟨rfl, rfl, fun h => by cases h⟩
  | succ left ih =>
    intro iteration dry input all seen n
    rw [dryLoop]
    split_ifs
    · exact ⟨rfl, rfl, fun h => by cases h⟩
    · dsimp only
      split_ifs <;> exact ih _ _ _ _ _ _
    · exact ⟨rfl, rfl, fun h => by cases h⟩

private theorem plain_budgetLoop (phase : Phase) (budget : ℤ) (left : ℕ) :
    ∀ (iteration : ℕ) (used : ℤ) (input : Str) (all : List Str) (estimated : Bool) (n : ℕ),
      (budgetLoop env phase budget left iteration used input all estimated n).1.Plain := by
  induction left with
  | zero => exact fun _ _ _ _ _ _ => ⟨rfl, rfl, fun h => by cases h⟩
  | succ left ih =>
    intro iteration used input all estimated n
    rw [budgetLoop]
    split_ifs
    · exact ⟨rfl, rfl, fun h => by cases h⟩
    · exact ih _ _ _ _ _ _
    · exact ⟨rfl, rfl, fun h => by cases h⟩

private theorem pickWinner_plain {approaches : List (Str × Str)} {judgeOutput : Str} {r : Result}
    (h : pickWinner env approaches judgeOutput = .ok r) : r.Plain := by
  simp only [pickWinner, bind, Except.bind, pure, Except.pure] at h
  split at h
  · cases h
  · split at h
    · cases h
    · split at h
      · cases h
      · obtain rfl := Except.ok.inj h
        exact ⟨rfl, rfl, fun h => by cases h⟩

variable {budget : Option ℤ}

theorem execPhase_plain {phase : Phase} {input : Str} {tokensUsed : ℤ} {n : ℕ} {r : Result}
    (h : (execPhase env phase input budget tokensUsed n).1 = .ok r) : r.Plain := by
  have hplain : ∀ {out : Str} {d : Detail},
      (Result.refuted { output := out, detail := d }) = false →
      (Result.Plain { output := out, detail := d }) := fun hd =>
    ⟨rfl, rfl, fun hr => by rw [hd] at hr; cases hr⟩
  rw [execPhase] at h
  split at h
  · rw [execPipeline] at h
    split_ifs at h
    · obtain rfl := Except.ok.inj h
      exact hplain rfl
    · exact plain_of_map (fun _ => hplain rfl) h
  · rw [execParallelBarrier] at h
    split_ifs at h <;> obtain rfl := Except.ok.inj h <;> exact hplain rfl
  · obtain rfl := Except.ok.inj h
    exact plain_dryLoop phase _ _ _ _ _ _ _ _
  · obtain rfl := Except.ok.inj h
    exact plain_budgetLoop phase _ _ _ _ _ _ _ _
  · obtain rfl := Except.ok.inj h
    refine ⟨rfl, rfl, fun hr => if_neg ?_⟩
    simpa [Result.refuted] using hr
  · rw [execJudgePanel] at h
    split at h
    · obtain rfl := Except.ok.inj h
      exact hplain rfl
    · split at h
      · cases h
      · split at h
        · cases h
        · exact pickWinner_plain h

theorem resultOf_cases {phase : Phase} {input : Str} {tokensUsed : ℤ} {n : ℕ}
    {r : Except Str Result} (h : (execPhase env phase input budget tokensUsed n).1 = r) :
    (resultOf r).Plain ∨ ∃ e, resultOf r = { output := [], error := some e } := by
  cases r with
  | ok r => exact .inl (execPhase_plain h)
  | error e => exact .inr ⟨e, rfl⟩

theorem resultOf_tokens {phase : Phase} {input : Str} {tokensUsed : ℤ} {n : ℕ}
    {r : Except Str Result} (h : (execPhase env phase input budget tokensUsed n).1 = r) :
    (resultOf r).tokens = none := by
  rcases resultOf_cases h with h | ⟨e, h⟩
  · exact h.tokens
  · rw [h]

/-! ### One phase of a run -/

theorem executePhases_cons (phase : Phase) (phases : List Phase) (idx : ℕ) (input : Str)
    (tokensUsed : ℤ) (n : ℕ) {outcome : Outcome} {runs : List PhaseRun}
    (h : executePhases env budget (phase :: phases) idx input tokensUsed n = (outcome, runs)) :
    (env.cancelled idx = true ∧ outcome = .cancelled ∧ runs = []) ∨
    (env.cancelled idx = false ∧ outcome = .cancelled ∧
      runs = [⟨idx, phase, input, tokensUsed, [], none⟩]) ∨
    ∃ r tr, execPhase env phase input budget tokensUsed n = (r, tr) ∧
      env.cancelled idx = false ∧
      (((resultOf r).error.getD [] ≠ [] ∧ (∃ text, outcome = .failed text) ∧
          runs = [⟨idx, phase, input, tokensUsed, tr, some (resultOf r)⟩]) ∨
        ∃ rest, runs = ⟨idx, phase, input, tokensUsed, tr, some (resultOf r)⟩ :: rest ∧
          executePhases env budget phases (idx + 1) (nextInput input (resultOf r)) tokensUsed
            (n + tr.length) = (outcome, rest)) := by
  rw [executePhases] at h
  by_cases hc : env.cancelled idx = true
  · rw [if_pos hc] at h
    obtain ⟨rfl, rfl⟩ := Prod.mk.inj h
    exact .inl ⟨hc, rfl, rfl⟩
  rw [if_neg hc] at h
  have hc' : env.cancelled idx = false := Bool.eq_false_iff.mpr hc
  by_cases hi : env.interrupted idx = true
  · rw [if_pos hi] at h
    obtain ⟨rfl, rfl⟩ := Prod.mk.inj h
    exact .inr (.inl ⟨hc', rfl, rfl⟩)
  rw [if_neg hi] at h
  rcases hx : execPhase env phase input budget tokensUsed n with ⟨r, tr⟩
  refine .inr (.inr ⟨r, tr, rfl, hc', ?_⟩)
  have htokens : (resultOf r).tokens = none := resultOf_tokens (congrArg Prod.fst hx)
  rw [hx] at h
  simp only [htokens, Option.getD_none, add_zero] at h
  by_cases he : (resultOf r).error.getD [] ≠ [] ∧ ¬ phase.config.continueOnError = true
  · rw [if_pos he] at h
    obtain ⟨rfl, rfl⟩ := Prod.mk.inj h
    exact .inl ⟨he.1, ⟨_, rfl⟩, rfl⟩
  · rw [if_neg he] at h
    obtain ⟨rfl, rfl⟩ := Prod.mk.inj h
    exact .inr ⟨_, rfl, rfl⟩

end AgentStudio.Workflows

import AgentStudio.Execution.RunAudit

/-!
# Metering

`TokenBudget` of `agent_runtime/token_budget.py`, and what a run charges it with. The budget of a
run records the usage of all messages after every LLM node that the dispatch loop executes: usage
that was recorded before is recorded again, and LLM calls whose answers are not stored, or after
which no record comes, are missed. `spentTokens_iff` says for all runs of `executeGraph` when the
budget grows by what the LLM calls use: the surpluses of the steps (`Step.surplus`) have to come to
nothing.
-/

namespace AgentStudio.Execution

open PyText PyJson PyDict AgentStudio.Graph Programs

/-! ### Budgets -/

/-- `TokenBudget`, as far as `record_usage` reads and writes it. -/
structure TokenBudget where
  spentTokens : ℤ := 0
  promptTokens : ℤ := 0
  completionTokens : ℤ := 0
  reasoningTokens : ℤ := 0
  daySpentTokens : ℤ := 0
  dayKey : Str := []
  graphSpentTokens : List (Str × ℤ) := []

namespace TokenBudget

/-- `_roll_day`. -/
def rollDay (today : Str) (b : TokenBudget) : TokenBudget :=
  if b.dayKey = today then b else { b with dayKey := today, daySpentTokens := 0 }

/-- `record_usage`. -/
def recordUsage (today : Str) (b : TokenBudget) (promptTokens completionTokens : ℤ)
    (graphId : Str) (reasoningTokens : ℤ) : TokenBudget :=
  let total := promptTokens + completionTokens
  let b := { b with
    promptTokens := b.promptTokens + promptTokens
    completionTokens := b.completionTokens + completionTokens
    reasoningTokens := b.reasoningTokens + reasoningTokens
    spentTokens := b.promptTokens + promptTokens + (b.completionTokens + completionTokens) }
  let b := b.rollDay today
  { b with
    daySpentTokens := b.daySpentTokens + total
    graphSpentTokens :=
      if graphId = [] then b.graphSpentTokens
      else setItem graphId ((b.graphSpentTokens.lookup graphId).getD 0 + total) b.graphSpentTokens }

variable (B : BudgetRef)

def afterStep (today : Str) (q : Step) (b : TokenBudget) : TokenBudget :=
  match q.call with
  | .recordUsage budget usage =>
    if budget = B then
      b.recordUsage today usage.promptTokens usage.completionTokens [] usage.reasoningTokens
    else b
  | _ => b

/-- The budget after the steps from one on, which happen on given days. -/
def after (today : ℕ → Str) : ℕ → List (Event Step.Answer) → TokenBudget → TokenBudget
  | _, [], b => b
  | n, ev :: t, b => after today (n + 1) t (b.afterStep B (today n) ev.1)

/-- What the budget has not counted as spent, although it was recorded. -/
def gap (b : TokenBudget) : ℤ := b.promptTokens + b.completionTokens - b.spentTokens

end TokenBudget

/-! ### Charges of a run -/

section

variable (B : BudgetRef) (t : List (Event Step.Answer))

def tokensOf : ℤ := (t.map fun ev => ev.1.call.tokens ev.2).sum

def surplusOf : ℤ := (t.map fun ev => ev.1.surplus B ev.2).sum

def Step.records (q : Step) : Bool :=
  match q.call with
  | .recordUsage budget _ => budget = B
  | _ => false

end

variable {B : BudgetRef}

theorem afterStep_spec (today : Str) (q : Step) (b : TokenBudget) :
    (b.afterStep B today q).promptTokens + (b.afterStep B today q).completionTokens =
        b.promptTokens + b.completionTokens + q.recorded B ∧
      (b.afterStep B today q).spentTokens =
        b.spentTokens + q.recorded B + if q.records B then b.gap else 0 := by
  obtain ⟨c, ctx, call⟩ := q
  cases call
  case recordUsage budget usage =>
    by_cases hB : budget = B
    · have hroll (b : TokenBudget) : (b.rollDay today).promptTokens = b.promptTokens ∧
          (b.rollDay today).completionTokens = b.completionTokens ∧
          (b.rollDay today).spentTokens = b.spentTokens := by
        unfold TokenBudget.rollDay
        split_ifs <;> exact ⟨rfl, rfl, rfl⟩
      simp only [TokenBudget.afterStep, Step.recorded, Step.records, hB, if_true,
        TokenBudget.recordUsage, hroll, TokenBudget.gap, Usage.total, decide_true]
      constructor <;> ring
    · simp [TokenBudget.afterStep, Step.recorded, Step.records, hB]
  all_goals exact ⟨(add_zero _).symm, by simp [TokenBudget.afterStep, Step.recorded, Step.records]⟩

theorem spentTokens_after (today : ℕ → Str) (n : ℕ) (t : List (Event Step.Answer))
    (b : TokenBudget) :
    (b.after B today n t).spentTokens =
      b.spentTokens + (t.map fun ev => ev.1.recorded B).sum +
        if t.any fun ev => ev.1.records B then b.gap else 0 := by
  induction t generalizing n b with
  | nil => simp [TokenBudget.after]
  | cons ev t ih =>
    obtain ⟨hrecorded, hspent⟩ := afterStep_spec (B := B) (today n) ev.1 b
    have hgap : (b.afterStep B (today n) ev.1).gap =
        b.gap - if ev.1.records B then b.gap else 0 := by
      rw [TokenBudget.gap, hrecorded, hspent, TokenBudget.gap]
      ring
    rw [TokenBudget.after, ih, List.map_cons, List.sum_cons, List.any_cons, hspent, hgap]
    cases ev.1.records B with
    | true =>
      simp only [if_true, sub_self, ite_self, Bool.true_or]
      ring
    | false =>
      simp only [Bool.false_eq_true, if_false, sub_zero, Bool.false_or]
      ring

/-- **Metering.** In every run, the budget grows by the tokens of the LLM calls if and only if the
surpluses of the steps come to nothing, with the gap that a record closes. -/
theorem spentTokens_iff (e : Entry) (today : ℕ → Str) (b : TokenBudget)
    {t : List (Event Step.Answer)} {r : Except Stop Unit × Run}
    (ht : (executeGraph e).Traced t r) :
    (b.after B today 0 t).spentTokens = b.spentTokens + tokensOf t ↔
      surplusOf B t + (if t.any fun ev => ev.1.records B then b.gap else 0) = 0 := by
  have hsum := ((meets_executeGraph (B := B) e).traced ht).2
  have hrecorded : (t.map fun ev => ev.1.recorded B).sum = tokensOf t + surplusOf B t :=
    calc (t.map fun ev => ev.1.recorded B).sum
        = (t.map fun ev => (audit B).charge ev.1 ev.2).sum +
            (t.map fun ev => ev.1.recorded B).sum := by rw [hsum, zero_add]
      _ = (t.map fun ev => ev.1.call.tokens ev.2 + ev.1.surplus B ev.2).sum := by
        rw [← List.sum_map_add]
        simp only [audit, sub_add_cancel]
      _ = tokensOf t + surplusOf B t := List.sum_map_add
  rw [spentTokens_after, hrecorded]
  constructor <;> intro h <;> omega

/-- A run of a graph whose node `a` is an LLM node, with the budget `0`; another LLM node follows,
or not. -/
def metered (twice : Bool) : Entry where
  rt := { process := plainProcess }
  graph := {
    id := "g"
    nodes := [("s", { type := .start }),
      ("a", { type := .llm, model := "m" }),
      ("b", { type := if twice then .llm else .condition, model := "m" }),
      ("e", { type := .end_ })]
    edges := [{ sourceId := "s", targetId := "a" },
      { sourceId := "a", targetId := "b" },
      { sourceId := "b", targetId := "e" }]
    startNodeId := "s"
    nodup := by
      change List.Nodup ["s".toList, "a".toList, "b".toList, "e".toList]
      decide }
  budget := some 0

def fifteen : LLMResponse where
  content := "done"
  usage := some { promptTokens := 10, completionTokens := 5 }

/-- A run with one LLM call is charged what the call uses. -/
theorem spentTokens_once : (({} : TokenBudget).after 0 (fun _ => []) 0
      (obligingRun fifteen (metered false)).1).spentTokens =
    0 + tokensOf (obligingRun fifteen (metered false)).1 :=
  (spentTokens_iff _ _ _ (traced_obligingRun _ _)).mpr (by decide +kernel)

/-- After a second LLM node, the usage of the first one is recorded again: 45 tokens for 30. -/
theorem not_spentTokens : ¬ ∀ (e : Entry) (B : BudgetRef) (today : ℕ → Str) (b : TokenBudget)
    (t : List (Event Step.Answer)) (r : Except Stop Unit × Run), e.budget = some B → b.gap = 0 →
      (executeGraph e).Traced t r →
        (b.after B today 0 t).spentTokens = b.spentTokens + tokensOf t := by
  intro h
  have hspent := h (metered true) 0 (fun _ => []) {} _ _ rfl rfl (traced_obligingRun fifteen _)
  revert hspent
  decide +kernel

end AgentStudio.Execution

import AgentStudio.Execution.Runs
import AgentStudio.Library.Coroutines
import AgentStudio.Library.Machine

/-!
# The budgets of the funnels

The runs on one `AgentRuntime` share its two funnels, and each funnel holds one budget: the one
that `set_budget_ref` has given to it last. `_run_with_trajectory` gives the budget of a run to both
when the run starts, if the run has one; nothing takes it back. From then on the tool funnel gates
every admission against it, and the LLM funnel gates and charges every LLM call, for whichever run
it is.

Here the runs are coroutines over the funnels, and between two answers to one of them the others
may go on. `ownBudgets_iff`: all uses are of the own budget of the run that they are made for if and
only if no run uses a funnel while the last budget that was given is another one than its own
(`GivenLast`).
-/

namespace AgentStudio.Execution

open PyText AgentStudio.Graph Programs Coroutines

/-! ### Funnels -/

/-- `ToolFunnel` and `LLMFunnel`. -/
inductive Funnel where
  | tool
  | llm
deriving DecidableEq

/-- An admission or a charge: the budget of the run that it is made for, and the budget that the
funnel uses. -/
structure BudgetUse where
  funnel : Funnel
  own : Option BudgetRef
  used : Option BudgetRef
deriving DecidableEq

/-- The budget that each funnel was given last, and what the budgets were used for. -/
structure Funnels where
  toolRef : Option BudgetRef := none
  llmRef : Option BudgetRef := none
  uses : List BudgetUse := []

namespace Funnels

def ref (w : Funnels) : Funnel → Option BudgetRef
  | .tool => w.toolRef
  | .llm => w.llmRef

/-- `set_budget_ref` of both funnels. -/
def setBudgetRef (w : Funnels) (budget : BudgetRef) : Funnels :=
  { w with toolRef := some budget, llmRef := some budget }

def use (w : Funnels) (own : Option BudgetRef) (funnels : List Funnel) : Funnels :=
  { w with uses := w.uses ++ funnels.map fun f => { funnel := f, own, used := w.ref f } }

@[simp] theorem ref_use (w : Funnels) (own : Option BudgetRef) (funnels : List Funnel)
    (f : Funnel) : (w.use own funnels).ref f = w.ref f := by
  cases f <;> rfl

@[simp] theorem ref_setBudgetRef (w : Funnels) (budget : BudgetRef) (f : Funnel) :
    (w.setBudgetRef budget).ref f = some budget := by
  cases f <;> rfl

def OwnBudgets (w : Funnels) : Prop := ∀ u ∈ w.uses, u.used = u.own

theorem ownBudgets_use {w : Funnels} {own : Option BudgetRef} {funnels : List Funnel} :
    (w.use own funnels).OwnBudgets ↔ w.OwnBudgets ∧ ∀ f ∈ funnels, w.ref f = own := by
  simp only [OwnBudgets, use, List.forall_mem_append, List.forall_mem_map]

end Funnels

/-! ### Runs on a runtime -/

/-- The answer of an LLM call is there, and not an error: `post_llm` charges it, unless a broken
stream is asked for again. A call in place of a broken stream may fail, and what was reported is
charged. -/
def Call.isAnswered : (call : Call) → call.Answer → Bool
  | .chat (.answer true) _, .answered _ => true
  | .chat (.answer false) _, .answered r => r.checked.isOk
  | .chat (.streamFallback _) _, _ => true
  | .chat .selfRepair _, .answered _ => true
  | _, _ => false

def asksAgain {α : Type} : Program Step.Answer α → Bool
  | .ask ⟨_, _, .chat (.streamFallback _) _⟩ _ => true
  | _ => false

/-- The funnels of a runtime at a depth that a run uses between a question and the next one. The
runs inside the run have funnels of their own. -/
def funnelsUsed {α : Type} (depth : ℕ) (q : Step) (a : q.Answer) (rest : Program Step.Answer α) :
    List Funnel :=
  if q.scope.rt.subGraphDepth = depth then
    match q.call with
    | .admission _ _ _ _ => [.tool]
    | .preLlm => [.llm]
    | _ => if q.call.isAnswered a && !asksAgain rest then [.llm] else []
  else []

structure BudgetedRun where
  budget : Option BudgetRef
  program : Program Step.Answer (Except Stop Unit × Run)

namespace BudgetedRun

/-- The funnels that the run uses with the next answers. -/
def funnels (depth : ℕ) (respond : (q : Step) → q.Answer) (r : BudgetedRun) : List Funnel :=
  match r.program with
  | .ret _ => []
  | .ask q next => funnelsUsed depth q (respond q) (next (respond q))

def next (respond : (q : Step) → q.Answer) (r : BudgetedRun) : BudgetedRun :=
  match r.program with
  | .ret _ => r
  | .ask q next => { r with program := next (respond q) }

@[simp] theorem budget_next (respond : (q : Step) → q.Answer) (r : BudgetedRun) :
    (r.next respond).budget = r.budget := by
  unfold next
  split <;> rfl

def turn (depth : ℕ) (respond : (q : Step) → q.Answer) (r : BudgetedRun) (w : Funnels) :
    Turn Funnels BudgetedRun where
  world := w.use r.budget (r.funnels depth respond)
  self := r.next respond

end BudgetedRun

def effectiveBudget (rt : AgentRuntime) (e : Entry) : Option BudgetRef :=
  e.budget.or rt.defaultTokenBudget

/-- What happens on a runtime: a run starts, or one of the runs gets an answer. -/
inductive RuntimeInput where
  | start (e : Entry)
  | answer (n : ℕ) (respond : (q : Step) → q.Answer)

/-- One step on a runtime. A run without a budget leaves the funnels as they are. -/
def runtimeStep (rt : AgentRuntime) (i : RuntimeInput) (s : Pool Funnels BudgetedRun) :
    Unit × Pool Funnels BudgetedRun :=
  match i with
  | .start e =>
    let budget := effectiveBudget rt e
    ((), Pool.spawn { s with world := (budget.map s.world.setBudgetRef).getD s.world }
      { budget, program := executeGraph { e with rt } })
  | .answer n respond => ((), s.resume (BudgetedRun.turn rt.subGraphDepth) n respond)

def runtimeRun (rt : AgentRuntime) (is : List RuntimeInput) : Pool Funnels BudgetedRun :=
  (Machine.run (runtimeStep rt) is ⟨{}, []⟩).2

/-! ### The budget that was given last -/

/-- The budgets of the runs that were started, in their order. -/
def startedBudgets (rt : AgentRuntime) (is : List RuntimeInput) : List (Option BudgetRef) :=
  is.filterMap fun
    | .start e => some (effectiveBudget rt e)
    | .answer _ _ => none

def lastBudget (budgets : List (Option BudgetRef)) : Option BudgetRef :=
  budgets.foldl (fun last budget => budget.or last) none

theorem lastBudget_concat (budgets : List (Option BudgetRef)) (budget : Option BudgetRef) :
    lastBudget (budgets ++ [budget]) = budget.or (lastBudget budgets) := by
  rw [lastBudget, List.foldl_append]
  rfl

/-- Whenever a run uses a funnel, its own budget is the last one of the runs started until then. -/
def GivenLast (rt : AgentRuntime) (is : List RuntimeInput) : Prop :=
  ∀ before n respond after, is = before ++ .answer n respond :: after →
    ∀ r, (runtimeRun rt before).members[n]? = some r →
      r.funnels rt.subGraphDepth respond ≠ [] →
        (startedBudgets rt before)[n]? = some (lastBudget (startedBudgets rt before))

variable {rt : AgentRuntime}

theorem runtimeRun_concat (is : List RuntimeInput) (i : RuntimeInput) :
    runtimeRun rt (is ++ [i]) = (runtimeStep rt i (runtimeRun rt is)).2 :=
  Machine.run_append is [i] _

theorem map_budget_members (is : List RuntimeInput) :
    (runtimeRun rt is).members.map BudgetedRun.budget = startedBudgets rt is := by
  induction is using List.reverseRecOn with
  | nil => rfl
  | append_singleton is i ih =>
    rw [runtimeRun_concat, startedBudgets, List.filterMap_append, ← startedBudgets, ← ih]
    cases i with
    | start e => simp [runtimeStep, Pool.spawn]
    | answer n respond =>
      cases hn : (runtimeRun rt is).members[n]? with
      | none => simp [runtimeStep, Pool.resume_of_none hn]
      | some r =>
        have hset : (((runtimeRun rt is).members.map BudgetedRun.budget).set n r.budget) =
            (runtimeRun rt is).members.map BudgetedRun.budget := by
          obtain ⟨hlt, rfl⟩ := List.getElem?_eq_some_iff.mp hn
          rw [← List.map_set, List.set_getElem_self]
        simp [runtimeStep, Pool.resume_of_some hn, BudgetedRun.turn, List.map_set, hset]

theorem ref_world (is : List RuntimeInput) (f : Funnel) :
    (runtimeRun rt is).world.ref f = lastBudget (startedBudgets rt is) := by
  induction is using List.reverseRecOn with
  | nil => cases f <;> rfl
  | append_singleton is i ih =>
    rw [runtimeRun_concat, startedBudgets, List.filterMap_append, ← startedBudgets]
    cases i with
    | start e =>
      have hlast : lastBudget (startedBudgets rt is ++ [effectiveBudget rt e]) =
          (effectiveBudget rt e).or (lastBudget (startedBudgets rt is)) := lastBudget_concat _ _
      refine Eq.trans ?_ hlast.symm
      cases hbudget : effectiveBudget rt e with
      | none => simpa [runtimeStep, Pool.spawn, hbudget] using ih
      | some budget => simp [runtimeStep, Pool.spawn, hbudget]
    | answer n respond =>
      cases hn : (runtimeRun rt is).members[n]? with
      | none => simpa [runtimeStep, Pool.resume_of_none hn] using ih
      | some r => simpa [runtimeStep, Pool.resume_of_some hn, BudgetedRun.turn] using ih

/-! ### Own budgets -/

/-- The run that gets an answer uses only funnels that have its own budget. -/
def UsesOwn (rt : AgentRuntime) (i : RuntimeInput) (s : Pool Funnels BudgetedRun) : Prop :=
  match i with
  | .start _ => True
  | .answer n respond => ∀ r, s.members[n]? = some r →
      ∀ f ∈ r.funnels rt.subGraphDepth respond, s.world.ref f = r.budget

theorem ownBudgets_step (i : RuntimeInput) (s : Pool Funnels BudgetedRun) :
    (runtimeStep rt i s).2.world.OwnBudgets ↔ s.world.OwnBudgets ∧ UsesOwn rt i s := by
  cases i with
  | start e =>
    have huses : (runtimeStep rt (.start e) s).2.world.uses = s.world.uses := by
      cases hbudget : effectiveBudget rt e <;> simp [runtimeStep, Pool.spawn, hbudget]
      rfl
    rw [Funnels.OwnBudgets, huses]
    exact (and_iff_left trivial).symm
  | answer n respond =>
    cases hn : s.members[n]? with
    | none => simp [runtimeStep, UsesOwn, Pool.resume_of_none hn, hn]
    | some r =>
      simp [runtimeStep, UsesOwn, Pool.resume_of_some hn, hn, BudgetedRun.turn,
        Funnels.ownBudgets_use]

/-- **Own budgets.** However the runs on a runtime overlap: every admission and every charge is
against the own budget of its run if and only if whenever a run uses a funnel, its own budget is
the one that was given last. -/
theorem ownBudgets_iff (rt : AgentRuntime) (is : List RuntimeInput) :
    (runtimeRun rt is).world.OwnBudgets ↔ GivenLast rt is := by
  have hinit : Funnels.OwnBudgets {} := List.forall_mem_nil _
  have hrun : (runtimeRun rt is).world.OwnBudgets ↔
      Machine.Along (runtimeStep rt) (UsesOwn rt) is ⟨{}, []⟩ :=
    (Machine.run_invariant_iff (I := fun s : Pool Funnels BudgetedRun => s.world.OwnBudgets)
      ownBudgets_step is _).trans (and_iff_right hinit)
  refine hrun.trans (Machine.along_iff_forall_split.trans ?_)
  constructor
  · intro h before n respond after his r hr hused
    obtain ⟨f, hf⟩ := List.exists_mem_of_ne_nil _ hused
    have hown : (runtimeRun rt before).world.ref f = r.budget := h _ _ _ his r hr f hf
    rw [← map_budget_members, List.getElem?_map, hr, Option.map_some, ← hown, ref_world,
      map_budget_members]
  · intro h before i after his
    cases i with
    | start e => trivial
    | answer n respond =>
      intro r hr f hf
      have hlast := h before n respond after his r hr (List.ne_nil_of_mem hf)
      have hr' : (runtimeRun rt before).members[n]? = some r := hr
      rw [← map_budget_members, List.getElem?_map, hr', Option.map_some,
        map_budget_members] at hlast
      exact (ref_world before f).trans (Option.some.inj hlast).symm

/-! ### Two runs -/

def askingGraph : AgentGraph where
  id := "g"
  nodes := [("s", { type := .start }), ("l", { type := .llm, model := "m" })]
  edges := [{ sourceId := "s", targetId := "l" }]
  startNodeId := "s"
  nodup := by
    change List.Nodup ["s".toList, "l".toList]
    decide

/-- A run with a budget starts, then one without, which gets a number of answers. -/
def budgetThenNone (answers : ℕ) : List RuntimeInput :=
  [.start { rt := { process := plainProcess }, graph := askingGraph, budget := some 0 },
    .start { rt := { process := plainProcess }, graph := askingGraph }] ++
    List.replicate answers (.answer 1 fun q => q.call.oblige {})

/-- A run without a budget uses the budget of the run before it. -/
theorem not_ownBudgets : ¬ ∀ (rt : AgentRuntime) (is : List RuntimeInput),
    (runtimeRun rt is).world.OwnBudgets := by
  intro h
  have huse : (runtimeRun { process := plainProcess } (budgetThenNone 12)).world.uses.any
      (fun u => decide (u.used ≠ u.own)) = true := by
    decide +kernel
  obtain ⟨u, hu, hne⟩ := List.any_eq_true.mp huse
  exact of_decide_eq_true hne (h _ _ u hu)

end AgentStudio.Execution

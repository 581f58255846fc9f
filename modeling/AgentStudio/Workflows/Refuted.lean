import AgentStudio.Workflows.Engine

/-!
# Refuted claims

A verification phase of `agent_runtime/workflow_engine.py` whose skeptics refute the claim, its
input, ends with an empty output. The loop of the phases takes an empty output for no output and
keeps the input for the next phase.

`Dropped` says that a refuted claim is neither the input of a later phase nor the output of the
run. `dropped_iff` says when this is so: only when the run is cancelled right after each
refutation.
-/

namespace AgentStudio.Workflows

open PyText

/-- The phase was a verification that refuted its claim. -/
def PhaseRun.Refuted (p : PhaseRun) : Prop := ∃ r, p.result = some r ∧ r.refuted = true

/-- No claim that a phase refutes is passed to a later phase or returned by the run. -/
def Dropped (run : Outcome × List PhaseRun) : Prop :=
  ∀ before p after, run.2 = before ++ p :: after → p.Refuted →
    (∀ q ∈ after, q.input ≠ p.input) ∧ ∀ tokensUsed, run.1 ≠ .completed p.input tokensUsed

/-- The run is cancelled right after each phase that refutes its claim; it has the given number
of phases. -/
def CancelledWhenRefuted (env : Env) (phases : ℕ) (run : Outcome × List PhaseRun) : Prop :=
  ∀ p ∈ run.2, p.Refuted → p.idx + 1 < phases ∧ env.cancelled (p.idx + 1) = true

private theorem dropped_cons {outcome : Outcome} {p : PhaseRun} {runs : List PhaseRun} :
    Dropped (outcome, p :: runs) ↔
      (p.Refuted → (∀ q ∈ runs, q.input ≠ p.input) ∧
        ∀ tokensUsed, outcome ≠ .completed p.input tokensUsed) ∧
      Dropped (outcome, runs) := by
  constructor
  · refine fun h => ⟨h [] p runs rfl, fun before q after hq => ?_⟩
    exact h (p :: before) q after (congrArg (p :: ·) hq)
  · rintro ⟨hp, hruns⟩ before q after hq
    cases before with
    | nil =>
      obtain ⟨rfl, rfl⟩ := List.cons.inj hq
      exact hp
    | cons _ before => exact hruns before q after (List.cons.inj hq).2

variable {env : Env} {budget : Option ℤ}

/-- The phases that a run begins with some text keep clear of it only if the run is cancelled
before the first of them. -/
private theorem keeps_clear_iff {phases : List Phase} {idx : ℕ} {input : Str} {tokensUsed : ℤ}
    {n : ℕ} {outcome : Outcome} {runs : List PhaseRun}
    (h : executePhases env budget phases idx input tokensUsed n = (outcome, runs)) :
    ((∀ q ∈ runs, q.input ≠ input) ∧ ∀ used, outcome ≠ .completed input used) ↔
      0 < phases.length ∧ env.cancelled idx = true := by
  cases phases with
  | nil =>
    obtain ⟨rfl, rfl⟩ := Prod.mk.inj h
    exact ⟨fun h => absurd rfl (h.2 tokensUsed), fun h => absurd h.1 (Nat.lt_irrefl 0)⟩
  | cons phase phases =>
    rcases executePhases_cons phase phases idx input tokensUsed n h with
      ⟨hc, rfl, rfl⟩ | ⟨hc, -, rfl⟩ | ⟨r, tr, -, hc, ⟨-, -, rfl⟩ | ⟨rest, rfl, -⟩⟩
    · exact ⟨fun _ => ⟨Nat.succ_pos _, hc⟩, fun _ => ⟨by simp, fun _ h => by cases h⟩⟩
    all_goals
      rw [hc]
      exact ⟨fun h => absurd rfl (h.1 _ List.mem_cons_self), fun h => by cases h.2⟩

private theorem cancelledWhenRefuted_cons {phases : ℕ} {outcome : Outcome} {p : PhaseRun}
    {runs : List PhaseRun} :
    CancelledWhenRefuted env phases (outcome, p :: runs) ↔
      (p.Refuted → p.idx + 1 < phases ∧ env.cancelled (p.idx + 1) = true) ∧
      CancelledWhenRefuted env phases (outcome, runs) :=
  List.forall_mem_cons

private theorem not_refuted {p : PhaseRun}
    (h : ∀ r, p.result = some r → r.refuted = false) : ¬ p.Refuted := by
  rintro ⟨r, hr, hrefuted⟩
  rw [h r hr] at hrefuted
  cases hrefuted

/-- **A refuted claim goes on.** From any phase on, refuted claims are dropped if and only if the
run is cancelled right after each refutation. -/
theorem dropped_executePhases_iff (env : Env) (budget : Option ℤ) (phases : List Phase) :
    ∀ (idx : ℕ) (input : Str) (tokensUsed : ℤ) (n : ℕ) (outcome : Outcome) (runs : List PhaseRun),
      executePhases env budget phases idx input tokensUsed n = (outcome, runs) →
      (Dropped (outcome, runs) ↔
        CancelledWhenRefuted env (idx + phases.length) (outcome, runs)) := by
  induction phases with
  | nil =>
    intro idx input tokensUsed n outcome runs h
    obtain ⟨rfl, rfl⟩ := Prod.mk.inj h
    exact ⟨fun _ => List.forall_mem_nil _, fun _ before p after h => by
      cases before <;> cases h⟩
  | cons phase phases ih =>
    intro idx input tokensUsed n outcome runs h
    have hnil : Dropped (outcome, []) := fun before p after h => by cases before <;> cases h
    have hlast : ∀ p : PhaseRun, ¬ p.Refuted → (Dropped (outcome, [p]) ↔
        CancelledWhenRefuted env (idx + (phase :: phases).length) (outcome, [p])) := by
      intro p hp
      rw [dropped_cons, cancelledWhenRefuted_cons]
      exact ⟨fun _ => ⟨fun h => absurd h hp, List.forall_mem_nil _⟩,
        fun _ => ⟨fun h => absurd h hp, hnil⟩⟩
    rcases executePhases_cons phase phases idx input tokensUsed n h with
      ⟨-, -, rfl⟩ | ⟨-, -, rfl⟩ | ⟨r, tr, hexec, -, ⟨herror, -, rfl⟩ | ⟨rest, rfl, hrest⟩⟩
    · exact ⟨fun _ => List.forall_mem_nil _, fun _ => hnil⟩
    · exact hlast _ (not_refuted fun r hr => by cases hr)
    · refine hlast _ (not_refuted fun r' hr' => ?_)
      obtain rfl := Option.some.inj hr'
      rcases resultOf_cases (congrArg Prod.fst hexec) with hplain | ⟨e, he⟩
      · exact absurd (by rw [hplain.error]; rfl) herror
      · rw [he]
        rfl
    · rw [dropped_cons, cancelledWhenRefuted_cons, ih _ _ _ _ _ _ hrest, List.length_cons,
        Nat.add_right_comm idx 1, ← Nat.add_assoc]
      refine and_congr_left fun _ => imp_congr_right ?_
      rintro ⟨r', hr', hrefuted⟩
      obtain rfl := Option.some.inj hr'
      -- the empty output of the refutation keeps its claim as the next input
      have hkept : nextInput input (resultOf r) = input := by
        rcases resultOf_cases (congrArg Prod.fst hexec) with hplain | ⟨e, he⟩
        · exact if_pos (hplain.output hrefuted)
        · rw [he]
          rfl
      rw [hkept] at hrest
      rw [keeps_clear_iff hrest]
      refine and_congr_left fun _ => ?_
      dsimp only
      omega

/-- **Refuted claims are dropped only by cancelling the run.** -/
theorem dropped_iff (env : Env) (phases : List Phase) (initialInput : Str) (budget : Option ℤ) :
    Dropped (execute env phases initialInput budget) ↔
      CancelledWhenRefuted env phases.length (execute env phases initialInput budget) := by
  have h : Dropped (execute env phases initialInput budget) ↔
      CancelledWhenRefuted env (0 + phases.length) (execute env phases initialInput budget) :=
    dropped_executePhases_iff env budget phases 0 initialInput 0 0 _ _ rfl
  rwa [Nat.zero_add] at h

/-! ### A claim that all skeptics refute -/

/-- Agents that refute every claim, in a run that is not cancelled. -/
def skeptical : Env where
  backend := true
  answer _ _ _ := ⟨.ok "false", 1, 1⟩
  loads _ := .error (.caught [])
  maxBranches := 32
  cancelled _ := false
  interrupted _ := false

def verification : Phase :=
  ⟨"verify", .adversarialVerify, [[("name", "skeptic")]], {}⟩

/-- A run of one verification returns the claim that it refutes. -/
theorem not_dropped : ¬ ∀ (env : Env) (phases : List Phase) (initialInput : Str)
    (budget : Option ℤ), Dropped (execute env phases initialInput budget) := by
  intro h
  let run := execute skeptical [verification] "claim" none
  have hiff : Dropped run ↔ CancelledWhenRefuted skeptical 1 run :=
    dropped_executePhases_iff skeptical none [verification] 0 "claim" 0 0 _ _ rfl
  have hcancelled := hiff.mp (h skeptical [verification] "claim" none)
  exact absurd (hcancelled _ List.mem_cons_self ⟨_, rfl, by decide +kernel⟩).1 (by decide)

end AgentStudio.Workflows

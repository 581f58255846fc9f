import AgentStudio.Orchestration.Safety

/-!
# Runs that end in an error event

The runtime reports a failure as an `ERROR` event, and the patterns of the orchestrator look at
exceptions only. `recorded_iff` says which runs leave an entry in the errors of a result: those
that raise, in `parallel` only with a text, and in a handoff chain also those after which the
swarm router raises; no exception of a master or a supervisor is recorded, it ends the
orchestration. `Threaded` says what a run is fed: in a chain every run is fed the output of the
run before it, unless that raised.

So a run that ends in an `ERROR` event leaves no entry of its own and feeds the next agent.
`failuresReported_iff` is the exact condition under which the result still looks right, and
`not_failuresReported` a chain of two agents where it does not.
-/

namespace AgentStudio.Orchestration

open PyText PyJson

/-! ### What is recorded -/

/-- A part in a pattern where the output is the input of the next agent. -/
def Role.Chains : Role → Prop
  | step | link => True
  | worker | lead | routed => False

def Run.Recorded (run : Run) : Prop :=
  match run.role with
  | .lead => False
  | .worker => ∃ e, run.outcome.raised = some e ∧ e ≠ []
  | .link => run.outcome.raised.isSome ∨ ∃ e, run.hop = some (.error e)
  | .step | .routed => run.outcome.raised.isSome

/-- The errors of a result name the agents of the runs that are recorded. -/
def Accounts (errors : List ErrorEntry) (runs : List Run) : Prop :=
  ∀ name, (∃ e ∈ errors, e.agent = name) ↔ ∃ run ∈ runs, run.agent = name ∧ run.Recorded

variable {errors : List ErrorEntry} {runs : List Run} {run : Run}

theorem Accounts.concat (h : Accounts errors runs) (hrun : ¬ run.Recorded) :
    Accounts errors (runs ++ [run]) := by
  intro name
  rw [h name]
  constructor
  · rintro ⟨run', hmem, h'⟩
    exact ⟨run', List.mem_append_left _ hmem, h'⟩
  · rintro ⟨run', hmem, h'⟩
    rcases mem_snoc.mp hmem with hmem | rfl
    · exact ⟨run', hmem, h'⟩
    · exact absurd h'.2 hrun

theorem Accounts.concat_recorded (h : Accounts errors runs) (hrun : run.Recorded)
    {e : ErrorEntry} (he : e.agent = run.agent) :
    Accounts (errors ++ [e]) (runs ++ [run]) := by
  intro name
  simp only [List.mem_append, List.mem_singleton, or_and_right, exists_or, exists_eq_left, h name,
    he]
  exact or_congr_right (and_iff_left hrun).symm

/-! ### What is fed -/

/-- Every run was fed the output of an earlier run of the chain, if any, and in a chain that of
the run before it if this one did not raise. -/
structure Threaded (runs : List Run) : Prop where
  earlier : ∀ (j : ℕ) run', runs[j]? = some run' → ∀ k, run'.fedBy = some k →
    k < j ∧ ∃ run, runs[k]? = some run ∧ run.role.Chains
  next : ∀ (k : ℕ) run run', runs[k]? = some run → runs[k + 1]? = some run' →
    run.role.Chains → run.outcome.raised = none → run'.fedBy = some k

structure Feeds (runs : List Run) (fedBy : Option ℕ) : Prop where
  earlier : ∀ k, fedBy = some k → ∃ run, runs[k]? = some run ∧ run.role.Chains
  last : ∀ (k : ℕ) run, runs[k]? = some run → k + 1 = runs.length → run.role.Chains →
    run.outcome.raised = none → fedBy = some k

theorem threaded_nil : Threaded [] := ⟨by simp, by simp⟩

theorem feeds_nil : Feeds [] none := ⟨by simp, by simp⟩

theorem Threaded.concat (h : Threaded runs) (hfed : Feeds runs run.fedBy) :
    Threaded (runs ++ [run]) := by
  have hold : ∀ {k : ℕ} {run' : Run}, runs[k]? = some run' → (runs ++ [run])[k]? = some run' :=
    fun hk => List.getElem?_append_left (List.getElem?_eq_some_iff.mp hk).1 ▸ hk
  -- a run of the longer list is an old one or the new one
  have hcases : ∀ {j : ℕ} {run' : Run}, (runs ++ [run])[j]? = some run' →
      runs[j]? = some run' ∨ j = runs.length ∧ run' = run := by
    intro j run' hj
    rw [List.getElem?_append] at hj
    split_ifs at hj with hlt
    · exact .inl hj
    · obtain ⟨hlt', heq⟩ := List.getElem?_eq_some_iff.mp hj
      have : j = runs.length := by simp at hlt'; omega
      subst this
      exact .inr ⟨rfl, by simpa using heq.symm⟩
  refine ⟨fun j run' hj k hk => ?_, fun k run₁ run₂ hk hk' hchain hraised => ?_⟩
  · rcases hcases hj with hj | ⟨rfl, rfl⟩
    · obtain ⟨hlt, run₁, hrun₁, hchain⟩ := h.earlier j run' hj k hk
      exact ⟨hlt, run₁, hold hrun₁, hchain⟩
    · obtain ⟨run₁, hrun₁, hchain⟩ := hfed.earlier k hk
      exact ⟨(List.getElem?_eq_some_iff.mp hrun₁).1, run₁, hold hrun₁, hchain⟩
  · rcases hcases hk' with hold₂ | ⟨hlen, rfl⟩
    · have hlt := (List.getElem?_eq_some_iff.mp hold₂).1
      rcases hcases hk with hold₁ | ⟨rfl, -⟩
      · exact h.next k run₁ run₂ hold₁ hold₂ hchain hraised
      · omega
    · rcases hcases hk with hold₁ | ⟨rfl, -⟩
      · exact hfed.last k run₁ hold₁ hlen hchain hraised
      · omega

theorem feeds_concat (hchain : run.role.Chains) : Feeds (runs ++ [run]) (some runs.length) := by
  refine ⟨fun k hk => ?_, fun k run' hk hlen _ _ => ?_⟩
  · obtain rfl := Option.some.inj hk
    exact ⟨run, List.getElem?_concat_length, hchain⟩
  · rw [List.length_append, List.length_singleton, Nat.add_right_cancel_iff] at hlen
    rw [hlen]

/-- After a run that raised or is no part of a chain, what was to be fed is still to be fed. -/
theorem Feeds.concat {fedBy : Option ℕ} (h : Feeds runs fedBy)
    (hrun : run.role.Chains → run.outcome.raised ≠ none) : Feeds (runs ++ [run]) fedBy := by
  refine ⟨fun k hk => ?_, fun k run' hk hlen hchain hraised => ?_⟩
  · obtain ⟨run', hrun', hchain⟩ := h.earlier k hk
    exact ⟨run', List.getElem?_append_left (List.getElem?_eq_some_iff.mp hrun').1 ▸ hrun', hchain⟩
  · rw [List.length_append, List.length_singleton, Nat.add_right_cancel_iff] at hlen
    rw [hlen, List.getElem?_concat_length, Option.some.injEq] at hk
    subst hk
    exact absurd hraised (hrun hchain)

/-! ### The patterns -/

/-- What holds of an orchestration: its runs are threaded, and the errors of its result name the
agents of the runs that are recorded. -/
structure Sound (x : Except Str OrchestrationResult × List Run) : Prop where
  threaded : Threaded x.2
  accounts : ∀ r, x.1 = .ok r → Accounts r.errors x.2

theorem accounts_nil : Accounts [] [] := fun _ => by simp

namespace Orchestrator

variable {W : World} {o : Orchestrator}

theorem sound_sequentialFrom (agents : List AgentConfig) (input : Str) {fedBy : Option ℕ}
    {r : OrchestrationResult} (haccounts : Accounts r.errors runs) (hthreaded : Threaded runs)
    (hfeeds : Feeds runs fedBy) :
    Accounts (sequentialFrom W o agents input fedBy r runs).1.errors
        (sequentialFrom W o agents input fedBy r runs).2 ∧
      Threaded (sequentialFrom W o agents input fedBy r runs).2 := by
  induction agents generalizing input fedBy r runs with
  | nil => exact ⟨haccounts, hthreaded⟩
  | cons a agents ih =>
    rw [sequentialFrom]
    generalize hrun : launch W .step o.guardedRuntime a (.str input)
      { agentName := some a.name } fedBy runs = run
    have hrole : run.role = .step := hrun ▸ rfl
    have hagent : run.agent = a.name := hrun ▸ rfl
    have hfed : run.fedBy = fedBy := hrun ▸ rfl
    have hthreaded' : Threaded (runs ++ [run]) := hthreaded.concat (hfed ▸ hfeeds)
    dsimp only
    cases hraised : run.outcome.raised with
    | some e =>
      have hrecorded : run.Recorded := by simp [Run.Recorded, hrole, hraised]
      exact ih input (haccounts.concat_recorded hrecorded hagent.symm) hthreaded'
        (hfeeds.concat fun _ => by simp [hraised])
    | none =>
      have hrecorded : ¬ run.Recorded := by simp [Run.Recorded, hrole, hraised]
      exact ih _ (haccounts.concat hrecorded) hthreaded' (feeds_concat (hrole ▸ trivial))

theorem parallelFrom_eq (inputTemplate : Str) (perAgentInputs : List Str) (i : ℕ)
    (agents : List AgentConfig) (hthreaded : Threaded runs) (hfeeds : Feeds runs none) :
    ∃ workers, parallelFrom W o inputTemplate perAgentInputs i agents runs = runs ++ workers ∧
      (∀ run ∈ workers, run.role = .worker) ∧ Threaded (runs ++ workers) ∧
      Feeds (runs ++ workers) none := by
  induction agents generalizing i runs with
  | nil =>
    exact ⟨[], by simp [parallelFrom], by simp, by simpa using hthreaded, by simpa using hfeeds⟩
  | cons a agents ih =>
    rw [parallelFrom]
    generalize hrun : launch W .worker o.parallelRuntime a
      (.str (perAgentInputs[i]?.getD inputTemplate)) { agentName := some a.name } none runs = run
    have hrole : run.role = .worker := hrun ▸ rfl
    have hfed : run.fedBy = none := hrun ▸ rfl
    obtain ⟨workers, heq, hroles, hthreaded', hfeeds'⟩ := ih (i + 1)
      (hthreaded.concat (hfed ▸ hfeeds)) (hfeeds.concat fun h => by simp [hrole, Role.Chains] at h)
    refine ⟨run :: workers, by simpa using heq, fun run' h => ?_, by simpa using hthreaded',
      by simpa using hfeeds'⟩
    rcases List.mem_cons.mp h with rfl | h
    · exact hrole
    · exact hroles run' h

theorem accounts_workers {workers : List Run} (hroles : ∀ run ∈ workers, run.role = .worker)
    (haccounts : Accounts errors runs) :
    Accounts (errors ++ workerErrors workers) (runs ++ workers) := by
  induction workers generalizing errors runs with
  | nil => simpa [workerErrors] using haccounts
  | cons run workers ih =>
    obtain ⟨hrole, hroles⟩ := List.forall_mem_cons.mp hroles
    rw [workerErrors, List.filterMap_cons]
    by_cases herror : workerError run = []
    · have hrecorded : ¬ run.Recorded := by
        simp only [Run.Recorded, hrole, not_exists, not_and, not_not]
        intro e he
        simpa [workerError, he] using herror
      simpa [herror, workerErrors] using ih hroles (haccounts.concat hrecorded)
    · have hrecorded : run.Recorded := by
        simp only [Run.Recorded, hrole]
        cases hraised : run.outcome.raised with
        | none => exact absurd (by simp [workerError, hraised]) herror
        | some e => exact ⟨e, rfl, by simpa [workerError, hraised] using herror⟩
      have h := ih hroles (haccounts.concat_recorded hrecorded
        (e := ⟨run.agent, none, workerError run⟩) rfl)
      simpa [herror, workerErrors] using h

theorem sound_parallel (agents : List AgentConfig) (inputTemplate : Str)
    (perAgentInputs : List Str) :
    Accounts (parallel W o agents inputTemplate perAgentInputs).1.errors
        (parallel W o agents inputTemplate perAgentInputs).2 ∧
      Threaded (parallel W o agents inputTemplate perAgentInputs).2 := by
  obtain ⟨workers, heq, hroles, hthreaded, -⟩ :=
    @parallelFrom_eq [] W o inputTemplate perAgentInputs 0 agents threaded_nil feeds_nil
  rw [parallel, parallelAfter, heq]
  exact ⟨by simpa using accounts_workers hroles accounts_nil, by simpa using hthreaded⟩

theorem sound_masterWorker (master : AgentConfig) (workers : List AgentConfig) (task : Str) :
    Sound (masterWorker W o master workers task) := by
  have hlead : ∀ input runs, ¬ (launch W .lead o.guardedRuntime master input {} none
      runs).Recorded := fun _ _ => id
  rw [masterWorker]
  generalize hfirst : launch W .lead o.guardedRuntime master
    (.str (decomposePrompt workers.length task)) {} none [] = first
  have hnotRecorded : ¬ first.Recorded := hfirst ▸ hlead _ _
  have hthreaded : Threaded [first] := threaded_nil.concat (hfirst ▸ feeds_nil)
  have hfeeds : Feeds [first] none := feeds_nil.concat (hfirst ▸ False.elim)
  have haccounts : Accounts [] [first] := accounts_nil.concat hnotRecorded
  dsimp only
  split
  · exact ⟨hthreaded, fun r h => by simp at h⟩
  · obtain ⟨new, heq, hroles, hthreaded', hfeeds'⟩ := @parallelFrom_eq [first] W o []
      (extractSubTasks W first.outcome workers.length) 0 workers hthreaded hfeeds
    rw [parallelAfter, heq, List.drop_left]
    dsimp only
    generalize hlast : launch W .lead o.guardedRuntime master _ {} none _ = last
    have hnotRecorded' : ¬ last.Recorded := hlast ▸ hlead _ _
    have hall : Threaded (([first] ++ new) ++ [last]) := hthreaded'.concat (hlast ▸ hfeeds')
    split
    · exact ⟨hall, fun r h => by simp at h⟩
    · refine ⟨hall, fun r h => ?_⟩
      obtain rfl := Except.ok.inj h
      exact (accounts_workers hroles haccounts).concat hnotRecorded'

theorem sound_handoffFrom (i : ℕ) (agents : List AgentConfig) (accumulated : Str)
    (chain : List HandoffContext) {fedBy : Option ℕ} {r : OrchestrationResult}
    (haccounts : Accounts r.errors runs) (hthreaded : Threaded runs) (hfeeds : Feeds runs fedBy) :
    Accounts (handoffFrom W o i agents accumulated chain fedBy r runs).1.errors
        (handoffFrom W o i agents accumulated chain fedBy r runs).2 ∧
      Threaded (handoffFrom W o i agents accumulated chain fedBy r runs).2 := by
  induction agents generalizing i accumulated chain fedBy r runs with
  | nil => exact ⟨haccounts, hthreaded⟩
  | cons a agents ih =>
    rw [handoffFrom]
    generalize hrun : launch W .link o.guardedRuntime a (.str (handoffInput accumulated chain))
      { agentName := some a.name, handoffIndex := some i } fedBy runs = run
    have hrole : run.role = .link := hrun ▸ rfl
    have hagent : run.agent = a.name := hrun ▸ rfl
    have hfed : run.fedBy = fedBy := hrun ▸ rfl
    have hhop : run.hop = none := hrun ▸ rfl
    dsimp only
    cases hraised : run.outcome.raised with
    | some e =>
      have hrecorded : run.Recorded := by simp [Run.Recorded, hrole, hraised]
      exact ⟨haccounts.concat_recorded hrecorded hagent.symm, hthreaded.concat (hfed ▸ hfeeds)⟩
    | none =>
      dsimp only
      generalize hopTo W o i a (extractFinalOutput run.outcome) agents = hop
      have hthreaded' : Threaded (runs ++ [{ run with hop }]) :=
        hthreaded.concat (hfed ▸ hfeeds)
      -- a run that did not raise is recorded only if the swarm router raises
      have hquiet : (∀ e, hop ≠ some (.error e)) → ¬ ({ run with hop } : Run).Recorded := by
        intro hne
        simp only [Run.Recorded, hrole, hraised, Option.isSome_none, Bool.false_eq_true, false_or]
        exact not_exists.mpr hne
      split
      · rename_i e
        have hrecorded : ({ run with hop := some (.error e) } : Run).Recorded := by
          simp [Run.Recorded, hrole]
        exact ⟨haccounts.concat_recorded hrecorded hagent.symm, hthreaded'⟩
      · exact ⟨haccounts.concat (hquiet (by simp)), hthreaded'⟩
      · rename_i hne _
        have haccounts' := haccounts.concat (hquiet hne)
        split_ifs
        · exact ⟨haccounts', hthreaded'⟩
        · have hchain : ({ run with hop } : Run).role.Chains := by
            simp [hrole, Role.Chains]
          exact ih _ _ _ haccounts' hthreaded' (feeds_concat hchain)

theorem sound_supervisorFrom (supervisor : AgentConfig) (workerMap : List (Str × AgentConfig))
    (left round : ℕ) (currentTask : Str) (history : List Routing) {r : OrchestrationResult}
    (haccounts : Accounts r.errors runs) (hthreaded : Threaded runs) (hfeeds : Feeds runs none) :
    Sound (supervisorFrom W o supervisor workerMap left round currentTask history r runs) := by
  induction left generalizing round currentTask history r runs with
  | zero =>
    refine ⟨hthreaded, fun r' h => ?_⟩
    obtain rfl := Except.ok.inj h
    exact haccounts
  | succ left ih =>
    rw [supervisorFrom]
    generalize hlead : launch W .lead o.guardedRuntime supervisor _ _ none runs = lead
    have hleadRole : lead.role = .lead := hlead ▸ rfl
    have hleadAccounts : Accounts r.errors (runs ++ [lead]) :=
      haccounts.concat (by simp [Run.Recorded, hleadRole])
    have hleadThreaded : Threaded (runs ++ [lead]) := hthreaded.concat (hlead ▸ hfeeds)
    have hleadFeeds : Feeds (runs ++ [lead]) none :=
      hfeeds.concat (by simp [hleadRole, Role.Chains])
    dsimp only
    split
    · exact ⟨hleadThreaded, fun r h => by simp at h⟩
    · split_ifs
      · refine ⟨hleadThreaded, fun r' h => ?_⟩
        obtain rfl := Except.ok.inj h
        exact hleadAccounts
      · split
        · exact ⟨hleadThreaded, fun r h => by simp at h⟩
        · rename_i a _
          generalize hrun : launch W .routed o.guardedRuntime a _ _ none (runs ++ [lead]) = run
          have hrole : run.role = .routed := hrun ▸ rfl
          have hagent : run.agent = a.name := hrun ▸ rfl
          have hthreaded' : Threaded (runs ++ [lead] ++ [run]) :=
            hleadThreaded.concat (hrun ▸ hleadFeeds)
          have hfeeds' : Feeds (runs ++ [lead] ++ [run]) none :=
            hleadFeeds.concat (by simp [hrole, Role.Chains])
          cases hraised : run.outcome.raised with
          | some e =>
            have hrecorded : run.Recorded := by simp [Run.Recorded, hrole, hraised]
            exact ih _ _ _ (hleadAccounts.concat_recorded hrecorded hagent.symm) hthreaded' hfeeds'
          | none =>
            have hrecorded : ¬ run.Recorded := by simp [Run.Recorded, hrole, hraised]
            exact ih _ _ _ (hleadAccounts.concat hrecorded) hthreaded' hfeeds'

/-- **What is recorded and what is fed, in every pattern.** -/
theorem sound_orchestrate (p : Pattern) : Sound (orchestrate W o p) := by
  have hplain : ∀ x : OrchestrationResult × List Run, Accounts x.1.errors x.2 ∧ Threaded x.2 →
      Sound (x.map .ok id) := by
    rintro ⟨r, runs⟩ ⟨haccounts, hthreaded⟩
    refine ⟨hthreaded, fun r' h => ?_⟩
    obtain rfl := Except.ok.inj h
    exact haccounts
  cases p with
  | sequential agents initialInput =>
    exact hplain _ (sound_sequentialFrom agents initialInput accounts_nil threaded_nil feeds_nil)
  | parallel agents inputTemplate perAgentInputs =>
    exact hplain _ (sound_parallel agents inputTemplate perAgentInputs)
  | masterWorker master workers task => exact sound_masterWorker master workers task
  | handoff agents initialInput =>
    exact hplain _ (sound_handoffFrom 0 agents initialInput [] accounts_nil threaded_nil feeds_nil)
  | broadcast agents inputText mergeStrategy =>
    exact hplain (broadcast W o agents inputText mergeStrategy)
      (sound_parallel agents inputText [])
  | supervisor config workers task maxRounds =>
    exact sound_supervisorFrom config _ maxRounds 1 task [] accounts_nil threaded_nil feeds_nil

end Orchestrator

/-! ### The result -/

/-- **Failures are reported**: a run that ends in an `ERROR` event has an entry for its agent in
the errors of the result, and no run is fed its output. An orchestration that ends with an
exception has no result. -/
def FailuresReported (x : Except Str OrchestrationResult × List Run) : Prop :=
  ∀ r, x.1 = .ok r → ∀ k run, x.2[k]? = some run → run.outcome.EndsInError →
    (∃ e ∈ r.errors, e.agent = run.agent) ∧ ∀ run' ∈ x.2, run'.fedBy ≠ some k

/-- The condition: a run that ends in an `ERROR` event has a namesake that is recorded, and if it
is part of a chain it is the last run. -/
def FailuresCovered (x : Except Str OrchestrationResult × List Run) : Prop :=
  ∀ r, x.1 = .ok r → ∀ k run, x.2[k]? = some run → run.outcome.EndsInError →
    (∃ run' ∈ x.2, run'.agent = run.agent ∧ run'.Recorded) ∧
      (run.role.Chains → k + 1 = x.2.length)

/-- Nobody is fed the output of a run that did not raise if and only if it is the last run of its
chain. -/
theorem Threaded.unfed_iff (h : Threaded runs) {k : ℕ} (hk : runs[k]? = some run)
    (hraised : run.outcome.raised = none) :
    (∀ run' ∈ runs, run'.fedBy ≠ some k) ↔ (run.role.Chains → k + 1 = runs.length) := by
  have hlt := (List.getElem?_eq_some_iff.mp hk).1
  constructor
  · intro hunfed hchain
    by_contra hne
    have hlt' : k + 1 < runs.length := by omega
    have hnext : runs[k + 1]? = some runs[k + 1] := List.getElem?_eq_getElem hlt'
    exact hunfed _ (List.mem_of_getElem? hnext) (h.next k run _ hk hnext hchain hraised)
  · intro hlast run' hmem hfed
    obtain ⟨j, hj⟩ := List.mem_iff_getElem?.mp hmem
    obtain ⟨hlt', run₁, hrun₁, hchain⟩ := h.earlier j run' hj k hfed
    obtain rfl := Option.some.inj (hk.symm.trans hrun₁)
    have := hlast hchain
    have := (List.getElem?_eq_some_iff.mp hj).1
    omega

/-- **When failures are reported**: for every pattern, every list of agents and whatever their
runs do, if and only if they are covered. -/
theorem failuresReported_iff (W : World) (o : Orchestrator) (p : Orchestrator.Pattern) :
    FailuresReported (Orchestrator.orchestrate W o p) ↔
      FailuresCovered (Orchestrator.orchestrate W o p) := by
  have hsound := Orchestrator.sound_orchestrate (W := W) (o := o) p
  refine forall₂_congr fun r hr => forall₂_congr fun k run => forall₂_congr fun hk herror => ?_
  exact and_congr (hsound.accounts r hr run.agent) (hsound.threaded.unfed_iff hk herror.1)

/-! ### A failure that is not reported -/

section Unreported

/-- An agent whose LLM call fails before one that answers. -/
def failingFirst : World where
  execute n _ _ _ _ :=
    if n = 0 then
      { events := [⟨.start, []⟩, ⟨.error, "LLM call failed"⟩]
        messages := [⟨"user", "hi"⟩] }
    else { events := [⟨.start, []⟩, ⟨.think, "yes"⟩, ⟨.end_, []⟩] }
  handoff _ _ _ _ := .ok true
  str _ := []

/-- **A failure is not reported**: the result of the chain has no errors, and the second agent is
fed the empty output of the first. -/
theorem not_failuresReported : ¬ ∀ (W : World) (o : Orchestrator) (p : Orchestrator.Pattern),
    FailuresReported (Orchestrator.orchestrate W o p) := by
  intro h
  have hreported := h failingFirst ⟨none, 0, none, false⟩
    (.sequential [⟨"a", oneQuestion⟩, ⟨"b", oneQuestion⟩] "hi") _ rfl 0 _ rfl
    ⟨rfl, _, rfl, rfl⟩
  obtain ⟨e, he, -⟩ := hreported.1
  exact List.not_mem_nil he

end Unreported

end AgentStudio.Orchestration

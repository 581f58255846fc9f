import AgentStudio.Daemon.Turns
import AgentStudio.Tasks.Claimability

/-!
# Chains beside the executor

A chain submits its steps as pending tasks and executes them itself, and the executor claims
pending tasks. `DaemonServer.ChainContract` is what should hold of the two in every state: the
executor has no worker for the task of a chain, a step that is attempted has its dependencies
behind it, and no attempt is above `max_retries`.

Nothing marks the tasks of a chain for the executor: as soon as the first step is submitted, a poll
may claim it. A step may also depend on itself or on a later one, since these indices are dropped,
and a `max_retries` of 0 counts as 2. `chainContract_of_safe` says that the contract holds as long
as none of this happens (`ChainSafe`), and `not_chainContract` is a poll after the first submission.
-/

namespace AgentStudio.Daemon

open PyText PyDict PyJson Tasks Coroutines Machine

/-! ### The contract -/

/-- `max_retries`, as it was given. -/
def ChainStep.givenRetries (step : ChainStep) : ℤ := step.maxRetries.getD 2

namespace ChainRun

variable (c : ChainRun)

def Attempts (idx n : ℕ) : Prop := c.phase = .waitingSlot idx n ∨ c.phase = .streaming idx n

def DependsOn (step : ChainStep) (k : ℕ) : Prop := (k : ℤ) ∈ step.dependsOn ∧ k < c.steps.length

/-- The steps that a step depends on are earlier ones. -/
def Ordered (idx : ℕ) (step : ChainStep) : Prop := ∀ k, c.DependsOn step k → k < idx

/-- A step is attempted after those that it depends on, and `max_retries + 1` times at most. -/
def Contract : Prop :=
  ∀ idx n step, c.Attempts idx n → c.steps[idx]? = some step →
    (∀ k, c.DependsOn step k → k ∈ c.completed) ∧ (n : ℤ) ≤ step.givenRetries

end ChainRun

/-- The chains keep their contracts, and the executor has no worker for one of their tasks. -/
def DaemonServer.ChainContract (d : DaemonServer) : Prop :=
  ∀ c, .chain c ∈ d.members →
    c.Contract ∧ ∀ x, .worker x ∈ d.members → x.taskId ∉ c.taskIds

/-! ### When it holds -/

namespace ChainRun

variable (c : ChainRun)

/-- If the chain goes on with a step, its dependencies are earlier ones. -/
def EnterSafe (idx : ℕ) (a : Answer) : Prop :=
  ∀ step, c.steps[idx]? = some step → a.found = true → 0 ≤ step.retries → c.Ordered idx step

/-- The condition on a turn of a chain: a step that it submits gets no task that has a worker, a
step that it goes on with depends on earlier ones, and a step that has failed has not a
`max_retries` of 0. -/
def TurnSafe (a : Answer) (d : DaemonServer) : Prop :=
  match c.phase with
  | .submitting =>
    match c.steps[c.taskIds.length]? with
    | some step => ∀ x, .worker x ∈ d.members →
        x.taskId ≠ (d.world.store.submit (c.taskOf c.taskIds.length step) (a.clock 0)).1.taskId
    | none => c.EnterSafe 0 a
  | .streaming idx _ =>
    match a.signal with
    | .returned _ => c.EnterSafe (idx + 1) a
    | .raised _ => ∀ step, c.steps[idx]? = some step → step.maxRetries ≠ some 0
    | _ => True
  | _ => True

end ChainRun

/-- The condition on a step of the daemon. What a poll claims is the first claimable row, and it
gets a worker if its dependencies are completed. -/
def ChainSafe (i : Input) (d : DaemonServer) : Prop :=
  match i with
  | .poll _ _ => ∀ r, d.world.store.db.candidate allTeams = some r →
      d.world.store.db.depsCompleted r = true → ∀ c, .chain c ∈ d.members → r.taskId ∉ c.taskIds
  | .resume n a => ∀ c, d.members[n]? = some (.chain c) → c.TurnSafe a d
  | _ => True

/-! ### A turn of a chain -/

namespace ChainRun

variable {c : ChainRun}

/-- The steps before the present one are completed, and it depends on those only. -/
def Lawful (c : ChainRun) : Prop :=
  ∀ idx n, c.Attempts idx n → (∀ k < idx, k ∈ c.completed) ∧
    ∀ step, c.steps[idx]? = some step → c.Ordered idx step ∧ (n : ℤ) ≤ step.givenRetries

theorem Lawful.contract (h : c.Lawful) : c.Contract := fun idx n step hattempts hstep => by
  obtain ⟨hcompleted, hordered⟩ := h idx n hattempts
  obtain ⟨hdeps, hn⟩ := hordered step hstep
  exact ⟨fun k hk => hcompleted k (hdeps k hk), hn⟩

theorem lawful_of_phase (h : ∀ idx n, ¬ c.Attempts idx n) : c.Lawful :=
  fun idx n hattempts => absurd hattempts (h idx n)

theorem lawful_attempt {idx n : ℕ} {taskId : Str} {clock : ℕ → ℤ} {w : World}
    (hcompleted : ∀ k < idx, k ∈ c.completed)
    (hstep : ∀ step, c.steps[idx]? = some step →
      c.Ordered idx step ∧ (n : ℤ) ≤ step.givenRetries) :
    (c.attempt taskId idx n clock w).1.Lawful := by
  rintro idx' n' (h | h)
  · obtain ⟨rfl, rfl⟩ := ChainPhase.waitingSlot.inj h
    exact ⟨hcompleted, hstep⟩
  · exact nomatch h

theorem lawful_block {taskId error : Str} {clock : ℕ → ℤ} {w : World} :
    (c.block taskId error clock w).1.Lawful :=
  lawful_of_phase fun idx n h => by rcases h with h | h <;> exact nomatch h

theorem retries_eq (step : ChainStep) (h : step.maxRetries ≠ some 0) :
    step.retries = step.givenRetries := by
  unfold ChainStep.retries ChainStep.givenRetries
  cases hm : step.maxRetries with
  | none => rfl
  | some m =>
    have hne : m ≠ 0 := fun heq => h (hm.trans (congrArg some heq))
    simp [hne]

theorem lawful_enter {idx : ℕ} {a : Answer} {w : World} (hcompleted : ∀ k < idx, k ∈ c.completed)
    (hsafe : c.EnterSafe idx a) : (c.enter idx a w).1.Lawful := by
  have hends : ({ c with phase := .announcing false } : ChainRun).Lawful :=
    lawful_of_phase fun idx n h => by rcases h with h | h <;> exact nomatch h
  unfold enter
  cases hstep : c.steps[idx]? with
  | none => exact hends
  | some step =>
    cases c.taskIds[idx]? with
    | none => exact hends
    | some taskId =>
      dsimp only
      split_ifs with hfound hretries
      · exact lawful_block
      · refine lawful_attempt hcompleted fun step' hstep' => ?_
        obtain rfl := Option.some.inj (hstep.symm.trans hstep')
        refine ⟨hsafe step hstep (by simpa using hfound) hretries, ?_⟩
        by_cases hzero : step.maxRetries = some 0
        · simp [ChainStep.givenRetries, hzero]
        · exact (retries_eq step hzero) ▸ hretries
      · exact lawful_block

theorem Lawful.resume (h : c.Lawful) {a : Answer} {d : DaemonServer} (hsafe : c.TurnSafe a d)
    (w : World) : (c.resume a w).1.Lawful := by
  unfold TurnSafe at hsafe
  unfold ChainRun.resume
  cases hphase : c.phase with
  | submitting =>
    rw [hphase] at hsafe
    dsimp only at hsafe ⊢
    cases hstep : c.steps[c.taskIds.length]? with
    | none =>
      rw [hstep] at hsafe
      exact lawful_enter (fun k hk => absurd hk (Nat.not_lt_zero k)) hsafe
    | some step =>
      refine lawful_of_phase fun idx n hattempts => ?_
      rcases hattempts with hp | hp <;> exact nomatch hphase.symm.trans hp
  | waitingSlot idx n =>
    rintro idx' n' (hp | hp)
    · exact nomatch hp
    · obtain ⟨rfl, rfl⟩ := ChainPhase.streaming.inj hp
      exact h idx n (.inl hphase)
  | streaming idx n =>
    rw [hphase] at hsafe
    obtain ⟨hcompleted, hordered⟩ := h idx n (.inr hphase)
    dsimp only at hsafe ⊢
    cases hstep : c.steps[idx]? with
    | none => exact h
    | some step =>
      cases c.taskIds[idx]? with
      | none => exact h
      | some taskId =>
        cases hsignal : a.signal with
        | returned f =>
          rw [hsignal] at hsafe
          refine lawful_enter (c := { c with completed := c.completed ++ [idx] })
            (fun k hk => ?_) hsafe
          rcases Nat.lt_succ_iff_lt_or_eq.mp hk with hk | rfl
          · exact List.mem_append_left _ (hcompleted k hk)
          · exact List.mem_append_right _ (List.mem_singleton.mpr rfl)
        | raised text =>
          rw [hsignal] at hsafe
          dsimp only
          unfold retry
          dsimp only
          split_ifs with hleft
          · refine lawful_attempt hcompleted fun step' hstep' => ?_
            obtain rfl := Option.some.inj (hstep.symm.trans hstep')
            rw [retries_eq step (hsafe step hstep)] at hleft
            exact ⟨(hordered step hstep).1, by exact_mod_cast hleft⟩
          · exact lawful_block
        | event e =>
          rintro idx' n' (hp | hp)
          · exact nomatch hp
          · obtain ⟨rfl, rfl⟩ := ChainPhase.streaming.inj hp
            exact h idx n (.inr hphase)
        | _ => exact h
  | announcing failed =>
    refine lawful_of_phase fun idx n hp => ?_
    rcases hp with hp | hp <;> exact nomatch hp
  | done => exact h

end ChainRun

/-! ### A step of the daemon -/

theorem World.poll_some {w : World} (h : w.store.Cached) {token : Str} {clock : ℕ → ℤ} {t : Task}
    (ht : (w.poll token clock).1 = some t) :
    ∃ r, w.store.db.candidate allTeams = some r ∧ w.store.db.depsCompleted r = true ∧
      t.taskId = r.taskId := by
  unfold World.poll at ht
  split_ifs at ht
  rcases h.dequeue_cases allTeams executorOwner token clock with ⟨-, heq⟩ | ⟨r, -, hc, ⟨-, heq⟩ |
    ⟨-, t', s', -, htr, ⟨hdeps, heq⟩ | ⟨-, heq⟩⟩⟩
  · exact nomatch (congrArg Prod.fst heq).symm.trans ht
  · exact nomatch (congrArg Prod.fst heq).symm.trans ht
  · obtain rfl : t' = t := Option.some.inj ((congrArg Prod.fst heq).symm.trans ht)
    exact ⟨r, hc, hdeps, congrArg Record.taskId htr⟩
  · exact nomatch (congrArg Prod.fst heq).symm.trans ht

/-- The chains are lawful, and the executor has no worker for one of their tasks. -/
structure DaemonServer.ChainsLawful (d : DaemonServer) : Prop where
  cached : d.world.store.Cached
  lawful : ∀ c, .chain c ∈ d.members → c.Lawful
  apart : ∀ c x, .chain c ∈ d.members → .worker x ∈ d.members → x.taskId ∉ c.taskIds

theorem chain_step {d : DaemonServer} {i : Input} {c : ChainRun}
    (h : .chain c ∈ (d.step i).2.members) :
    .chain c ∈ d.members ∨
      (∃ n a c₀, i = .resume n a ∧ d.members[n]? = some (.chain c₀) ∧
        c = (c₀.resume a d.world).1) ∨
      c.taskIds = [] ∧ c.phase = .submitting := by
  rcases mem_step h rfl with h | ⟨n, a, p, rfl, hp, hc⟩ | ⟨c', hc, htasks, hphase⟩ |
    ⟨token, clock, t, rfl, ht, hc⟩
  · exact .inl h
  · cases p with
    | chain c₀ => exact .inr (.inl ⟨n, a, c₀, rfl, hp, Coroutine.chain.inj hc⟩)
    | _ => exact nomatch hc
  · obtain rfl := Coroutine.chain.inj hc
    exact .inr (.inr ⟨htasks, hphase⟩)
  · exact nomatch hc

theorem worker_step {d : DaemonServer} {i : Input} {x : Worker}
    (h : .worker x ∈ (d.step i).2.members) :
    (∃ x₀, .worker x₀ ∈ d.members ∧ x₀.taskId = x.taskId) ∨
      ∃ token clock t, i = .poll token clock ∧ (d.world.poll token clock).1 = some t ∧
        x.taskId = t.taskId := by
  rcases mem_step h rfl with h | ⟨n, a, p, rfl, hp, hx⟩ | ⟨c', hx, -, -⟩ |
    ⟨token, clock, t, rfl, ht, hx⟩
  · exact .inl ⟨x, h, rfl⟩
  · cases p with
    | worker x₀ =>
      obtain rfl := Coroutine.worker.inj hx
      exact .inl ⟨x₀, List.mem_of_getElem? hp, (x₀.resume_taskId a d.world).symm⟩
    | _ => exact nomatch hx
  · exact nomatch hx
  · exact .inr ⟨token, clock, t, rfl, ht, congrArg Worker.taskId (Coroutine.worker.inj hx)⟩

namespace DaemonServer.ChainsLawful

variable {d : DaemonServer}

/-- **A step of the daemon.** -/
theorem step (h : d.ChainsLawful) {i : Input} (hsafe : ChainSafe i d) :
    (d.step i).2.ChainsLawful := by
  refine ⟨step_cached h.cached i, fun c hc => ?_, fun c x hc hx => ?_⟩
  · rcases chain_step hc with hc | ⟨n, a, c₀, rfl, hc₀, rfl⟩ | ⟨-, hphase⟩
    · exact h.lawful c hc
    · exact (h.lawful c₀ (List.mem_of_getElem? hc₀)).resume (hsafe c₀ hc₀) d.world
    · refine ChainRun.lawful_of_phase fun idx n hattempts => ?_
      rcases hattempts with hp | hp <;> exact nomatch hphase.symm.trans hp
  · have hold (hmem : .chain c ∈ d.members) : x.taskId ∉ c.taskIds := by
      rcases worker_step hx with ⟨x₀, hx₀, hid⟩ | ⟨token, clock, t, rfl, ht, hid⟩
      · exact hid ▸ h.apart c x₀ hmem hx₀
      · obtain ⟨r, hr, hdeps, htr⟩ := World.poll_some h.cached ht
        rw [hid, htr]
        exact hsafe r hr hdeps c hmem
    rcases chain_step hc with hc | ⟨n, a, c₀, rfl, hc₀, rfl⟩ | ⟨htasks, -⟩
    · exact hold hc
    · rcases worker_step hx with ⟨x₀, hx₀, hid⟩ | ⟨token, clock, t, hinput, -⟩
      · have hapart := h.apart c₀ x₀ (List.mem_of_getElem? hc₀) hx₀
        rw [← hid]
        rcases c₀.taskIds_resume a d.world with htasks | ⟨step, hphase, hstep, htasks⟩ <;>
          rw [htasks]
        · exact hapart
        · have hturn := hsafe c₀ hc₀
          unfold ChainRun.TurnSafe at hturn
          rw [hphase] at hturn
          dsimp only at hturn
          rw [hstep] at hturn
          exact List.not_mem_append hapart fun hnew => hturn x₀ hx₀ (List.mem_singleton.mp hnew)
      · exact nomatch hinput
    · rw [htasks]
      exact List.not_mem_nil

theorem contract (h : d.ChainsLawful) : d.ChainContract := fun c hc =>
  ⟨(h.lawful c hc).contract, fun x hx => h.apart c x hc hx⟩

end DaemonServer.ChainsLawful

/-! ### Runs -/

/-- **Chains beside the executor.** However the daemon is run, and in any order of its steps, the
executor has no worker for the task of a chain, every step of a chain is attempted after those that
it depends on, and `max_retries + 1` times at most, if no poll finds a task of a chain as the first
claimable one with completed dependencies, no step is submitted as a task that has a worker, no step
that is attempted depends on itself or on a later one, and none with a `max_retries` of 0 fails. -/
theorem chainContract_of_safe (lazyLoad : Bool) (tasks : Table) (history : List HistoryRow)
    (index : List IndexRow) (ttl : ℤ) (files : List (Str × List Evidence)) (is : List Input)
    (hsafe : Along DaemonServer.step ChainSafe is
      (DaemonServer.opened lazyLoad tasks history index ttl files)) :
    (run DaemonServer.step is
      (DaemonServer.opened lazyLoad tasks history index ttl files)).2.ChainContract := by
  have hopened : (DaemonServer.opened lazyLoad tasks history index ttl files).ChainsLawful :=
    ⟨Store.cached_open _ _ _ _ _, fun _ h => absurd h List.not_mem_nil,
      fun c => fun _ h => absurd h List.not_mem_nil⟩
  exact (run_invariant (fun i d h hok => h.step hok) is hopened hsafe).contract

/-- A chain of one step that is executed while the executor polls. -/
theorem chainContract_of_safe_polled :
    let answer : Answer := { signal := .go, now := 1, clock := fun _ _ => 1 }
    (run DaemonServer.step
      [.taskRunChain [] none [{ graphId := "g".toList }] "1".toList, .resume 0 answer,
        .resume 0 answer, .poll "p".toList fun _ => 1]
      (DaemonServer.opened true Table.empty [] [] 0 [])).2.ChainContract := by
  refine chainContract_of_safe true Table.empty [] [] 0 [] _
    ⟨trivial, fun c hc => ?_, fun c hc => ?_, fun r hr => ?_, trivial⟩
  · obtain rfl := Coroutine.chain.inj (Option.some.inj hc)
    intro x hx
    exact nomatch List.mem_singleton.mp hx
  · obtain rfl := Coroutine.chain.inj (Option.some.inj hc)
    intro step hstep _ _ k hk
    obtain rfl := Option.some.inj hstep
    exact absurd hk.1 List.not_mem_nil
  · have hnone : (none : Option Row) = some r := hr
    exact nomatch hnone

/-- A poll after the first submission claims the task of the chain. -/
theorem not_chainContract :
    ¬ ∀ is, (run DaemonServer.step is
      (DaemonServer.opened true Table.empty [] [] 0 [])).2.ChainContract := by
  intro hall
  let answer : Answer := { signal := .go, now := 1, clock := fun _ _ => 1 }
  let d := (run DaemonServer.step [.taskRunChain [] none [{ graphId := "g" }] "1",
    .resume 0 answer, .poll "p" fun _ => 1]
    (DaemonServer.opened true Table.empty [] [] 0 [])).2
  have hsubmitted : d.members.any (fun
      | .chain c => "task_0_1" ∈ c.taskIds
      | _ => false) = true := by decide
  have hclaimed : d.members.any (fun
      | .worker x => x.taskId = "task_0_1"
      | _ => false) = true := by decide
  obtain ⟨chain, hchain, hc⟩ := List.any_eq_true.mp hsubmitted
  obtain ⟨worker, hworker, hx⟩ := List.any_eq_true.mp hclaimed
  have hcontract : d.ChainContract := hall _
  cases chain with
  | chain c =>
    cases worker with
    | worker x =>
      exact (hcontract c hchain).2 x hworker (of_decide_eq_true hx ▸ of_decide_eq_true hc)
    | _ => exact nomatch hx
  | _ => exact nomatch hc

end AgentStudio.Daemon

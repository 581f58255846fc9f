import AgentStudio.Daemon.Turns

/-!
# The outcome of a run and the status of its task

A run of a graph has failed if the runtime raises an exception or ends the stream by an error, and
then the status of its task should be `failed`, with a record `execution.failed` for a background
execution; else it should be `completed`. A chain should not go on behind a failed step.

The three writebacks look for an exception only. Nothing reads the `ERROR` events of a stream that
comes to its end, and `graph.execute` writes nothing when an exception leaves it.
`reports_throughout_iff` says that every turn of a run reports its outcome (`Reports`) exactly if
none of this happens (`ReportSafe`), and `not_reports` is an execution of a graph without an LLM
model.
-/

namespace AgentStudio.Daemon

open PyText PyDict PyJson Tasks Coroutines Machine

/-! ### What a turn should report -/

def Signal.ends : Signal → Bool
  | .returned _ | .raised _ => true
  | _ => false

/-- The run has failed: by an exception, or by an error that ended its stream. -/
def failedRun (events : List StreamEvent) : Signal → Bool
  | .raised _ => true
  | _ => endedByError events

def dueStatus (failed : Bool) : Status := if failed then .failed else .completed

def dueEvidence (failed : Bool) : EvidenceType := if failed then .failed else .completed

/-- When the stream of an execution ends, its record says how, and the writeback sets the status of
its task. A cancelled execution is not considered. -/
def Execution.Reports (x : Execution) (a : Answer) (w w' : World) : Prop :=
  x.cancelRequested = false →
    match x.phase with
    | .created =>
      ∀ text, a.signal = .raised text → w'.lastEvidence x.path = some (dueEvidence true)
    | .streaming =>
      a.signal.ends → w'.lastEvidence x.path = some (dueEvidence (failedRun x.events a.signal))
    | .announcing (.completed _) =>
      w.Linked x.taskId → w'.status x.taskId = some (dueStatus (endedByError x.events))
    | .announcing (.failed _) => w.Linked x.taskId → w'.status x.taskId = some (dueStatus true)
    | _ => True

/-- When the stream of `graph.execute` ends, its task has the status. -/
def SyncRun.Reports (x : SyncRun) (a : Answer) (w w' : World) : Prop :=
  x.phase = .streaming → a.signal.ends → w.Linked x.taskId →
    w'.status x.taskId = some (dueStatus (failedRun x.events a.signal))

/-- When an attempt of a chain step ends, its task is completed; or it has failed, and the chain
tries the step again or ends. -/
def ChainRun.Reports (c : ChainRun) (a : Answer) (w : World) (c' : ChainRun) (w' : World) : Prop :=
  ∀ idx n step taskId, c.phase = .streaming idx n → c.steps[idx]? = some step →
    c.taskIds[idx]? = some taskId → c.taskIds[idx + 1]? ≠ some taskId → a.signal.ends →
      w.status taskId ≠ none →
        if failedRun c.events a.signal then
          c'.phase = .waitingSlot idx (n + 1) ∨
            c'.phase = .announcing true ∧ w'.status taskId = some .failed
        else w'.status taskId = some .completed

/-- A turn of a coroutine reports the outcome of its run. -/
def Coroutine.Reports (a : Answer) (co : Coroutine) (w : World) : Prop :=
  match co with
  | .execution x => x.Reports a w (x.resume a w).2
  | .sync x => x.Reports a w (x.resume a w).2
  | .chain c => c.Reports a w (c.resume a w).1 (c.resume a w).2
  | _ => True

/-- A step of the daemon reports the outcome of the run that takes a turn. -/
def Reports (i : Input) (d : DaemonServer) : Prop :=
  match i with
  | .resume n a => ∀ co, d.members[n]? = some co → co.Reports a d.world
  | _ => True

/-! ### When it does -/

/-- The stream of the execution was not ended by an error. -/
def Execution.ReportSafe (x : Execution) (a : Answer) (w : World) : Prop :=
  x.cancelRequested = false →
    match x.phase with
    | .streaming => ∀ f, a.signal = .returned f → endedByError x.events = false
    | .announcing (.completed _) => w.Linked x.taskId → endedByError x.events = false
    | _ => True

/-- The stream of `graph.execute` was not ended by an error, and if it ends by an exception the task
has failed already. -/
def SyncRun.ReportSafe (x : SyncRun) (a : Answer) (w : World) : Prop :=
  x.phase = .streaming → w.Linked x.taskId →
    match a.signal with
    | .returned _ => endedByError x.events = false
    | .raised _ => w.status x.taskId = some .failed
    | _ => True

/-- The stream of an attempt was not ended by an error. -/
def ChainRun.ReportSafe (c : ChainRun) (a : Answer) (w : World) : Prop :=
  ∀ idx n step taskId, c.phase = .streaming idx n → c.steps[idx]? = some step →
    c.taskIds[idx]? = some taskId → c.taskIds[idx + 1]? ≠ some taskId →
      w.status taskId ≠ none → ∀ f, a.signal = .returned f → endedByError c.events = false

def Coroutine.ReportSafe (a : Answer) (co : Coroutine) (w : World) : Prop :=
  match co with
  | .execution x => x.ReportSafe a w
  | .sync x => x.ReportSafe a w
  | .chain c => c.ReportSafe a w
  | _ => True

def ReportSafe (i : Input) (d : DaemonServer) : Prop :=
  match i with
  | .resume n a => ∀ co, d.members[n]? = some co → co.ReportSafe a d.world
  | _ => True

/-! ### The writebacks -/

variable {w : World}

theorem World.status_updateStatus (h : w.store.Cached) {taskId : Str} {status : Status}
    (hvalid : status.valid = true) (hfound : w.status taskId ≠ none) (lastResult : Option Dict)
    (lastError : Str) (clock : ℕ → ℤ) :
    (w.updateStatus taskId status lastResult lastError clock).status taskId = some status := by
  obtain ⟨st, hst⟩ := Option.ne_none_iff_exists'.mp hfound
  rw [updateStatus, status_call_updateStatus h _ hvalid, if_pos rfl, hst]
  rfl

theorem World.status_completed (h : w.store.Cached) {taskId : Str}
    (hfound : w.status taskId ≠ none) (artifactIds : List Str) (result : Dict)
    (clock clock' : ℕ → ℤ) :
    ((w.addArtifacts taskId artifactIds clock).updateStatus taskId .completed (some result) []
      clock').status taskId = some .completed := by
  refine status_updateStatus ?_ rfl ?_ _ _ _
  · have hacts : World.Acts (World.On taskId) w _ :=
      (World.Acts.refl w).on_addArtifacts artifactIds clock
    exact hacts.cached h
  · rwa [status_addArtifacts h]

theorem Execution.status_writeBack_of_linked (h : w.store.Cached) (x : Execution)
    (hlinked : w.Linked x.taskId) (e : Ending) (clock : ℕ → ℕ → ℤ) :
    (x.writeBack e clock w).status x.taskId = some e.type.taskStatus := by
  obtain ⟨st, hst⟩ := Option.ne_none_iff_exists'.mp hlinked.2
  rw [x.status_writeBack h hlinked.1, hst]
  rfl

/-! ### One turn -/

theorem Execution.reports_iff (h : w.store.Cached) (x : Execution) (a : Answer) :
    x.Reports a w (x.resume a w).2 ↔ x.ReportSafe a w := by
  refine forall_congr' fun hcancel => ?_
  have hnot : ¬ x.cancelRequested = true := by simp [hcancel]
  unfold resume
  cases hphase : x.phase with
  | created =>
    dsimp only
    rw [if_neg hnot]
    refine iff_of_true (fun text htext => ?_) trivial
    rw [htext]
    exact World.lastEvidence_writeEvidence _ _
  | streaming =>
    dsimp only
    rw [if_neg hnot]
    cases hsignal : a.signal with
    | returned f =>
      have hlast : (x.complete f a.now w).2.lastEvidence x.path = some .completed :=
        World.lastEvidence_writeEvidence _ _
      cases hended : endedByError x.events <;>
        simp [hlast, failedRun, Signal.ends, dueEvidence, hended]
    | raised text =>
      have hlast : (x.fail text a.now w).2.lastEvidence x.path = some .failed :=
        World.lastEvidence_writeEvidence _ _
      simp [hlast, failedRun, dueEvidence]
    | _ => simp [Signal.ends]
  | announcing e =>
    cases e with
    | completed f =>
      dsimp only
      rw [if_neg hnot]
      refine forall_congr' fun hlinked => ?_
      rw [x.status_writeBack_of_linked h hlinked]
      cases endedByError x.events <;> simp [dueStatus, Ending.type, EvidenceType.taskStatus]
    | failed error =>
      dsimp only
      rw [if_neg hnot]
      exact iff_of_true (fun hlinked => x.status_writeBack_of_linked h hlinked _ _) trivial
    | cancelled => exact Iff.rfl
  | _ => exact Iff.rfl

theorem SyncRun.reports_iff (h : w.store.Cached) (x : SyncRun) (a : Answer) :
    x.Reports a w (x.resume a w).2 ↔ x.ReportSafe a w := by
  refine forall_congr' fun hphase => ?_
  unfold resume
  rw [hphase]
  dsimp only
  cases hsignal : a.signal with
  | returned f =>
    simp only [Signal.ends, forall_const, failedRun]
    refine forall_congr' fun hlinked => ?_
    rw [writeBack, if_neg hlinked.1, World.status_completed h hlinked.2]
    cases hended : endedByError x.events <;> simp [dueStatus]
  | raised text => simp [Signal.ends, failedRun, dueStatus]
  | _ => simp [Signal.ends]

/-! ### One turn of a chain -/

namespace ChainRun

variable (c : ChainRun) (a : Answer)

theorem enter_status (h : w.store.Cached) {idx : ℕ} {taskId : Str}
    (hne : c.taskIds[idx]? ≠ some taskId) :
    (c.enter idx a w).2.status taskId = w.status taskId := by
  unfold enter
  cases c.steps[idx]? with
  | none => rfl
  | some step =>
    cases hid : c.taskIds[idx]? with
    | none => rfl
    | some other =>
      have hother : taskId ≠ other := fun heq => hne (heq ▸ hid)
      dsimp only
      split_ifs <;> exact World.status_call_of_ne h rfl _ hother

theorem enter_phase {idx k n : ℕ} (hk : k ≠ idx) :
    (c.enter idx a w).1.phase ≠ .waitingSlot k n := by
  unfold enter
  cases c.steps[idx]? with
  | none => simp
  | some step =>
    cases c.taskIds[idx]? with
    | none => simp
    | some other =>
      dsimp only
      split_ifs
      · simp [block]
      · simpa [attempt] using fun heq => absurd heq.symm hk
      · simp [block]

theorem reports_iff (h : w.store.Cached) :
    c.Reports a w (c.resume a w).1 (c.resume a w).2 ↔ c.ReportSafe a w := by
  refine forall₄_congr fun idx n step taskId => forall₄_congr fun hphase hstep hid hnext => ?_
  unfold resume
  rw [hphase]
  dsimp only
  rw [hstep, hid]
  cases hsignal : a.signal with
  | returned f =>
    simp only [Signal.ends, forall_const, failedRun]
    refine forall_congr' fun hfound => ?_
    have hvalid : Status.completed.valid = true := rfl
    have hdone := World.status_updateStatus h hvalid hfound (some (c.result idx n a.outputs)) []
      (a.clock 0)
    have hstatus : (c.succeed taskId idx n a w).2.status taskId = some .completed := by
      have hcached : (w.updateStatus taskId .completed (some (c.result idx n a.outputs)) []
        (a.clock 0)).store.Cached := World.cached_call h _ _
      exact ({ c with completed := c.completed ++ [idx] }.enter_status a hcached hnext).trans hdone
    have hgo : (c.succeed taskId idx n a w).1.phase ≠ .waitingSlot idx (n + 1) :=
      enter_phase _ a (Nat.ne_of_lt (Nat.lt_succ_self idx))
    simp [hstatus, hgo]
  | raised text =>
    simp only [Signal.ends, forall_const, failedRun, if_true]
    refine iff_of_true (fun hfound => ?_) (by simp)
    unfold retry
    dsimp only
    split_ifs
    · exact .inl rfl
    · refine .inr ⟨rfl, World.status_updateStatus (World.cached_call h _ _) rfl ?_ _ _ _⟩
      obtain ⟨st, hst⟩ := Option.ne_none_iff_exists'.mp hfound
      rw [World.status_call_updateStatus h _ rfl, if_pos rfl, hst]
      simp
  | _ => simp [Signal.ends]

end ChainRun

/-! ### Every run -/

theorem reports_iff (h : w.store.Cached) (a : Answer) (co : Coroutine) :
    co.Reports a w ↔ co.ReportSafe a w := by
  cases co with
  | execution x | sync x => exact x.reports_iff h a
  | chain c => exact c.reports_iff a h
  | _ => exact Iff.rfl

/-- **Every run is reported.** However the daemon is run, and in any order of its steps, every run
of a graph that comes to its end leaves the status and the evidence that are due exactly if no
stream that comes to its end was ended by an error, and no exception leaves a `graph.execute` whose
task has not failed. -/
theorem reports_throughout_iff (lazyLoad : Bool) (tasks : Table) (history : List HistoryRow)
    (index : List IndexRow) (ttl : ℤ) (files : List (Str × List Evidence)) (is : List Input) :
    Along DaemonServer.step Reports is
        (DaemonServer.opened lazyLoad tasks history index ttl files) ↔
      Along DaemonServer.step ReportSafe is
        (DaemonServer.opened lazyLoad tasks history index ttl files) := by
  refine along_congr (J := fun d => d.world.store.Cached) (fun i d hd => step_cached hd i)
    (fun i d hd => ?_) is (Store.cached_open _ _ _ _ _)
  cases i with
  | resume n a => exact forall₂_congr fun co _ => reports_iff hd a co
  | _ => exact Iff.rfl

/-- An execution without an LLM model streams an error, and is completed. -/
theorem not_reports :
    ¬ ∀ is,
      Along DaemonServer.step Reports is (DaemonServer.opened true Table.empty [] [] 0 []) := by
  intro hall
  let answer (signal : Signal) : Answer := { signal, now := 1, clock := fun _ _ => 1 }
  let before : List Input := [
    .op ⟨.submit { Task.default with taskId := "t" }, fun _ => 1⟩,
    .graphExecuteAsync { taskId := "t" } (answer .go),
    .resume 0 (answer .go), .resume 0 (answer .go),
    .resume 0 (answer (.event { type := .error })),
    .resume 0 (answer (.returned {}))]
  have hreports := (along_append.mp (hall (before ++ [.resume 0 (answer .go)]))).2.1
  have hfailed := hreports _ rfl rfl ⟨by decide, by decide⟩
  exact absurd hfailed (by decide)

end AgentStudio.Daemon

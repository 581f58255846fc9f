import AgentStudio.EventTree.Invariant
import Mathlib.Logic.Relation

/-!
# Forks are isolated copies

What a caller of `fork_run` and `activate_branch` expects. A fork leaves the events and messages of
every other run as they were, and the new run has the events of the path that was asked for, in
their order and with their ids, parents and messages (`Forked`). A fork of a fork has the root of
the first run, and no family has two active branches. A fork of an unknown run, of a run without
events or at an unknown event changes nothing, nor does the activation of a branch of another
family.

`ForkContract` collects this for one state of the store, and `forkContract_run` says that it holds
after every sequence of calls that gives new ids to runs.
-/

namespace AgentStudio.EventTree

open PyText Machine Rows EventTreeStore

variable {δ μ : Type} {s t : EventTreeStore δ μ}

/-! ### The contract -/

/-- The run of the call is known and has the event, if the call names one. -/
def Forkable (s : EventTreeStore δ μ) (c : ForkCall) (m : RunMeta) : Prop :=
  s.resolveRun c.runId = some m ∧ s.listEvents m.runId ≠ [] ∧
    (c.atEventId ≠ [] → ∃ ev ∈ s.listEvents m.runId, ev.eventId = c.atEventId)

def Activatable (s : EventTreeStore δ μ) (r b : Str) (m : RunMeta) : Prop :=
  s.resolveRun r = some m ∧
    ∃ x ∈ s.runBranches.rows, x.branchId = b ∧ x.rootRunId = orElse m.rootRunId m.runId

def ForkOf (s : EventTreeStore δ μ) (r f : Str) : Prop :=
  ∃ b ∈ s.runBranches.rows, b.parentRunId = r ∧ b.runId = f

/-- The store `t` after a fork of the run `m`. -/
structure Forked (s t : EventTreeStore δ μ) (c : ForkCall) (m : RunMeta) : Prop where
  /-- The events and messages of every other run stay. -/
  others : ∀ r ≠ c.newRun, t.listEvents r = s.listEvents r ∧
    ∀ e, t.messagesAt r e = s.messagesAt r e
  /-- The new run has the events of the path, without a named event those of the whole run. -/
  copied : if c.atEventId = [] then t.listEvents c.newRun = s.listEvents m.runId
    else s.pathToRoot m.runId c.atEventId = some (t.listEvents c.newRun)
  /-- Each event is kept with the messages that the source has for it. -/
  snapshots : ∀ ev ∈ t.listEvents c.newRun,
    t.messagesAt c.newRun ev.eventId = s.messagesAt m.runId ev.eventId
  /-- The new run is registered with the root of the source. -/
  registered : ∃ m', t.getRunMeta c.newRun = some m' ∧ m'.rootRunId = m.rootRunId ∧
    m'.parentRunId = m.runId
  /-- No other run is registered anew. -/
  runs : ∀ r ≠ c.newRun, t.getRunMeta r = s.getRunMeta r
  /-- One branch is added, and it is not active. -/
  branches : ∃ b, t.runBranches.rows = s.runBranches.rows ++ [b] ∧ b.branchId = c.newRun ∧
    b.runId = c.newRun ∧ b.rootRunId = m.rootRunId ∧ b.parentRunId = m.runId ∧ b.active = false

structure ForkContract (s : EventTreeStore δ μ) : Prop where
  /-- No family has two active branches. -/
  oneActive : ∀ root, s.runBranches.rows.countP (fun b => b.rootRunId = root ∧ b.active = true) ≤ 1
  /-- Forks of forks share the root. -/
  root : ∀ {r f}, Relation.TransGen (ForkOf s) r f → ∃ m m', s.getRunMeta r = some m ∧
    s.getRunMeta f = some m' ∧ m'.rootRunId = m.rootRunId
  /-- A fork that is possible is made. -/
  forks : ∀ {c m}, Fresh (.forkRun c) s → Forkable s c m →
    (s.forkRun c).1.isSome = true ∧ Forked s (s.forkRun c).2 c m
  /-- A fork that is not possible changes nothing. -/
  refuses : ∀ {c}, (∀ m, ¬Forkable s c m) → s.forkRun c = (none, s)
  /-- A branch of the family is the active one afterwards. -/
  activates : ∀ {r b m}, Activatable s r b m → ∃ t, s.activateBranch r b =
      (some (orElse m.rootRunId m.runId, b), t) ∧
    t.runEventLog = s.runEventLog ∧ t.runMeta = s.runMeta ∧
    t.runBranches.rows = s.runBranches.rows.map (mark (orElse m.rootRunId m.runId) b)
  /-- Any other branch is refused, and nothing changes. -/
  keeps : ∀ {r b}, (∀ m, ¬Activatable s r b m) → s.activateBranch r b = (none, s)

/-! ### The contract holds -/

theorem forkPath_eq_none_iff {source at' : Str} :
    s.forkPath source at' = none ↔
      ¬(s.listEvents source ≠ [] ∧
        (at' ≠ [] → ∃ ev ∈ s.listEvents source, ev.eventId = at')) := by
  rw [forkPath]
  rcases hlast : (s.listEvents source).getLast? with _ | last
  · simp [List.getLast?_eq_none_iff.mp hlast]
  · have hne : s.listEvents source ≠ [] := by
      intro h
      rw [h] at hlast
      exact absurd hlast (by simp)
    by_cases hat : at' = []
    · simp [hat, hne]
    · simp [hat, hne, pathToRoot_eq_none_iff]

namespace Valid

variable (hv : Valid s)
include hv

theorem forked {c : ForkCall} {m : RunMeta} {path : List (Event δ)} {last : Str}
    (hfresh : Fresh (.forkRun c) s) (hm : s.resolveRun c.runId = some m)
    (hpath : s.forkPath m.runId c.atEventId = some (path, last)) :
    Forked s (s.forkTables c m path last) c m := by
  have hget := getRunMeta_of_resolveRun hm
  obtain ⟨hne, hmem, hid, hn⟩ := hv.fork_spec hfresh.1 hget hpath
  obtain ⟨hrows, hother, hself, hbranches⟩ := hv.forkTables_spec hfresh hget hpath
  have hroot := hv.orElse_root hget
  -- the rows of the other runs, and those of the new one
  have hrowsOf : ∀ r ≠ c.newRun, (s.forkTables c m path last).rowsOf r = s.rowsOf r := by
    intro r hr
    have hnone : (s.copyRows m.runId c.newRun c.eventHex path).filter (·.runId = r) = [] := by
      refine List.filter_eq_nil_iff.mpr fun x hx h => hr ?_
      obtain ⟨ev, -, n, rfl⟩ := mem_copyRows hx
      exact (of_decide_eq_true h).symm
    rw [rowsOf, hrows, List.filter_append, hnone, List.append_nil, rowsOf]
  have hnew : (s.forkTables c m path last).rowsOf c.newRun =
      s.copyRows m.runId c.newRun c.eventHex path := by
    have hold : s.runEventLog.rows.filter (·.runId = c.newRun) = [] := hfresh.2
    rw [rowsOf, hrows, List.filter_append, hold, List.nil_append, List.filter_eq_self]
    intro x hx
    obtain ⟨ev, -, n, rfl⟩ := mem_copyRows hx
    exact decide_eq_true rfl
  have hlist : (s.forkTables c m path last).listEvents c.newRun = path := by
    rw [(hv.forkTables hfresh hget hpath).listEvents_eq, hnew, map_event_copyRows]
  refine ⟨fun r hr => ⟨listEvents_congr (hrowsOf r hr), messagesAt_congr (hrowsOf r hr)⟩, ?_, ?_,
    ⟨_, hself, hroot, rfl⟩, hother, ⟨_, hbranches, rfl, rfl, hroot, rfl, rfl⟩⟩
  · rw [hlist]
    exact forkPath_eq_some hpath
  · rw [hlist]
    intro ev hev
    obtain ⟨x, hx, -⟩ := hv.exists_row (hmem ev hev)
    have hcopied : ev ∈ (s.copyRows m.runId c.newRun c.eventHex path).map EventRow.event :=
      (map_event_copyRows ..).symm ▸ hev
    obtain ⟨y, hy, rfl⟩ := List.mem_map.mp hcopied
    obtain ⟨ev, -, n, rfl⟩ := mem_copyRows hy
    have hfind : (s.forkTables c m path last).runEventLog.find (c.newRun, ev.eventId) =
        some (s.copyRow m.runId c.newRun c.eventHex ev n) := by
      refine Table.find_eq_some_iff.mpr ⟨hrows ▸ List.mem_append_right _ hy, ?_⟩
      exact congrArg (Prod.mk c.newRun) (eventId_copyRow (hid ev hev))
    change s.runEventLog.find (m.runId, ev.eventId) = some x at hx
    have hmessages : (s.copyRow m.runId c.newRun c.eventHex ev n).messages = x.messages := by
      have hid' : orElse ev.eventId (evtId (c.eventHex n)) = ev.eventId := if_neg (hid ev hev)
      rw [copyRow, hid', messagesJsonFor, hx]
      rfl
    change messagesAt _ c.newRun ev.eventId = s.messagesAt m.runId ev.eventId
    rw [messagesAt, messagesAt, if_pos (hid ev hev), if_pos (hid ev hev), hfind, hx]
    exact congrArg some hmessages

theorem oneActive (root : Str) :
    s.runBranches.rows.countP (fun b => b.rootRunId = root ∧ b.active = true) ≤ 1 := by
  refine countP_le_one (hv.active.imp fun {a b} h hab => ?_)
  obtain ⟨ha, haa⟩ := of_decide_eq_true hab.1
  obtain ⟨hb, hba⟩ := of_decide_eq_true hab.2
  exact h (ha.trans hb.symm) ⟨haa, hba⟩

theorem root_forkOf {r f : Str} (h : ForkOf s r f) : ∃ m m', s.getRunMeta r = some m ∧
    s.getRunMeta f = some m' ∧ m'.rootRunId = m.rootRunId := by
  obtain ⟨b, hb, rfl, rfl⟩ := h
  obtain ⟨-, m, p, hm, hp, hmr, hpr⟩ := hv.branches b hb
  exact ⟨p, m, hp, hm, hmr.trans hpr.symm⟩

theorem root_transGen {r f : Str} (h : Relation.TransGen (ForkOf s) r f) :
    ∃ m m', s.getRunMeta r = some m ∧ s.getRunMeta f = some m' ∧
      m'.rootRunId = m.rootRunId := by
  induction h with
  | single h => exact hv.root_forkOf h
  | tail _ h ih =>
    obtain ⟨m, m₁, hm, hm₁, hroot⟩ := ih
    obtain ⟨m₂, m', hm₂, hm', hroot'⟩ := hv.root_forkOf h
    obtain rfl := Option.some.inj (hm₁.symm.trans hm₂)
    exact ⟨m, m', hm, hm', hroot'.trans hroot⟩

theorem forkContract : ForkContract s where
  oneActive := hv.oneActive
  root := hv.root_transGen
  forks := by
    rintro c m hfresh ⟨hm, hevents⟩
    rcases forkRun_cases s c with ⟨-, h⟩ | ⟨m', path, last, hm', hpath, h⟩
    · exact absurd hevents (forkPath_eq_none_iff.mp (h m hm))
    · obtain rfl := Option.some.inj (hm.symm.trans hm')
      rw [h]
      exact ⟨rfl, hv.forked hfresh hm hpath⟩
  refuses := by
    intro c hno
    rcases forkRun_cases s c with ⟨h, -⟩ | ⟨m, path, last, hm, hpath, -⟩
    · exact h
    · refine absurd ⟨hm, not_not.mp fun h => ?_⟩ (hno m)
      exact absurd (hpath.symm.trans (forkPath_eq_none_iff.mpr h)) (Option.some_ne_none _)
  activates := by
    rintro r b m ⟨hm, x, hx, hxb, hroot⟩
    rcases activateBranch_cases s r b with ⟨-, h⟩ | ⟨m', t, hm', -, h, hlog, hmeta, hrows⟩
    · exact absurd hroot (h m hm x hx hxb)
    · obtain rfl := Option.some.inj (hm.symm.trans hm')
      exact ⟨t, h, hlog, hmeta, hrows⟩
  keeps := by
    intro r b hno
    rcases activateBranch_cases s r b with ⟨h, -⟩ | ⟨m, t, hm, hx, -⟩
    · exact h
    · exact absurd ⟨hm, hx⟩ (hno m)

end Valid

/-- **Forks are isolated.** After every sequence of calls that gives new ids to runs, a fork
leaves the other runs as they were and copies the path that was asked for, forks of forks share
their root, no family has two active branches, and a call that fails changes nothing. -/
theorem forkContract_run (cs : List (Operation δ μ)) (hfresh : Along step Fresh cs .empty) :
    ForkContract (run step cs .empty).2 :=
  (valid_run cs hfresh).forkContract

instance (c : Operation δ μ) (s : EventTreeStore δ μ) : Decidable (Fresh c s) :=
  match c with
  | .registerRun m => inferInstanceAs (Decidable (m.runId ≠ [] ∧ s.getRunMeta m.runId = none))
  | .appendEvent .. => isTrue trivial
  | .forkRun c =>
    inferInstanceAs (Decidable (s.getRunMeta c.newRun = none ∧ s.rowsOf c.newRun = []))
  | .activateBranch .. => isTrue trivial

/-- A run with three events, one of them a token, a fork at the first event, a fork of that fork,
and the activation of both branches. -/
def forkedTwice : List (Operation Unit ℕ) :=
  let call (r e : Str) (hex : Str) : EventTreeStore.ForkCall :=
    { runId := r, atEventId := e, title := [], hex, eventHex := fun _ => [], now := 1,
      registeredAt := 2 }
  [.registerRun
      { runId := "r1", graphId := [], sessionId := [], taskId := "t1",
        team := "default", rootRunId := [], parentRunId := [], forkEventId := [],
        createdAt := 0 },
    .appendEvent "r1" ⟨"start", "e1", [], ()⟩ [1] "1",
    .appendEvent "r1" ⟨"token", [], [], ()⟩ [1] "2",
    .appendEvent "r1" ⟨"end", "e2", "e1", ()⟩ [1, 2] "3",
    .forkRun (call "t1" "e1" "a"),
    .forkRun (call (execId "a") [] "b"),
    .activateBranch "r1" (execId "a"),
    .activateBranch "r1" (execId "b")]

theorem forkContract_forkedTwice :
    ((run step forkedTwice .empty).2.runBranches.rows.map Branch.active) = [false, true] ∧
      ForkContract (run step forkedTwice .empty).2 :=
  ⟨by decide, forkContract_run forkedTwice (by decide)⟩

end AgentStudio.EventTree

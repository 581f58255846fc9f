import AgentStudio.Execution.RunAudit

/-!
# The turns of a run

A run of a graph, as a list of `Turn`s: the nodes that its dispatch loop executes, in their order,
each with the state before and after. `Turns` is read off the loop: whatever a run returns, it has
turns (`exists_turns`), and `turnsIn` are those of a run in an environment.

`Entry.HasTurns` is about a run from its start: what comes before the loop is `prelude`, and
`executeGraphInner_eq` says that a run is the prelude and the loop.
-/

namespace AgentStudio.Execution

open PyText PyJson PyDict AgentStudio.Graph Programs

/-- A node that the dispatch loop executes, and the run before and after. -/
structure Turn where
  nodeId : Str
  before : Run
  after : Run

namespace Turn

def emitted (τ : Turn) : List AgentEvent := τ.after.events.drop τ.before.events.length

end Turn

/-- The run as the dispatch loop passes it on to a node. -/
def Run.visit (s : Run) (nodeId : Str) : Run :=
  { s with ctx := { s.ctx with
      iterationCount := s.ctx.iterationCount + 1, currentNodeId := nodeId } }

/-! ### The turns of the loop -/

section Loop

variable (nested : Nested) (g : AgentGraph) (model input : Str) (stream : Bool) (c : Scope)

/-- The loop is over: nothing is left of it, or the run has no next node. -/
def Over (left : ℕ) (nodeId : Str) (s : Run) : Prop :=
  left = 0 ∨ nodeId = [] ∨ s.ctx.isMaxIterationsReached = true ∨ g.getNode nodeId = none

instance (left : ℕ) (nodeId : Str) (s : Run) : Decidable (Over g left nodeId s) :=
  haveI : Decidable (g.getNode nodeId = none) := decidable_of_iff _ Option.isNone_iff_eq_none
  inferInstanceAs (Decidable (_ ∨ _))

/-- The turns of the dispatch loop, from a node on. -/
inductive Turns : ℕ → Str → Run → List Turn → Prop
  | halt {left : ℕ} {nodeId : Str} {s : Run} (h : Over g left nodeId s) : Turns left nodeId s []
  | next {left : ℕ} {nodeId next : Str} {s s' : Run} {node : NodeConfig} {log : List Turn}
      (hgo : ¬ Over g (left + 1) nodeId s) (hnode : g.getNode nodeId = some node)
      (h : (Exec.executeNode nested g model input stream nodeId node c (s.visit nodeId)).Returns
        (.ok next, s')) (hrest : Turns left next s' log) :
      Turns (left + 1) nodeId s (⟨nodeId, s.visit nodeId, s'⟩ :: log)
  | last {left : ℕ} {nodeId : Str} {s s' : Run} {node : NodeConfig} {stop : Stop}
      (hgo : ¬ Over g (left + 1) nodeId s) (hnode : g.getNode nodeId = some node)
      (h : (Exec.executeNode nested g model input stream nodeId node c (s.visit nodeId)).Returns
        (.error stop, s')) :
      Turns (left + 1) nodeId s [⟨nodeId, s.visit nodeId, s'⟩]

end Loop

variable {nested : Nested} {g : AgentGraph} {model input : Str} {stream : Bool} {c : Scope}

private theorem dispatch_turn {left : ℕ} {nodeId : Str} {s : Run} {node : NodeConfig}
    (hgo : ¬ Over g (left + 1) nodeId s) (hnode : g.getNode nodeId = some node) :
    Exec.dispatch nested g model input stream (left + 1) nodeId c s =
      .ask ⟨c, (s.visit nodeId).ctx, .visit node.type⟩ fun _ =>
        (Exec.executeNode nested g model input stream nodeId node >>=
          Exec.dispatch nested g model input stream left) c (s.visit nodeId) := by
  obtain ⟨hid, hmax⟩ : nodeId ≠ [] ∧ s.ctx.isMaxIterationsReached ≠ true := by
    simp only [Over, not_or] at hgo
    exact ⟨hgo.2.1, hgo.2.2.1⟩
  rw [Exec.dispatch]
  change (if _ then _ else _ : Exec Unit) c s = _
  rw [if_neg (not_or.mpr ⟨hid, hmax⟩), hnode]
  rfl

theorem exists_turns {left : ℕ} {nodeId : Str} {s : Run} {r : Except Stop Unit × Run}
    (h : (Exec.dispatch nested g model input stream left nodeId c s).Returns r) :
    ∃ log, Turns nested g model input stream c left nodeId s log := by
  induction left generalizing nodeId s with
  | zero => exact ⟨[], .halt (.inl rfl)⟩
  | succ left ih =>
    by_cases hover : Over g (left + 1) nodeId s
    · exact ⟨[], .halt hover⟩
    · obtain ⟨node, hnode⟩ := Option.ne_none_iff_exists'.mp fun hnode =>
        hover (.inr (.inr (.inr hnode)))
      rw [dispatch_turn hover hnode, Program.returns_ask] at h
      obtain ⟨-, h⟩ := h
      rw [bind_apply, Program.returns_bind] at h
      obtain ⟨⟨stop | next, s'⟩, hexec, hrest⟩ := h
      · exact ⟨_, .last hover hnode hexec⟩
      · obtain ⟨log, hlog⟩ := ih hrest
        exact ⟨_, .next hover hnode hexec hlog⟩

/-! ### The turns in an environment -/

/-- The turns of the loop in an environment without a state. -/
def turnsIn (nested : Nested) (g : AgentGraph) (model input : Str) (stream : Bool) (c : Scope)
    (respond : (q : Step) → q.Answer) : ℕ → Str → Run → List Turn
  | 0, _, _ => []
  | left + 1, nodeId, s =>
    if Over g (left + 1) nodeId s then []
    else
      match g.getNode nodeId with
      | none => []
      | some node =>
        let r := ((Exec.executeNode nested g model input stream nodeId node c
          (s.visit nodeId)).run (fun q _ => (respond q, ())) ()).2
        ⟨nodeId, s.visit nodeId, r.2⟩ ::
          match r.1 with
          | .error _ => []
          | .ok next => turnsIn nested g model input stream c respond left next r.2

theorem turns_turnsIn (respond : (q : Step) → q.Answer) (left : ℕ) (nodeId : Str) (s : Run) :
    Turns nested g model input stream c left nodeId s
      (turnsIn nested g model input stream c respond left nodeId s) := by
  induction left generalizing nodeId s with
  | zero => exact .halt (.inl rfl)
  | succ left ih =>
    rw [turnsIn]
    split_ifs with hover
    · exact .halt hover
    · cases hnode : g.getNode nodeId with
      | none => exact absurd (.inr (.inr (.inr hnode))) hover
      | some node =>
        have hexec := Program.returns_run (fun q _ => (respond q, ()))
          (Exec.executeNode nested g model input stream nodeId node c (s.visit nodeId)) ()
        dsimp only
        revert hexec
        generalize (Program.run _ _ _).2 = r
        obtain ⟨stop | next, s'⟩ := r
        · exact fun hexec => .last hover hnode hexec
        · exact fun hexec => .next hover hnode hexec (ih next s')

/-! ### A run -/

namespace Exec

variable {α β γ : Type}

theorem bind_bind (x : Exec α) (f : α → Exec β) (f' : β → Exec γ) :
    x >>= f >>= f' = x >>= fun a => f a >>= f' := by
  funext c s
  simp only [bind_apply, Program.bind_assoc]
  refine congrArg _ (funext fun r => ?_)
  obtain ⟨_ | a, s'⟩ := r <;> rfl

theorem abort_bind (text : Str) (f : α → Exec β) : abort text >>= f = abort text := by
  simp only [abort, fail, bind_bind]
  rfl

theorem ite_bind (p : Prop) [Decidable p] (x y : Exec α) (f : α → Exec β) :
    (if p then x else y) >>= f = if p then x >>= f else y >>= f := by
  split_ifs <;> rfl

/-- What comes before the loop of a run: the input of the run. -/
def prelude (g : AgentGraph) (input : Str) (maxIterations : ℤ) (parent : Option Bool) :
    Exec Str := do
  enterRun g maxIterations parent
  if g.validate ≠ [] then abort ("; ".toList.intercalate g.validate)
  else
    emit ⟨.start, "Starting: " ++ g.name⟩
    let input ← interpolate input
    addInput input
    let model := g.findLlmModel
    if (g.nodes.any fun n => n.2.type = .llm) ∧ model = [] then
      abort "No LLM model configured in graph"
    else return input

theorem executeGraphInner_eq (nested : Nested) (g : AgentGraph) (input : Str) (maxIterations : ℤ)
    (parent : Option Bool) (stream : Bool) :
    executeGraphInner nested g input maxIterations parent stream =
      prelude g input maxIterations parent >>= fun input =>
        dispatchAll nested g g.findLlmModel input stream := by
  simp only [executeGraphInner, prelude, bind_bind, ite_bind, abort_bind]
  rfl

end Exec

namespace Entry

def scope (e : Entry) (up : Option ℕ) : Scope :=
  { rt := e.rt, budget := e.budget.or e.rt.defaultTokenBudget, errorStops := up.map (· + 1) }

def atStart (e : Entry) (s : Run) : Run :=
  { s with ctx := { s.ctx with currentNodeId := e.graph.startNodeId } }

/-- The turns of a run: those of its loop, after the prelude. -/
inductive HasTurns (e : Entry) (nested : Nested) (parent : Option Bool) (up : Option ℕ) :
    List Turn → Prop
  | intro {input : Str} {s : Run} {log : List Turn}
      (hprelude : (Exec.prelude e.graph e.input e.maxIterations parent (e.scope up)
        { ctx := e.ctx }).Returns (.ok input, s))
      (h : Turns nested e.graph e.graph.findLlmModel input e.stream (e.scope up)
        (s.ctx.maxIterations - s.ctx.iterationCount).toNat e.graph.startNodeId (e.atStart s) log) :
      HasTurns e nested parent up log

theorem hasTurns_of_returns {e : Entry} {parent : Option Bool} {up : Option ℕ}
    {r : Except Stop Unit × Run} (h : (runGraph nested e parent up).Returns r) :
    (∃ log, e.HasTurns nested parent up log) ∨
      ∃ stop s, (Exec.prelude e.graph e.input e.maxIterations parent (e.scope up)
        { ctx := e.ctx }).Returns (.error stop, s) := by
  rw [runGraph, Program.returns_map] at h
  obtain ⟨r', h, -⟩ := h
  rw [Exec.executeGraphInner_eq, bind_apply, Program.returns_bind] at h
  obtain ⟨⟨stop | input, s⟩, hprelude, h⟩ := h
  · exact .inr ⟨stop, s, hprelude⟩
  · change ((Exec.dispatch nested e.graph e.graph.findLlmModel input e.stream _ _ >>= _ : Exec Unit)
      (e.scope up) (e.atStart s)).Returns r' at h
    rw [bind_apply, Program.returns_bind] at h
    obtain ⟨⟨r₁, s₁⟩, hloop, -⟩ := h
    obtain ⟨log, hlog⟩ := exists_turns hloop
    exact .inl ⟨log, .intro hprelude hlog⟩

/-- The input of a run in an environment, and the run at its first node, if it reaches its loop. -/
def started (e : Entry) (parent : Option Bool) (up : Option ℕ)
    (respond : (q : Step) → q.Answer) : Option (Str × Run) :=
  match ((Exec.prelude e.graph e.input e.maxIterations parent (e.scope up)
      { ctx := e.ctx }).run (fun q _ => (respond q, ())) ()).2 with
  | (.ok input, s) => some (input, s)
  | (.error _, _) => none

def turnsIn (e : Entry) (nested : Nested) (parent : Option Bool) (up : Option ℕ)
    (respond : (q : Step) → q.Answer) : List Turn :=
  match e.started parent up respond with
  | none => []
  | some (input, s) =>
    Execution.turnsIn nested e.graph e.graph.findLlmModel input e.stream (e.scope up) respond
      (s.ctx.maxIterations - s.ctx.iterationCount).toNat e.graph.startNodeId (e.atStart s)

theorem returns_of_started {e : Entry} {parent : Option Bool} {up : Option ℕ}
    {respond : (q : Step) → q.Answer} {input : Str} {s : Run}
    (h : e.started parent up respond = some (input, s)) :
    (Exec.prelude e.graph e.input e.maxIterations parent (e.scope up)
      { ctx := e.ctx }).Returns (.ok input, s) := by
  have hprelude := Program.returns_run (fun q _ => (respond q, ()))
    (Exec.prelude e.graph e.input e.maxIterations parent (e.scope up) { ctx := e.ctx }) ()
  revert h hprelude
  rw [started]
  generalize (Program.run _ _ _).2 = r
  obtain ⟨stop | input', s'⟩ := r
  · exact fun h => absurd h (by simp)
  · intro h hprelude
    obtain ⟨rfl, rfl⟩ := Prod.mk.inj (Option.some.inj h)
    exact hprelude

theorem hasTurns_turnsIn {e : Entry} {parent : Option Bool} {up : Option ℕ}
    {respond : (q : Step) → q.Answer} (h : (e.started parent up respond).isSome = true) :
    e.HasTurns nested parent up (e.turnsIn nested parent up respond) := by
  obtain ⟨⟨input, s⟩, hstarted⟩ := Option.isSome_iff_exists.mp h
  rw [turnsIn, hstarted]
  exact .intro (returns_of_started hstarted) (turns_turnsIn _ _ _ _)

end Entry

end AgentStudio.Execution

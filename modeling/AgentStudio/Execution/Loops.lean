import AgentStudio.Execution.Turns
import AgentStudio.Library.Passes

/-!
# Loop nodes

A loop node counts its passes in a variable of the run, `tool_params["loop_var"]`, and nothing
sets the variable back. So the law that a loop gives `max_iterations` passes whenever it is entered
(`LoopLaw`) holds of a run in which the counter allows that many passes at every entry, and no
other node touches it while the loop goes on (`Tended`, `loopLaw_of_tended`).

A loop that is entered again starts from where it ended: in `nestedLoops` the inner loop gives no
pass after the first entry.
-/

namespace AgentStudio.Execution

open PyText PyJson PyDict AgentStudio.Graph Programs Passes

/-! ### The counter -/

/-- `tool_params.get("loop_var", "loop_count")`. -/
def loopVar (node : NodeConfig) : Str :=
  ((param node "loop_var").bind decodeStr).getD "loop_count"

def loopCounter (c : Scope) (node : NodeConfig) (ctx : AgentContext) : Option ℤ :=
  c.rt.process.int (((ctx.seeded c.rt.vars).get (loopVar node)).getD (.num 0))

def loopCurrent (c : Scope) (node : NodeConfig) (ctx : AgentContext) : ℤ :=
  (loopCounter c node ctx).getD ctx.iterationCount

/-- The passes that a loop still gives, if nobody touches its counter. -/
def passesLeft (c : Scope) (node : NodeConfig) (ctx : AgentContext) : ℕ :=
  (node.maxIterations - loopCurrent c node ctx).toNat

def countPass (c : Scope) (node : NodeConfig) (ctx : AgentContext) : AgentContext :=
  { ctx with vars := some (setItem (loopVar node)
      (.num (Number.ofInt (loopCurrent c node ctx + 1))) (ctx.seeded c.rt.vars)) }

/-- What a loop node answers when it goes on. -/
def continueEvent : AgentEvent := ⟨.think, "loop_continue"⟩

/-- What a loop node answers when it ends. -/
def exitEvent : AgentEvent := ⟨.think, "loop_exit"⟩

theorem executeLoopNode_apply (c : Scope) (node : NodeConfig) (s : Run) :
    Exec.executeLoopNode node c s =
      if loopCurrent c node s.ctx < node.maxIterations then
        .ask ⟨c, countPass c node s.ctx, .emit continueEvent⟩ fun _ =>
          .ret (.ok true, ⟨countPass c node s.ctx, s.events ++ [continueEvent]⟩)
      else
        .ask ⟨c, s.ctx, .emit exitEvent⟩ fun _ =>
          .ret (.ok false, { s with events := s.events ++ [exitEvent] }) := by
  rw [Exec.executeLoopNode]
  change (if _ then _ else _ : Exec Bool) c s = _
  split_ifs with h h' h'
  · rfl
  · exact absurd h h'
  · exact absurd h' h
  · rfl

def loopTurn (c : Scope) (node : NodeConfig) (s : Run) : Run :=
  if loopCurrent c node s.ctx < node.maxIterations then
    ⟨countPass c node s.ctx, s.events ++ [continueEvent]⟩
  else { s with events := s.events ++ [exitEvent] }

variable {nested : Nested} {g : AgentGraph} {model input : Str} {stream : Bool} {c : Scope}
  {node : NodeConfig} {nodeId : Str}

theorem eq_loopTurn (hloop : node.type = .loop) {s : Run} {r : Except Stop Str × Run}
    (h : (Exec.executeNode nested g model input stream nodeId node c s).Returns r) :
    r.2 = loopTurn c node s := by
  rw [Exec.executeNode, hloop] at h
  change ((Exec.executeLoopNode node >>= _ : Exec Str) c s).Returns r at h
  rw [bind_apply, executeLoopNode_apply, Program.returns_bind] at h
  obtain ⟨r₁, hnode, h⟩ := h
  rw [loopTurn]
  split_ifs at hnode ⊢ with hgo
  · obtain rfl : r₁ = _ := by simpa only [Program.returns_ask, Program.returns_ret, exists_const]
      using hnode
    dsimp only at h
    rw [if_pos rfl] at h
    change ((if _ then _ else _ : Exec Str) c _).Returns r at h
    split_ifs at h <;> rw [Program.returns_ret.mp h]
  · obtain rfl : r₁ = _ := by simpa only [Program.returns_ask, Program.returns_ret, exists_const]
      using hnode
    rw [Program.returns_ret.mp h]

theorem loopCounter_countPass (hint : ∀ n, c.rt.process.int (.num (Number.ofInt n)) = some n)
    (hdot : '.' ∉ loopVar node) (ctx : AgentContext) :
    loopCounter c node (countPass c node ctx) = some (loopCurrent c node ctx + 1) := by
  have hget : ((countPass c node ctx).seeded c.rt.vars).get (loopVar node) =
      some (.num (Number.ofInt (loopCurrent c node ctx + 1))) := by
    simp [countPass, AgentContext.seeded, Vars.get, hdot]
  rw [loopCounter, hget, Option.getD_some, hint]

/-! ### The law -/

/-- What a turn is to the loop of a node: what the node answers, if it is its turn. -/
def Turn.loopSignal (nodeId : Str) (τ : Turn) : Signal :=
  if τ.nodeId ≠ nodeId then .other
  else if τ.emitted = [continueEvent] then .again
  else if τ.emitted = [exitEvent] then .done
  else .other

/-- Whenever the loop is entered, it answers `loop_continue` as often as its bound before it
answers `loop_exit`. -/
def LoopLaw (nodeId : Str) (node : NodeConfig) (log : List Turn) : Prop :=
  Exact (Turn.loopSignal nodeId) node.maxIterations log

instance (nodeId : Str) (node : NodeConfig) (log : List Turn) :
    Decidable (LoopLaw nodeId node log) := inferInstanceAs (Decidable (Exact _ _ _))

/-- A turn tends a loop: where the loop is entered its counter leaves it as many passes as its
bound, and while it goes on a turn of another node leaves the counter alone. -/
def Tends (c : Scope) (nodeId : Str) (node : NodeConfig) (τ : Turn) (passes : Option ℕ) : Prop :=
  if τ.nodeId = nodeId then
    passes = none → (passesLeft c node τ.before.ctx : ℤ) = node.maxIterations
  else passes ≠ none → loopCounter c node τ.after.ctx = loopCounter c node τ.before.ctx

instance (c : Scope) (nodeId : Str) (node : NodeConfig) (τ : Turn) (passes : Option ℕ) :
    Decidable (Tends c nodeId node τ passes) := inferInstanceAs (Decidable (ite _ _ _))

/-- Every turn of a run tends the loop, and its variable has a plain name. -/
def Tended (c : Scope) (nodeId : Str) (node : NodeConfig) (log : List Turn) : Prop :=
  '.' ∉ loopVar node ∧
    Machine.Along (count (Turn.loopSignal nodeId)) (Tends c nodeId node) log none

instance (c : Scope) (nodeId : Str) (node : NodeConfig) (log : List Turn) :
    Decidable (Tended c nodeId node log) := inferInstanceAs (Decidable (_ ∧ _))

/-- The counter and the passes since the loop was entered come to the bound. -/
def Counted (c : Scope) (node : NodeConfig) (ctx : AgentContext) (passes : Option ℕ) : Prop :=
  ∀ k, passes = some k → (loopCounter c node ctx).isSome = true ∧
    (k + passesLeft c node ctx : ℤ) = node.maxIterations

private theorem fits_loopTurn (hint : ∀ n, c.rt.process.int (.num (Number.ofInt n)) = some n)
    (hdot : '.' ∉ loopVar node) {s : Run} {passes : Option ℕ}
    (hcounted : Counted c node s.ctx passes)
    (hentry : passes = none → (passesLeft c node s.ctx : ℤ) = node.maxIterations) :
    Fits (Turn.loopSignal nodeId) node.maxIterations ⟨nodeId, s, loopTurn c node s⟩ passes ∧
      Counted c node (loopTurn c node s).ctx
        (count (Turn.loopSignal nodeId) ⟨nodeId, s, loopTurn c node s⟩ passes).2 := by
  have hsum : (passes.getD 0 + passesLeft c node s.ctx : ℤ) = node.maxIterations := by
    cases passes with
    | none => simpa using hentry rfl
    | some k => exact (hcounted k rfl).2
  by_cases hgo : loopCurrent c node s.ctx < node.maxIterations
  · have hturn : loopTurn c node s = ⟨countPass c node s.ctx, s.events ++ [continueEvent]⟩ :=
      if_pos hgo
    have hsignal : Turn.loopSignal nodeId ⟨nodeId, s, loopTurn c node s⟩ = .again := by
      simp [Turn.loopSignal, Turn.emitted, hturn]
    have hleft : (passesLeft c node (countPass c node s.ctx) : ℤ) =
        passesLeft c node s.ctx - 1 := by
      simp only [passesLeft, loopCurrent, loopCounter_countPass hint hdot, Option.getD_some]
      simp only [loopCurrent] at hgo
      omega
    have hpos : 0 < passesLeft c node s.ctx := by
      simp only [passesLeft]
      omega
    refine ⟨⟨fun _ => by omega, fun h => absurd (hsignal.symm.trans h) (by simp)⟩, fun k hk => ?_⟩
    simp only [count, hsignal, Option.some.injEq] at hk
    rw [hturn]
    refine ⟨by rw [loopCounter_countPass hint hdot]; rfl, ?_⟩
    rw [hleft]
    omega
  · have hturn : loopTurn c node s = { s with events := s.events ++ [exitEvent] } := if_neg hgo
    have hsignal : Turn.loopSignal nodeId ⟨nodeId, s, loopTurn c node s⟩ = .done := by
      simp [Turn.loopSignal, Turn.emitted, hturn, continueEvent, exitEvent]
    have hzero : passesLeft c node s.ctx = 0 := by
      simp only [passesLeft]
      omega
    refine ⟨⟨fun h => absurd (hsignal.symm.trans h) (by simp), fun _ => by omega⟩, fun k hk => ?_⟩
    simp [count, hsignal] at hk

private theorem Counted.of_eq {ctx ctx' : AgentContext} {passes : Option ℕ}
    (h : Counted c node ctx passes)
    (heq : passes ≠ none → loopCounter c node ctx' = loopCounter c node ctx) :
    Counted c node ctx' passes := by
  intro k hk
  obtain ⟨hsome, hsum⟩ := h k hk
  have hcounter := heq (by simp [hk])
  obtain ⟨n, hn⟩ := Option.isSome_iff_exists.mp hsome
  simp only [passesLeft, loopCurrent, hn, Option.getD_some] at hsum
  simp only [passesLeft, loopCurrent, hcounter, hn, Option.getD_some]
  exact ⟨rfl, hsum⟩

private theorem fits_turn (hint : ∀ n, c.rt.process.int (.num (Number.ofInt n)) = some n)
    (hdot : '.' ∉ loopVar node) (hnode : g.getNode nodeId = some node)
    (hloop : node.type = .loop) {passes : Option ℕ} {id : Str} {node' : NodeConfig} {s : Run}
    {r : Except Stop Str × Run} (hid : g.getNode id = some node')
    (h : (Exec.executeNode nested g model input stream id node' c (s.visit id)).Returns r)
    (hcounted : Counted c node s.ctx passes)
    (htends : Tends c nodeId node ⟨id, s.visit id, r.2⟩ passes) :
    Fits (Turn.loopSignal nodeId) node.maxIterations ⟨id, s.visit id, r.2⟩ passes ∧
      Counted c node r.2.ctx (count (Turn.loopSignal nodeId) ⟨id, s.visit id, r.2⟩ passes).2 := by
  have hvisit : Counted c node (s.visit id).ctx passes := hcounted.of_eq fun _ => rfl
  rw [Tends] at htends
  split_ifs at htends with heq
  · obtain rfl : id = nodeId := heq
    obtain rfl : node = node' := Option.some.inj (hnode.symm.trans hid)
    rw [eq_loopTurn hloop h]
    exact fits_loopTurn hint hdot hvisit htends
  · have hother : Turn.loopSignal nodeId ⟨id, s.visit id, r.2⟩ = .other := if_pos heq
    refine ⟨⟨fun h => absurd (hother.symm.trans h) (by simp),
      fun h => absurd (hother.symm.trans h) (by simp)⟩, ?_⟩
    simp only [count, hother]
    exact hvisit.of_eq htends

private theorem along_fits (hint : ∀ n, c.rt.process.int (.num (Number.ofInt n)) = some n)
    (hdot : '.' ∉ loopVar node) (hnode : g.getNode nodeId = some node)
    (hloop : node.type = .loop) {left : ℕ} {id : Str} {s : Run} {log : List Turn}
    (h : Turns nested g model input stream c left id s log) {passes : Option ℕ}
    (hcounted : Counted c node s.ctx passes)
    (htended : Machine.Along (count (Turn.loopSignal nodeId)) (Tends c nodeId node) log passes) :
    Machine.Along (count (Turn.loopSignal nodeId))
      (Fits (Turn.loopSignal nodeId) node.maxIterations) log passes := by
  induction h generalizing passes with
  | halt h => trivial
  | next hgo hid hexec hrest ih =>
    obtain ⟨hfits, hcounted'⟩ := fits_turn hint hdot hnode hloop hid hexec hcounted htended.1
    exact ⟨hfits, ih hcounted' htended.2⟩
  | last hgo hid hexec =>
    exact ⟨(fits_turn hint hdot hnode hloop hid hexec hcounted htended.1).1, trivial⟩

/-- How often a loop node answers `loop_continue` in a stretch of a run. -/
def continues (nodeId : Str) (stretch : List Turn) : ℕ :=
  stretch.countP (Turn.loopSignal nodeId · = .again)

/-- How often a loop node answers `loop_exit` in a stretch of a run. -/
def exits (nodeId : Str) (stretch : List Turn) : ℕ :=
  stretch.countP (Turn.loopSignal nodeId · = .done)

/-- A run is outside of a loop before a stretch of it and after it. -/
def Outside (nodeId : Str) (past stretch : List Turn) : Prop :=
  passes (Turn.loopSignal nodeId) past = none ∧
    passes (Turn.loopSignal nodeId) (past ++ stretch) = none

instance (nodeId : Str) (past stretch : List Turn) : Decidable (Outside nodeId past stretch) :=
  inferInstanceAs (Decidable (_ ∧ _))

def loopParams (loopVar loopStart : Str) : Dict where
  members := [("loop_var", .str loopVar), ("loop_start_node", .str loopStart)]
  nodup := by
    change List.Nodup ["loop_var".toList, "loop_start_node".toList]
    decide
  wf := by simp [Json.WF]

/-- A loop node with a bound, a variable and a body. -/
def loopNode (maxIterations : ℤ) (loopVar loopStart : Str) : NodeConfig where
  type := .loop
  maxIterations
  toolParams := loopParams loopVar loopStart

/-- A loop whose body is another loop, each with a variable of its own. -/
def nestedLoops (outer inner : ℤ) : AgentGraph where
  id := "g"
  nodes := [("s", { type := .start }),
    ("o", loopNode outer "n" "i"),
    ("i", loopNode inner "m" "b"),
    ("b", { type := .condition }),
    ("e", { type := .end_ })]
  edges := [{ sourceId := "s", targetId := "o" },
    { sourceId := "o", targetId := "e" },
    { sourceId := "o", targetId := "i", label := "body" },
    { sourceId := "i", targetId := "o" },
    { sourceId := "i", targetId := "b", label := "body" },
    { sourceId := "b", targetId := "i" }]
  startNodeId := "s"
  nodup := by
    change List.Nodup ["s".toList, "o".toList, "i".toList, "b".toList, "e".toList]
    decide

def looping (outer inner : ℤ) : Entry where
  rt := { process := { plainProcess with int := pyInt } }
  graph := nestedLoops outer inner

def loopingTurns (outer inner : ℤ) : List Turn :=
  (looping outer inner).turnsIn (nestedAt 0 (nestedLoops outer inner)) none none
    fun q => q.call.oblige {}

theorem hasTurns_looping {outer inner : ℤ}
    (h : ((looping outer inner).started none none fun q => q.call.oblige {}).isSome = true) :
    (looping outer inner).HasTurns (nestedAt 0 (nestedLoops outer inner)) none none
      (loopingTurns outer inner) := Entry.hasTurns_turnsIn h

end AgentStudio.Execution

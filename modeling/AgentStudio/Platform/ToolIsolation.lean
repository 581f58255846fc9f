import AgentStudio.Platform.AgentTools

/-!
# Capability tools of several agents

A capability tool that is called in the run of an agent should reach the door with the agent's own
identifier, version and publisher and with the capability for which its manifest lists the tool, and
a sync should leave the tools of other agents alone (`ToolState.Lawful`).

The names decide: two agents share the beginning of their tools' names exactly if the first eight
letters and digits of their identifiers agree (`toolPrefix_isPrefixOf`). `ToolOp.Apart` is the
condition on a step. Of a sync it says that the tools of agents with the same beginning are not in
its way; of a call, that the tool under the name is one of the agent's own and up to date, and that
the capability in its variable `_cap_id`, which the arguments may set, is the only one of the
manifest with this name. `lawful_iff_apart` shows that this is exact.
-/

namespace AgentStudio.Platform

open PyText PyJson PyDict Machine

variable {c : Conversions} {caps : Capabilities} {a name : Str} {m : ToolManifest} {s : ToolState}
  {b : Bridge}

/-! ### Names -/

theorem underscore_notMem_agent8 (agentId : Str) : '_' ∉ agent8 agentId := by
  intro h
  have hmem := List.mem_of_mem_take h
  exact absurd (List.mem_filter.mp hmem).2 (by decide)

theorem eq_of_separated {x y rest : Str} (hx : '_' ∉ x) (hy : '_' ∉ y)
    (h : (x ++ ['_']) <+: (y ++ '_' :: rest)) : x = y := by
  induction x generalizing y with
  | nil =>
    cases y with
    | nil => rfl
    | cons ch y =>
      have hch : '_' = ch := (List.cons_prefix_cons.mp h).1
      exact absurd (hch ▸ List.mem_cons_self) hy
  | cons ch x ih =>
    cases y with
    | nil =>
      have hch : ch = '_' := (List.cons_prefix_cons.mp h).1
      exact absurd (hch ▸ List.mem_cons_self) hx
    | cons ch' y =>
      obtain ⟨rfl, hrest⟩ := List.cons_prefix_cons.mp h
      rw [ih (fun hmem => hx (List.mem_cons_of_mem _ hmem))
        (fun hmem => hy (List.mem_cons_of_mem _ hmem)) hrest]

/-- An agent's tools begin like those of another agent exactly if the beginnings of their
identifiers agree. -/
theorem toolPrefix_isPrefixOf {a a' capabilityId : Str} :
    (toolPrefix a).isPrefixOf (bridgeToolName a' capabilityId) = true ↔ agent8 a' = agent8 a := by
  rw [List.isPrefixOf_iff_prefix]
  unfold bridgeToolName toolPrefix
  constructor
  · intro h
    rw [List.append_assoc, List.append_assoc, List.append_assoc, List.prefix_append_right_inj] at h
    exact (eq_of_separated (underscore_notMem_agent8 a) (underscore_notMem_agent8 a') h).symm
  · intro h
    rw [h]
    exact List.prefix_append _ _

theorem agent8_eq_of_name {a a' capabilityId capabilityId' : Str}
    (h : bridgeToolName a capabilityId = bridgeToolName a' capabilityId') :
    agent8 a = agent8 a' := by
  have hprefix : (toolPrefix a').isPrefixOf (bridgeToolName a capabilityId) = true := by
    rw [h]
    exact toolPrefix_isPrefixOf.mpr rfl
  exact toolPrefix_isPrefixOf.mp hprefix

/-! ### The law -/

/-- A sync has dropped tools of its own agent only; a call has the agent's identity as of its last
sync, and the one capability that its manifest lists under the name of the tool. -/
def ToolEvent.Lawful : ToolEvent → Prop
  | .synced a dropped => ∀ b ∈ dropped, b.agentId = a
  | .called a name last call =>
    ∃ l, last = some l ∧ call.agentId = a ∧ call.version = l.version ∧
      call.publisher = l.publisher ∧
      (∃ id ∈ l.capabilities, bridgeToolName a id = name) ∧
      ∀ id ∈ l.capabilities, bridgeToolName a id = name → call.capabilityId = .str id

def ToolState.Lawful (s : ToolState) : Prop := ∀ e ∈ s.log, e.Lawful

/-! ### The condition -/

/-- The manifest of the last sync lists a capability, and no other one that has the same name. -/
def Synced.Sole (l : Synced) (id : Str) : Prop :=
  id ∈ l.capabilities ∧ ∀ id' ∈ l.capabilities, saneName id' = saneName id → id' = id

def ToolOp.Apart (c : Conversions) : ToolOp → ToolState → Prop
  | .sync a m caps, s =>
    ∀ name b, (name, .bridge b) ∈ s.tools → agent8 b.agentId = agent8 a → b.agentId ≠ a →
      name ∉ (m.bridges c caps a).1.map Prod.fst ∧
        ((m.bridges c caps a).2 = true → name ∈ m.wanted c a)
  | .call a name config args, s =>
    ∀ b, s.tools.lookup name = some (.bridge b) → (b.execute c config args).isSome = true →
      b.agentId = a ∧ ∃ l id, s.last.lookup a = some l ∧ b.version = l.version ∧
        b.publisher = l.publisher ∧ b.capId (b.arguments c config args) = .str id ∧
        saneName id = saneName b.capabilityId ∧ l.Sole id

/-! ### The names in the registry -/

/-- Every capability tool in the registry is under its own name. -/
def ToolState.Named (s : ToolState) : Prop :=
  ∀ name b, (name, .bridge b) ∈ s.tools → name = bridgeToolName b.agentId b.capabilityId

theorem mem_bridgesOf {entries : List (Str × List (Str × Json))}
    (h : (name, b) ∈ (bridgesOf c caps a m entries).1) :
    b.agentId = a ∧ name = bridgeToolName a b.capabilityId := by
  induction entries with
  | nil => exact absurd h List.not_mem_nil
  | cons e entries ih =>
    obtain ⟨key, entry⟩ := e
    rw [bridgesOf] at h
    dsimp only at h
    split_ifs at h with hempty
    · exact ih h
    · split at h
      · exact absurd h List.not_mem_nil
      · exact ih h
      · rcases List.mem_cons.mp h with heq | h
        · cases heq
          exact ⟨rfl, rfl⟩
        · exact ih h

theorem mem_registered {bridges : List (Str × Bridge)} {tools : ToolRegistry} {t : Str × Tool}
    (h : t ∈ bridges.foldl (fun d b => setItem b.1 (.bridge b.2) d) tools) :
    t ∈ tools ∨ ∃ b ∈ bridges, t = (b.1, .bridge b.2) := by
  induction bridges generalizing tools with
  | nil => exact Or.inl h
  | cons x bridges ih =>
    rcases ih h with h | ⟨b, hb, rfl⟩
    · rcases mem_setItem h with rfl | h
      · exact Or.inr ⟨x, List.mem_cons_self, rfl⟩
      · exact Or.inl h
    · exact Or.inr ⟨b, List.mem_cons_of_mem x hb, rfl⟩

theorem mem_syncAgentTools {tools : ToolRegistry} {t : Str × Tool}
    (h : t ∈ syncAgentTools c caps a m tools) :
    t ∈ tools ∨ ∃ b ∈ (m.bridges c caps a).1, t = (b.1, .bridge b.2) := by
  unfold syncAgentTools at h
  dsimp only at h
  split_ifs at h
  · exact mem_registered (List.mem_filter.mp h).1
  · exact mem_registered h

theorem named_step (op : ToolOp) (s : ToolState) (hs : s.Named) : (toolStep c op s).2.Named := by
  cases op with
  | sync a m caps =>
    intro name b h
    rcases mem_syncAgentTools h with h | ⟨x, hx, heq⟩
    · exact hs name b h
    · cases heq
      obtain ⟨hagent, hname⟩ := mem_bridgesOf hx
      rw [hname, hagent]
  | call a name config args =>
    have htools : (toolStep c (.call a name config args) s).2.tools = s.tools := by
      rw [toolStep]
      split
      · split <;> rfl
      · rfl
    intro name b h
    rw [htools] at h
    exact hs name b h

/-! ### Syncs -/

theorem mem_droppedBy {tools : ToolRegistry} : b ∈ droppedBy c caps a m tools ↔
    ∃ name, (name, .bridge b) ∈ tools ∧ (name ∈ (m.bridges c caps a).1.map Prod.fst ∨
      ((m.bridges c caps a).2 = true ∧ m.stale c a name = true)) := by
  unfold droppedBy
  dsimp only
  rw [List.mem_filterMap]
  constructor
  · rintro ⟨⟨name, tool⟩, ht, h⟩
    cases tool with
    | other => cases h
    | bridge b' =>
      simp only [Option.ite_none_right_eq_some, Option.some.injEq] at h
      obtain ⟨h, rfl⟩ := h
      exact ⟨name, ht, h⟩
  · rintro ⟨name, ht, h⟩
    exact ⟨(name, .bridge b), ht, if_pos h⟩

/-- A sync drops tools of its own agent only, exactly if those of agents with the same beginning are
not in its way. -/
theorem synced_lawful_iff (hs : s.Named) :
    (ToolEvent.synced a (droppedBy c caps a m s.tools)).Lawful ↔
      (ToolOp.sync a m caps).Apart c s := by
  constructor
  · intro h name b hb height hagent
    constructor
    · intro hmem
      exact hagent (h b (mem_droppedBy.mpr ⟨name, hb, Or.inl hmem⟩))
    · intro hcomplete
      by_contra hwanted
      refine hagent (h b (mem_droppedBy.mpr ⟨name, hb, Or.inr ⟨hcomplete, ?_⟩⟩))
      rw [ToolManifest.stale, Bool.and_eq_true, hs name b hb]
      exact ⟨toolPrefix_isPrefixOf.mpr height, decide_eq_true (hs name b hb ▸ hwanted)⟩
  · intro h b hb
    obtain ⟨name, htool, hdrop⟩ := mem_droppedBy.mp hb
    by_contra hagent
    rcases hdrop with hmem | ⟨hcomplete, hstale⟩
    · -- the name is one that the sync registers, so it begins as the agent's names do
      obtain ⟨x, hx, hname⟩ := List.mem_map.mp hmem
      have hown : name = bridgeToolName a x.2.capabilityId := hname ▸ (mem_bridgesOf hx).2
      have height : agent8 b.agentId = agent8 a :=
        agent8_eq_of_name ((hs name b htool).symm.trans hown)
      exact (h name b htool height hagent).1 hmem
    · rw [ToolManifest.stale, Bool.and_eq_true, hs name b htool] at hstale
      have height := toolPrefix_isPrefixOf.mp hstale.1
      exact of_decide_eq_true hstale.2
        (hs name b htool ▸ (h name b htool height hagent).2 hcomplete)

/-! ### Calls -/

theorem bridgeToolName_eq_iff {id id' : Str} :
    bridgeToolName a id = bridgeToolName a id' ↔ saneName id = saneName id' :=
  List.append_right_inj _

theorem execute_eq_some {config args : List (Str × Json)} {call : DoorCall}
    (h : b.execute c config args = some call) : call.agentId = b.agentId ∧
      call.version = b.version ∧ call.publisher = b.publisher ∧
      call.capabilityId = b.capId (b.arguments c config args) := by
  unfold Bridge.execute at h
  dsimp only at h
  split_ifs at h
  obtain ⟨missing, -, rfl⟩ := Option.map_eq_some_iff.mp h
  exact ⟨rfl, rfl, rfl, rfl⟩

/-- The call of a tool of the registry is lawful exactly if the tool is the agent's own and up to
date, and its capability the only one with this name. -/
theorem called_lawful_iff (hs : s.Named) {config args : List (Str × Json)} {call : DoorCall}
    (htool : s.tools.lookup name = some (.bridge b)) (h : b.execute c config args = some call) :
    (ToolEvent.called a name (s.last.lookup a) call).Lawful ↔
      (ToolOp.call a name config args).Apart c s := by
  obtain ⟨hagent, hversion, hpublisher, hcap⟩ := execute_eq_some h
  have hname : name = bridgeToolName b.agentId b.capabilityId :=
    hs name b (mem_of_lookup htool)
  constructor
  · rintro ⟨l, hl, ha, hv, hp, ⟨id, hid, hidname⟩, hall⟩ b' htool' -
    obtain rfl : b = b' := by
      rw [htool] at htool'
      cases htool'
      rfl
    have hown : b.agentId = a := hagent.symm.trans ha
    have hsane : saneName id = saneName b.capabilityId := by
      rw [hname, hown] at hidname
      exact bridgeToolName_eq_iff.mp hidname
    have hkept : b.capId (b.arguments c config args) = .str id :=
      hcap.symm.trans (hall id hid hidname)
    refine ⟨hown, l, id, hl, hversion.symm.trans hv, hpublisher.symm.trans hp, hkept, hsane, hid,
      fun id' hid' hsane' => ?_⟩
    have hname' : bridgeToolName a id' = name := by
      rw [← hidname]
      exact bridgeToolName_eq_iff.mpr hsane'
    have heq := (hall id' hid' hname').symm.trans (hcap.trans hkept)
    cases heq
    rfl
  · intro hapart
    obtain ⟨hown, l, id, hl, hv, hp, hkept, hsane, hid, hsole⟩ :=
      hapart b htool (Option.isSome_iff_exists.mpr ⟨call, h⟩)
    have hiff : ∀ {id'}, bridgeToolName a id' = name ↔ saneName id' = saneName id := by
      intro id'
      rw [hname, hown, bridgeToolName_eq_iff, hsane]
    refine ⟨l, hl, hagent.trans hown, hversion.trans hv, hpublisher.trans hp,
      ⟨id, hid, hiff.mpr rfl⟩, fun id' hid' hname' => ?_⟩
    rw [hsole id' hid' (hiff.mp hname')]
    exact hcap.trans hkept

/-! ### Isolation -/

theorem lawful_step_iff (op : ToolOp) (s : ToolState) (hs : s.Named) (hl : s.Lawful) :
    (toolStep c op s).2.Lawful ↔ op.Apart c s := by
  cases op with
  | sync a m caps =>
    have hevent : (ToolEvent.synced a (droppedBy c caps a m s.tools)).Lawful ↔
        (ToolOp.sync a m caps).Apart c s := synced_lawful_iff hs
    exact (List.forall_mem_cons.trans (and_iff_left hl)).trans hevent
  | call a name config args =>
    cases htool : s.tools.lookup name with
    | none =>
      have hstep : (toolStep c (.call a name config args) s).2 = s := by
        simp only [toolStep, htool]
      rw [hstep]
      refine iff_of_true hl fun b hb => ?_
      rw [htool] at hb
      cases hb
    | some tool =>
      cases tool with
      | other =>
        have hstep : (toolStep c (.call a name config args) s).2 = s := by
          simp only [toolStep, htool]
        rw [hstep]
        refine iff_of_true hl fun b hb => ?_
        rw [htool] at hb
        cases hb
      | bridge b =>
        cases hcall : b.execute c config args with
        | none =>
          have hstep : (toolStep c (.call a name config args) s).2 = s := by
            simp only [toolStep, htool, hcall]
          rw [hstep]
          refine iff_of_true hl fun b' hb' hsome => ?_
          rw [htool] at hb'
          cases hb'
          rw [hcall] at hsome
          cases hsome
        | some call =>
          have hstep : (toolStep c (.call a name config args) s).2 =
              { s with log := .called a name (s.last.lookup a) call :: s.log } := by
            simp only [toolStep, htool, hcall]
          rw [hstep]
          exact (List.forall_mem_cons.trans (and_iff_left hl)).trans
            (called_lawful_iff hs htool hcall)

def freshTools (names : List Str) : ToolState where
  tools := names.map fun name => (name, .other)

/-- In every sequence of syncs and tool calls of agents that share a registry, the calls reach the
door with the identity of their agents and with the listed capability, and no sync touches a tool of
another agent, exactly if each step is apart from other agents. -/
theorem lawful_iff_apart (c : Conversions) (names : List Str) (ops : List ToolOp) :
    (∀ n, (run (toolStep c) (ops.take n) (freshTools names)).2.Lawful) ↔
      Along (toolStep c) (ToolOp.Apart c) ops (freshTools names) := by
  have hnamed : (freshTools names).Named := by
    intro name b h
    obtain ⟨x, -, heq⟩ := List.mem_map.mp h
    cases heq
  have hlawful : (freshTools names).Lawful := List.forall_mem_nil _
  exact (run_throughout_iff named_step lawful_step_iff ops hnamed).trans (and_iff_right hlawful)

/-! ### Two agents -/

def plainConversions : Conversions where
  text _ := []
  float _ := none

def oneCapability : Capabilities := [{ id := "graph.list", source := .rest }]

def listing : ToolManifest where
  tools := [.str "graph.list"]

/-- Two agents whose identifiers begin alike are synchronised. -/
def twins : List ToolOp :=
  [.sync "assistant-1" listing oneCapability, .sync "assistant-2" listing oneCapability]

/-- The second sync replaces the tool of the first agent. -/
theorem not_apart : ¬ ∀ c names ops, (run (toolStep c) ops (freshTools names)).2.Lawful := by
  intro h
  have hevent := h plainConversions [] twins _ List.mem_cons_self
  have hagent := hevent _ List.mem_cons_self
  exact absurd hagent (by decide)

end AgentStudio.Platform

import AgentStudio.Execution.Limits

/-!
# The variables across a sub-graph

`_execute_sub_graph` has one store of variables for three purposes: the mapped inputs are staged in
the variables of the parent, the runtime of the sub-graph starts with a copy of them, and the
outputs are written back into them. An output whose value at the end of the sub-run is `""` is
taken from the copy instead.

* `Crossing` is a run of a sub-graph as its parent sees it: the mappings, the variables of the
  parent before, and the context of the sub-run at its end. `Crossing.Of` says that it is the
  crossing of a trace of `executeSubGraph`; a trace that returns without an `ERROR` event has one
  (`crossing_of_traced`).
* `Crossing.Isolated` is the frame law: no input that is staged changes a variable of the parent,
  at the end the variables differ from those before at the targets of the outputs only, and each
  target has the final value of its source.
* `Crossing.Careful` says when this is so: each input is staged over a variable that has its value
  already, and an output whose source ends as `""` has a source that is `""` for the parent too.
-/

namespace AgentStudio.Execution

open PyText PyJson PyDict AgentStudio.Graph Programs

/-! ### Variables up to their order -/

/-- The same variables: under each name the same value, in whatever order. -/
def Vars.Agrees (vars vars' : Vars) : Prop := ∀ name, vars.lookup name = vars'.lookup name

theorem Vars.Agrees.get {vars vars' : Vars} (h : vars.Agrees vars') (name : Str) :
    vars.get name = vars'.get name := by
  rw [Vars.get, Vars.get]
  split_ifs
  · -- the first part of a dotted name is a name of a variable
    cases hparts : name.splitOn '.' with
    | nil => exact absurd hparts (List.splitOn_ne_nil _ _)
    | cons key keys =>
      rw [List.foldlM_cons, List.foldlM_cons]
      exact congrArg (· >>= _) (h key)
  · exact h name

theorem Vars.Agrees.varOrEmpty {vars vars' : Vars} (h : vars.Agrees vars') (name : Str) :
    Exec.varOrEmpty vars name = Exec.varOrEmpty vars' name :=
  congrArg (Option.getD · _) (h.get name)

namespace Exec

/-! ### Staging the inputs -/

/-- The variables of the parent after an input has been staged. -/
def stage (vars : Vars) (m : Str × Str) : Vars :=
  if m.2 = "input" then vars else setItem m.2 (varOrEmpty vars m.1) vars

/-- The variables after outputs have been written. -/
def writeBack (value : Str → Json) (outputs : List (Str × Str)) (vars : Vars) : Vars :=
  outputs.foldl (fun vars m => setItem m.2 (value m.1) vars) vars

theorem mapInput_apply (input : Str) (m : Str × Str) (c : Scope) (s : Run) :
    ∃ text vars, mapInput input m c s = .ret (.ok text, { s with ctx := { s.ctx with vars } }) ∧
      vars.getD c.rt.vars = stage (s.ctx.seeded c.rt.vars) m := by
  change ∃ text vars, (if m.2 = "input" then _ else _ : Exec Str) c s = _ ∧ _
  rw [stage]
  split_ifs
  · exact ⟨_, s.ctx.vars, rfl, rfl⟩
  · exact ⟨_, _, rfl, rfl⟩

theorem traced_mapInputs {inputs : List (Str × Str)} {input : Str} {c : Scope} {s : Run}
    {t : List (Event Step.Answer)} {r : Except Stop Str × Run}
    (h : (foldl mapInput input inputs c s).Traced t r) :
    t = [] ∧ ∃ text vars, r = (.ok text, { s with ctx := { s.ctx with vars } }) ∧
      vars.getD c.rt.vars = inputs.foldl stage (s.ctx.seeded c.rt.vars) := by
  induction inputs generalizing input s with
  | nil =>
    obtain ⟨rfl, rfl⟩ := Program.traced_ret.mp h
    exact ⟨rfl, input, s.ctx.vars, rfl, rfl⟩
  | cons m ms ih =>
    obtain ⟨text, vars, happly, hvars⟩ := mapInput_apply input m c s
    rw [foldl, bind_apply, happly] at h
    obtain ⟨rfl, text', vars', rfl, hvars'⟩ := ih h
    refine ⟨rfl, text', vars', rfl, ?_⟩
    rw [hvars', List.foldl_cons, ← hvars]
    rfl

theorem traced_setVars {value : Str → Json} {outputs : List (Str × Str)} {c : Scope} {s : Run}
    {t : List (Event Step.Answer)} {r : Except Stop Unit × Run}
    (h : (each outputs (fun m => setVar m.2 (value m.1)) c s).Traced t r) :
    t = [] ∧ r.1 = .ok () ∧
      r.2.ctx.seeded c.rt.vars = writeBack value outputs (s.ctx.seeded c.rt.vars) := by
  induction outputs generalizing s with
  | nil =>
    obtain ⟨rfl, rfl⟩ := Program.traced_ret.mp h
    exact ⟨rfl, rfl, rfl⟩
  | cons m ms ih => exact ih h

theorem lookup_writeBack_of_notMem {value : Str → Json} {outputs : List (Str × Str)} {name : Str}
    (h : name ∉ outputs.map Prod.snd) (vars : Vars) :
    (writeBack value outputs vars).lookup name = vars.lookup name := by
  induction outputs generalizing vars with
  | nil => rfl
  | cons m ms ih =>
    rw [List.map_cons, List.mem_cons, not_or] at h
    exact (ih h.2 _).trans ((lookup_setItem _ _ _ _).trans (if_neg h.1))

theorem lookup_writeBack_last {value : Str → Json} {ms ms' : List (Str × Str)} {m : Str × Str}
    (h : m.2 ∉ ms'.map Prod.snd) (vars : Vars) :
    (writeBack value (ms ++ m :: ms') vars).lookup m.2 = some (value m.1) := by
  rw [writeBack, List.foldl_append, List.foldl_cons]
  exact (lookup_writeBack_of_notMem h _).trans ((lookup_setItem _ _ _ _).trans (if_pos rfl))

end Exec

/-! ### Crossings -/

/-- A run of a sub-graph, as its parent sees it. -/
structure Crossing where
  inputs : List (Str × Str)
  outputs : List (Str × Str)
  before : Vars
  sub : AgentContext

namespace Crossing

variable (x : Crossing)

/-- The variables that the sub-run starts with. -/
def staged : Vars := x.inputs.foldl Exec.stage x.before

/-- The value of a variable at the end of the sub-run. -/
def final (name : Str) : Json := Exec.varOrEmpty (x.sub.seeded x.staged) name

def after : Vars := Exec.writeBack (Exec.outputValue x.sub x.staged) x.outputs x.staged

/-- It is the crossing of a trace of a sub-graph that returns these events: the questions are those
of the sub-run. -/
def Of (nested : Nested) (params : Vars) (c : Scope) (s : Run) (t : List (Event Step.Answer))
    (events : List AgentEvent) : Prop :=
  Exec.mapping "input_mapping" params = some x.inputs ∧
    Exec.mapping "output_mapping" params = some x.outputs ∧
    x.before = s.ctx.seeded c.rt.vars ∧
    ∃ g text sub, Exec.subGraphOf c.rt.process.uuid params = .ok g ∧ sub.ctx = x.sub ∧
      (nested (Exec.subRuntime c.rt x.staged) g text { planMode := s.ctx.planMode }
        (some s.ctx.planMode) c.errorStops).Traced t (.ok (), sub) ∧
      events = Exec.relabel ("[sub:" ++ g.name ++ "] ") sub.events

/-- The frame law of a sub-graph, for the variables of the parent at the end. -/
structure Isolated (after : Vars) : Prop where
  /-- No input that is staged changes a variable of the parent. -/
  staging : ∀ inputs, inputs <+: x.inputs → (inputs.foldl Exec.stage x.before).Agrees x.before
  /-- A variable that is the target of no output is as before. -/
  frame : ∀ name, name ∉ x.outputs.map Prod.snd → after.lookup name = x.before.lookup name
  /-- A target has the final value of its source, the last one if it has several. -/
  targets : ∀ ms m ms', x.outputs = ms ++ m :: ms' → m.2 ∉ ms'.map Prod.snd →
    after.lookup m.2 = some (x.final m.1)

structure Careful : Prop where
  /-- An input is staged over a variable that has its value already. -/
  inputs : ∀ m ∈ x.inputs, m.2 ≠ "input" →
    x.before.lookup m.2 = some (Exec.varOrEmpty x.before m.1)
  /-- A source that ends as `""` is `""` for the parent too. -/
  outputs : ∀ ms m ms', x.outputs = ms ++ m :: ms' → m.2 ∉ ms'.map Prod.snd →
    x.final m.1 = .str [] → Exec.varOrEmpty x.before m.1 = .str []

variable {x}

theorem outputValue_eq_final_iff (name : Str) :
    Exec.outputValue x.sub x.staged name = x.final name ↔
      (x.final name = .str [] → Exec.varOrEmpty x.staged name = .str []) := by
  rw [final, Exec.outputValue, AgentContext.seeded]
  cases x.sub.vars with
  | none => exact ⟨fun _ h => h, fun _ => rfl⟩
  | some vars =>
    dsimp only [Option.map_some, Option.getD_some]
    split
    · contradiction
    · rename_i hempty
      rw [Option.some.inj hempty]
      exact ⟨fun h _ => h, fun h => h rfl⟩
    · rename_i value hne hvalue
      obtain rfl := Option.some.inj hvalue
      exact ⟨fun _ h => absurd h hne, fun _ => rfl⟩

theorem stage_agrees {inputs : List (Str × Str)} {before vars : Vars}
    (h : ∀ m ∈ inputs, m.2 ≠ "input" →
      before.lookup m.2 = some (Exec.varOrEmpty before m.1)) (hvars : vars.Agrees before) :
    (inputs.foldl Exec.stage vars).Agrees before := by
  induction inputs generalizing vars with
  | nil => exact hvars
  | cons m ms ih =>
    refine ih (fun m' hm' => h m' (List.mem_cons_of_mem _ hm')) fun name => ?_
    rw [Exec.stage]
    split_ifs with hinput
    · exact hvars name
    · rw [lookup_setItem]
      split_ifs with hname
      · rw [hname, h m List.mem_cons_self hinput, hvars.varOrEmpty]
      · exact hvars name

theorem lookup_of_staging {before : Vars} {inputs : List (Str × Str)}
    (h : ∀ inputs', inputs' <+: inputs → (inputs'.foldl Exec.stage before).Agrees before)
    {m : Str × Str} (hm : m ∈ inputs) (hinput : m.2 ≠ "input") :
    before.lookup m.2 = some (Exec.varOrEmpty before m.1) := by
  obtain ⟨ms, ms', rfl⟩ := List.append_of_mem hm
  have hbefore := h ms (List.prefix_append _ _)
  have hafter := h (ms ++ [m]) ⟨ms', by rw [List.append_assoc, List.singleton_append]⟩ m.2
  rw [List.foldl_append, List.foldl_cons, List.foldl_nil, Exec.stage, if_neg hinput,
    lookup_setItem, if_pos rfl, hbefore.varOrEmpty] at hafter
  exact hafter.symm

theorem isolated_after_iff : x.Isolated x.after ↔ x.Careful := by
  constructor
  · intro h
    refine ⟨fun m hm => lookup_of_staging h.staging hm, fun ms m ms' hsplit hlast hempty => ?_⟩
    have htarget := h.targets ms m ms' hsplit hlast
    rw [after, hsplit, Exec.lookup_writeBack_last hlast] at htarget
    have hstaged := (outputValue_eq_final_iff m.1).mp (Option.some.inj htarget) hempty
    rwa [staged, (h.staging x.inputs (List.prefix_refl _)).varOrEmpty] at hstaged
  · intro h
    have hstaged : x.staged.Agrees x.before := stage_agrees h.inputs fun _ => rfl
    refine ⟨fun inputs hstart => ?_, fun name hname => ?_, fun ms m ms' hsplit hlast => ?_⟩
    · exact stage_agrees (fun m hm => h.inputs m (hstart.subset hm)) fun _ => rfl
    · rw [after, Exec.lookup_writeBack_of_notMem hname]
      exact hstaged name
    · rw [after, hsplit, Exec.lookup_writeBack_last hlast]
      refine congrArg some ((outputValue_eq_final_iff m.1).mpr fun hempty => ?_)
      rw [hstaged.varOrEmpty]
      exact h.outputs ms m ms' hsplit hlast hempty

end Crossing

/-! ### Sub-graphs -/

section

variable {nested : Nested} {params : Vars} {c : Scope} {s s' : Run}
  {t : List (Event Step.Answer)} {events : List AgentEvent}

private theorem events_of_refused {text : Str}
    (h : ((do Exec.emit ⟨.error, text⟩; pure [⟨.error, text⟩] : Exec (List AgentEvent)) c
      s).Traced t (.ok events, s')) : events = [⟨.error, text⟩] := by
  obtain ⟨_, _, ⟨r, s₁⟩, -, -, hend⟩ := Program.traced_bind.mp h
  cases r with
  | error stop => exact absurd (congrArg Prod.fst (Program.traced_ret.mp hend).2) (by simp)
  | ok _ => exact Except.ok.inj (congrArg Prod.fst (Program.traced_ret.mp hend).2)

private theorem crossing_of_entered {g : AgentGraph} {inputs outputs : List (Str × Str)}
    (h : ((do
      let subInput ← Exec.foldl Exec.mapInput [] inputs
      let subVars ← Exec.vars
      let planMode := (← Exec.ctx).planMode
      let sub ← Exec.runNested
        (nested (Exec.subRuntime c.rt subVars) g subInput { planMode } (some planMode)
          (← Exec.scope).errorStops)
      let events := Exec.relabel ("[sub:" ++ g.name ++ "] ") sub.events
      Exec.absorb events
      Exec.each outputs fun m => Exec.setVar m.2 (Exec.outputValue sub.ctx subVars m.1)
      return events : Exec (List AgentEvent)) c s).Traced t (.ok events, s')) :
    ∃ x : Crossing, x.inputs = inputs ∧ x.outputs = outputs ∧ x.before = s.ctx.seeded c.rt.vars ∧
      s'.ctx.seeded c.rt.vars = x.after ∧ ∃ text sub, sub.ctx = x.sub ∧
      (nested (Exec.subRuntime c.rt x.staged) g text { planMode := s.ctx.planMode }
        (some s.ctx.planMode) c.errorStops).Traced t (.ok (), sub) ∧
      events = Exec.relabel ("[sub:" ++ g.name ++ "] ") sub.events := by
  obtain ⟨t₁, t₂, r, rfl, hinputs, henter⟩ := Program.traced_bind.mp h
  obtain ⟨rfl, text, vars, rfl, hvars⟩ := Exec.traced_mapInputs hinputs
  -- the sub-run alone asks anything
  change ((Exec.runNested (nested (Exec.subRuntime c.rt (vars.getD c.rt.vars)) g text
    { planMode := s.ctx.planMode } (some s.ctx.planMode) c.errorStops) >>= fun sub : Run => do
      Exec.absorb (Exec.relabel ("[sub:" ++ g.name ++ "] ") sub.events)
      Exec.each outputs fun m => Exec.setVar m.2 (Exec.outputValue sub.ctx (vars.getD _) m.1)
      pure (Exec.relabel ("[sub:" ++ g.name ++ "] ") sub.events)) c _).Traced _ _
    at henter
  obtain ⟨t₃, t₄, r, rfl, hsub, hleave⟩ := Program.traced_bind.mp henter
  obtain ⟨t₅, t₆, ⟨r', sub⟩, rfl, hnested, hback⟩ := Program.traced_bind.mp hsub
  cases r' with
  | error stop =>
    obtain ⟨rfl, rfl⟩ := Program.traced_ret.mp hback
    exact absurd (congrArg Prod.fst (Program.traced_ret.mp hleave).2) (by simp)
  | ok _ =>
    obtain ⟨rfl, rfl⟩ := Program.traced_ret.mp hback
    change (((Exec.each outputs fun m =>
      Exec.setVar m.2 (Exec.outputValue sub.ctx (vars.getD _) m.1)) >>= fun _ => pure _) c _).Traced
      _ _ at hleave
    obtain ⟨t₇, t₈, ⟨r, s₁⟩, rfl, houtputs, hend⟩ := Program.traced_bind.mp hleave
    obtain ⟨rfl, hok, hset⟩ := Exec.traced_setVars houtputs
    dsimp only at hok hset
    subst hok
    obtain ⟨rfl, hreturn⟩ := Program.traced_ret.mp hend
    obtain ⟨hevents, rfl⟩ := Prod.mk.inj hreturn
    have hstaged : (⟨inputs, outputs, s.ctx.seeded c.rt.vars, sub.ctx⟩ : Crossing).staged =
        vars.getD c.rt.vars := hvars.symm
    refine ⟨⟨inputs, outputs, s.ctx.seeded c.rt.vars, sub.ctx⟩, rfl, rfl, rfl, ?_, text, sub, rfl,
      ?_, Except.ok.inj hevents⟩
    · rw [hset, Crossing.after, hstaged]
      rfl
    · rw [hstaged]
      simpa only [List.nil_append, List.append_nil] using hnested

theorem crossing_of_traced
    (h : (Exec.executeSubGraph nested params c s).Traced t (.ok events, s'))
    (herror : ∀ e ∈ events, e.type ≠ .error) :
    ∃ x : Crossing, x.Of nested params c s t events ∧ s'.ctx.seeded c.rt.vars = x.after := by
  have hallowed : ∀ text, events ≠ [⟨.error, text⟩] := by
    intro text htext
    exact herror ⟨.error, text⟩ (htext ▸ List.mem_cons_self) rfl
  change ((if _ then _ else _ : Exec _) c s).Traced t _ at h
  split_ifs at h with hdepth
  · exact absurd (events_of_refused h) (hallowed _)
  · cases hgraph : Exec.subGraphOf c.rt.process.uuid params with
    | error text =>
      rw [hgraph] at h
      exact absurd (events_of_refused h) (hallowed _)
    | ok g =>
      rw [hgraph] at h
      cases hinputs : Exec.mapping "input_mapping" params with
      | none =>
        rw [hinputs] at h
        exact absurd (congrArg Prod.fst (Program.traced_ret.mp h).2) (by simp)
      | some inputs =>
        cases houtputs : Exec.mapping "output_mapping" params with
        | none =>
          rw [hinputs, houtputs] at h
          exact absurd (congrArg Prod.fst (Program.traced_ret.mp h).2) (by simp)
        | some outputs =>
          rw [hinputs, houtputs] at h
          obtain ⟨x, rfl, rfl, hbefore, hafter, text, sub, hsub⟩ := crossing_of_entered h
          exact ⟨x, ⟨hinputs, houtputs, hbefore, g, text, sub, hgraph, hsub⟩, hafter⟩

/-- **A sub-graph that returns without an `ERROR` event keeps to the frame law if and only if its
mappings do.** -/
theorem crossing_isolated_iff
    (h : (Exec.executeSubGraph nested params c s).Traced t (.ok events, s'))
    (herror : ∀ e ∈ events, e.type ≠ .error) :
    ∃ x : Crossing, x.Of nested params c s t events ∧
      (x.Isolated (s'.ctx.seeded c.rt.vars) ↔ x.Careful) := by
  obtain ⟨x, hx, hafter⟩ := crossing_of_traced h herror
  exact ⟨x, hx, hafter ▸ x.isolated_after_iff⟩

end

/-- The parameters of a sub-graph without steps, with two mappings. -/
def exchange (inputs outputs : List (Str × Str)) : Vars :=
  [("graph_json", .str loneStart.toJson),
    ("input_mapping", .obj (inputs.map fun m => (m.1, .str m.2))),
    ("output_mapping", .obj (outputs.map fun m => (m.1, .str m.2)))]

def twoVars : Run where
  ctx := { vars := some [("a", .str "1"), ("b", .str "2")] }

def exchangeScope : Scope := { rt := { process := plainProcess } }

def exchangeRun (inputs outputs : List (Str × Str)) :
    List (Event Step.Answer) × Except Stop (List AgentEvent) × Run :=
  (Exec.executeSubGraph (nestedAt 8 loneStart) (exchange inputs outputs) exchangeScope twoVars).run
    (fun q _ => (q.call.oblige {}, ())) ()

theorem traced_exchangeRun {inputs outputs : List (Str × Str)} {events : List AgentEvent}
    (h : (exchangeRun inputs outputs).2.1 = .ok events) :
    (Exec.executeSubGraph (nestedAt 8 loneStart) (exchange inputs outputs) exchangeScope
      twoVars).Traced (exchangeRun inputs outputs).1
      (.ok events, (exchangeRun inputs outputs).2.2) := by
  rw [exchangeRun] at h ⊢
  -- the run is not to be computed here
  generalize Exec.executeSubGraph (nestedAt 8 loneStart) (exchange inputs outputs) exchangeScope
    twoVars = program at h ⊢
  exact Program.traced_of_run h

def exchanged : AgentEvent := ⟨.start, "[sub:] Starting: "⟩

/-- A variable is handed in as the input, and another one comes back. -/
theorem crossing_isolated_handedIn :
    let r := exchangeRun [("a".toList, "input".toList)] [("b".toList, "c".toList)]
    ∃ x : Crossing, x.Of (nestedAt 8 loneStart) (exchange [("a".toList, "input".toList)]
        [("b".toList, "c".toList)]) exchangeScope twoVars r.1 [exchanged] ∧
      (x.Isolated (r.2.2.ctx.seeded []) ↔ x.Careful) := by
  have hrun : (exchangeRun [("a", "input")] [("b", "c")]).2.1 =
      .ok [exchanged] := by decide +kernel
  exact crossing_isolated_iff (traced_exchangeRun hrun) (by decide)

/-- An input that is staged under the name of another variable overwrites it. -/
theorem not_crossing_isolated : ¬ ∀ (nested : Nested) (params : Vars) (c : Scope) (s s' : Run)
    (t : List (Event Step.Answer)) (events : List AgentEvent),
    (Exec.executeSubGraph nested params c s).Traced t (.ok events, s') →
    (∀ e ∈ events, e.type ≠ .error) →
    ∃ x : Crossing, x.Of nested params c s t events ∧ x.Isolated (s'.ctx.seeded c.rt.vars) := by
  intro h
  have hrun : (exchangeRun [("a".toList, "b".toList)] []).2.1 = .ok [exchanged] := by
    decide +kernel
  obtain ⟨x, ⟨hinputs, -, hbefore, -⟩, hisolated⟩ := h _ _ _ _ _ _ _
    (traced_exchangeRun hrun) (by decide)
  have hagrees := hisolated.staging x.inputs (List.prefix_refl _) "b".toList
  have hoverwritten : (([("a".toList, "b".toList)].foldl Exec.stage
      (twoVars.ctx.seeded [])).lookup "b".toList) = some (.str "1".toList) := rfl
  have hmapped : Exec.mapping "input_mapping" (exchange [("a".toList, "b".toList)] []) =
    some [("a".toList, "b".toList)] := rfl
  rw [← Option.some.inj (hmapped.symm.trans hinputs), hbefore] at hagrees
  have hbefore' : (twoVars.ctx.seeded exchangeScope.rt.vars).lookup "b".toList =
      some (.str "2".toList) := rfl
  simpa using (hoverwritten.symm.trans hagrees).trans hbefore'

end AgentStudio.Execution

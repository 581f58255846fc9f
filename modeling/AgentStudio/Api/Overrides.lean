import AgentStudio.Api.SubmitRun

/-!
# Overrides of a run

A run that a request starts should have only tools that the target agent is allowed, and the
overrides of the request should take effect and narrow the run (`SubRun.Within`).

Three things stand in the way. The intersection with the tools of the agent is left out where the
look at the agent finds none, be it that the agent has none, is not known or cannot be read. A
constraint in `agent_overrides` gives way to one under the same key in `spec` or in the body
(`RunRequest.Shadows`). And a run that goes to another node or to a graph gets no overrides.
`Careful` is the condition that the request and the daemon have to meet, and `overrides_lawful_iff`
shows that it is exact.
-/

namespace AgentStudio.Api

open PyText PyJson PyDict

variable {d : Daemon} {a : Answers} {r : RunRequest} {spec : SubAgentSpec} {run : SubRun} {t : Str}

/-! ### What a request asks for -/

/-- The members of `spec`. -/
def RunRequest.specMembers (r : RunRequest) : Members := (decodeObj r.spec).getD []

/-- The members of `agent_overrides`. -/
def RunRequest.overrides (r : RunRequest) : Members := (decodeObj r.agentOverrides).getD []

/-- What the request has under a key outside `agent_overrides`. -/
def RunRequest.outside (r : RunRequest) (key : String) : Option Json :=
  (r.specMembers.lookup key.toList).or (r.bodyKeys.lookup key.toList)

/-- `spec` or the body has the key, so that `agent_overrides` does not count. -/
def RunRequest.Shadows (r : RunRequest) (key : String) : Prop := (r.outside key).isSome = true

/-- What the request has under a key: `spec` comes first, then the body, then `agent_overrides`. -/
def RunRequest.value (r : RunRequest) (key : String) : Option Json :=
  (r.outside key).or (r.overrides.lookup key.toList)

def RunRequest.listAt (r : RunRequest) (key : String) : List Json :=
  (listOf ((r.value key).getD .null)).getD []

def RunRequest.intAt (r : RunRequest) (key : String) (default : ℤ) : ℤ :=
  ((r.value key).bind pyInt).getD default

/-- `agent_overrides` has a constraint. -/
def RunRequest.Constrained (r : RunRequest) : Prop :=
  ∃ key ∈ ["tools", "disallowed_tools", "max_turns", "budget_tokens"],
    (r.overrides.lookup key.toList).isSome = true

def Daemon.names (d : Daemon) (manifest : AgentManifest) : List Str :=
  manifest.tools.filterMap fun entry => (d.entryName entry).bind decodeStr

/-- The agent is allowed the tool. An agent that is not known is allowed none. -/
def Daemon.Allowed (d : Daemon) (agentId tool : Str) : Prop :=
  ∃ manifest, d.agents agentId = some manifest ∧ tool ∈ d.names manifest

/-- The cap on the turns of an agent that runs without overrides. -/
def AgentManifest.turnLimit (m : AgentManifest) : ℤ :=
  max 1 (if 0 < m.maxIterations then m.maxIterations else 8)

/-! ### The law -/

/-- A run is within what the target agent is allowed and what the overrides say. -/
structure SubRun.Within (run : SubRun) (d : Daemon) (r : RunRequest) : Prop where
  own : r.agentId ≠ [] → ∀ t ∈ run.tools, d.Allowed r.agentId t
  limit : r.agentId ≠ [] → ∀ manifest, d.agents r.agentId = some manifest →
    run.maxTurns ≤ manifest.turnLimit
  tools : ∀ ts, r.overrides.lookup "tools".toList = some (.arr ts) → ∀ t ∈ run.tools, .str t ∈ ts
  disallowed : ∀ ps, r.overrides.lookup "disallowed_tools".toList = some (.arr ps) →
    ∀ t ∈ run.tools, ∀ tool, d.tools.find? (·.name = t) = some tool →
      tool.deniedByPatterns ps = some false
  turns : ∀ n, (r.overrides.lookup "max_turns".toList).bind pyInt = some n → run.maxTurns ≤ n
  budget : ∀ n, (r.overrides.lookup "budget_tokens".toList).bind pyInt = some n → 0 < n →
    ∃ b ≤ n, run.budget = some b

/-- Every run that a request starts is within what the agent and the overrides allow; one that goes
elsewhere has no overrides to obey. -/
def Lawful (d : Daemon) (a : Answers) (r : RunRequest) : Prop :=
  match d.submitRun a r with
  | .ok (.subagent spec) => ∀ run, d.run spec = some run → run.Within d r
  | .ok .queued => ∀ manifest spec run, d.agents r.agentId = some manifest →
      SubAgentSpec.fromDict (specForAgent r.agentId manifest) = some spec →
      d.run spec = some run → run.Within d r
  | .ok (.delegated _) => ¬ r.Constrained
  | .ok .graph => ¬ r.Constrained
  | .ok .nothing => True
  | .error _ => True

/-! ### The condition -/

/-- A tool of the parent gets into a registry by a list of tools, patterns and servers. -/
def Registrable (parent : List Tool) (patterns servers : List Json) (t : Str) : Prop :=
  t ∉ controlFlowToolNames ∧ ∃ tool, parent.find? (·.name = t) = some tool ∧
    tool.deniedByPatterns patterns = some false ∧ tool.serverAllowed servers = true

/-- The request asks for a tool, and neither the intersection with tools that the agent is found to
have nor the patterns and servers of the request keep it out. -/
def Daemon.Reaches (d : Daemon) (r : RunRequest) (t : Str) : Prop :=
  .str t ∈ r.listAt "tools" ∧
    (r.agentId ≠ [] → d.ownTools r.agentId ≠ [] → .str t ∈ d.ownTools r.agentId) ∧
    Registrable d.tools (r.listAt "disallowed_tools") (r.listAt "mcp_servers") t

/-- The tools that the request can reach are those of the agent, and its turns are no more than
those of the agent; where another value shadows a constraint, it is at least as strict. -/
structure Strict (d : Daemon) (r : RunRequest) : Prop where
  own : r.agentId ≠ [] → d.ownTools r.agentId = [] → ∀ t, d.Reaches r t → d.Allowed r.agentId t
  limit : r.agentId ≠ [] → ∀ manifest, d.agents r.agentId = some manifest →
    r.intAt "max_turns" 8 ≤ manifest.turnLimit
  tools : r.Shadows "tools" → ∀ ts, r.overrides.lookup "tools".toList = some (.arr ts) →
    ∀ t, d.Reaches r t → .str t ∈ ts
  disallowed : r.Shadows "disallowed_tools" →
    ∀ ps, r.overrides.lookup "disallowed_tools".toList = some (.arr ps) →
      ∀ t, d.Reaches r t → ∀ tool, d.tools.find? (·.name = t) = some tool →
        tool.deniedByPatterns ps = some false
  turns : r.Shadows "max_turns" →
    ∀ n, (r.overrides.lookup "max_turns".toList).bind pyInt = some n → r.intAt "max_turns" 8 ≤ n
  budget : r.Shadows "budget_tokens" →
    ∀ n, (r.overrides.lookup "budget_tokens".toList).bind pyInt = some n → 0 < n →
      0 < r.intAt "budget_tokens" 0 ∧ r.intAt "budget_tokens" 0 ≤ n

/-- The run goes to a node of the cluster, or to a graph instead of a subagent. -/
def Elsewhere (a : Answers) (r : RunRequest) : Prop :=
  (parseSandbox r.sandbox ≠ .ok none ∧ a.runId ≠ []) ∨
    (r.graphId ≠ [] ∧ (a.runId = [] ∨ a.deduped = true))

/-- A request that is accepted and goes elsewhere has no constraints, and one that starts a run of a
subagent is strict. -/
structure Careful (d : Daemon) (a : Answers) (r : RunRequest) : Prop where
  elsewhere : ∀ dispatch, d.submitRun a r = .ok dispatch → Elsewhere a r → ¬ r.Constrained
  strict : ∀ spec run, d.submitRun a r = .ok (.subagent spec) → d.run spec = some run → Strict d r

/-! ### The registry -/

theorem name_of_find {parent : List Tool} {name : Str} {tool : Tool}
    (h : parent.find? (·.name = name) = some tool) : tool.name = name := by
  simpa using List.find?_some h

theorem verdict_eq_registered_iff {parent : List Tool} {value : Json} {v : Verdict}
    (h : spec.verdict parent value = some v) : v = .registered t ↔
      value = .str t ∧ Registrable parent spec.disallowedTools spec.mcpServers t := by
  cases value with
  | str name =>
    rw [SubAgentSpec.verdict] at h
    split_ifs at h with hcontrol
    · obtain rfl := Option.some.inj h
      simp only [reduceCtorEq, Json.str.injEq, false_iff, not_and]
      rintro rfl hreg
      exact hreg.1 hcontrol
    · split at h
      next hnone =>
        obtain rfl := Option.some.inj h
        simp only [reduceCtorEq, Json.str.injEq, false_iff, not_and]
        rintro rfl ⟨-, tool, htool, -⟩
        exact absurd (hnone.symm.trans htool) (by simp)
      next tool htool =>
        obtain ⟨denied, hdenied, h⟩ := Option.bind_eq_some_iff.mp h
        have hname : tool.name = name := name_of_find htool
        have hreg : Registrable parent spec.disallowedTools spec.mcpServers name ↔
            denied = false ∧ tool.serverAllowed spec.mcpServers = true := by
          constructor
          · rintro ⟨-, tool', htool', hdenied', hserver⟩
            obtain rfl := Option.some.inj (htool.symm.trans htool')
            exact ⟨Option.some.inj (hdenied.symm.trans hdenied'), hserver⟩
          · rintro ⟨rfl, hserver⟩
            exact ⟨hcontrol, tool, htool, hdenied, hserver⟩
        split_ifs at h with hden hserver <;> obtain rfl := Option.some.inj h
        · simp only [reduceCtorEq, Json.str.injEq, false_iff, not_and]
          rintro rfl hr
          simp [hden] at hreg
          exact hreg hr
        · simp only [Verdict.registered.injEq, hname, Json.str.injEq]
          constructor
          · rintro rfl
            exact ⟨rfl, hreg.mpr ⟨by simpa using hden, hserver⟩⟩
          · exact fun hr => hr.1
        · simp only [reduceCtorEq, Json.str.injEq, false_iff, not_and]
          rintro rfl hr
          exact hserver (hreg.mp hr).2
  | _ =>
    simp only [SubAgentSpec.verdict] at h
    split_ifs at h
    obtain rfl := Option.some.inj h
    simp

theorem mem_buildRegistry {parent : List Tool} {values missing : List Json} {names : List Str}
    (h : buildRegistry parent spec values = some (names, missing)) :
    t ∈ names ↔ .str t ∈ values ∧
      Registrable parent spec.disallowedTools spec.mcpServers t := by
  induction values generalizing names missing with
  | nil =>
    cases h
    simp
  | cons value values ih =>
    obtain ⟨v, hv, h⟩ := Option.bind_eq_some_iff.mp h
    obtain ⟨⟨names', missing'⟩, hrest, h⟩ := Option.bind_eq_some_iff.mp h
    have hverdict := verdict_eq_registered_iff (t := t) hv
    have hmem : t ∈ names ↔ v = .registered t ∨ t ∈ names' := by
      cases v with
      | skipped | missing => cases h; simp
      | registered name => cases h; simp [eq_comm]
    rw [hmem, hverdict, ih hrest, List.mem_cons, eq_comm (a := value)]
    exact or_and_right.symm

theorem run_spec (h : d.run spec = some run) :
    (∀ t, t ∈ run.tools ↔
      .str t ∈ spec.tools ∧ Registrable d.tools spec.disallowedTools spec.mcpServers t) ∧
    run.maxTurns = max 1 spec.maxTurns ∧
    run.budget = if 0 < spec.budgetTokens then some spec.budgetTokens else none := by
  obtain ⟨⟨names, missing⟩, hreg, h⟩ := Option.bind_eq_some_iff.mp h
  simp only [Option.ite_none_left_eq_some, Option.some.injEq] at h
  obtain ⟨-, rfl⟩ := h
  exact ⟨fun t => mem_buildRegistry hreg, rfl, rfl⟩

/-! ### The merged specification -/

@[simp] theorem lookup_setDefault (m : Members) (key k : Str) (value : Json) :
    (setDefault m key value).lookup k =
      (m.lookup k).or (if k = key then some value else none) := by
  unfold setDefault
  split_ifs with hsome hk hk
  · subst hk
    exact (Option.or_of_isSome hsome).symm
  · exact (Option.or_none).symm
  · subst hk
    rw [List.lookup_append]
    simp
  · rw [List.lookup_append]
    simp [List.lookup_cons, beq_false_of_ne hk]

@[simp] theorem lookup_setDefaults (m new : Members) (k : Str) :
    (setDefaults m new).lookup k = (m.lookup k).or (new.lookup k) := by
  induction new generalizing m with
  | nil => exact Option.or_none.symm
  | cons x new ih =>
    obtain ⟨key, value⟩ := x
    have hrest : (setDefaults m ((key, value) :: new)) = setDefaults (setDefault m key value) new :=
      rfl
    rw [hrest, ih, lookup_setDefault, Option.or_assoc, List.lookup_cons]
    by_cases hk : k = key <;> simp [hk, beq_false_of_ne]

theorem intJson_idem {value value' : Json} (h : intJson value = some value') :
    intJson value' = some value' := by
  obtain ⟨n, -, rfl⟩ := Option.map_eq_some_iff.mp h
  simp [intJson]

variable {m c n : Members} {key : String} {agentId : Str} {sandbox : Option Str}

theorem lookup_intValues {m' : Members} (h : intValues m = some m') (k : Str) :
    m'.lookup k = if k ∈ intKeys then (m.lookup k).bind intJson else m.lookup k := by
  induction m generalizing m' with
  | nil =>
    cases h
    simp
  | cons x m ih =>
    obtain ⟨key, value⟩ := x
    obtain ⟨value', hvalue, h⟩ := Option.bind_eq_some_iff.mp h
    obtain ⟨m'', hm, rfl⟩ := Option.map_eq_some_iff.mp h
    rw [List.lookup_cons, List.lookup_cons]
    by_cases hk : k = key
    · subst hk
      simp only [beq_self_eq_true]
      split_ifs at hvalue ⊢ with hint
      · exact hvalue.symm
      · exact hvalue.symm
    · simp only [beq_false_of_ne hk]
      exact ih hm

theorem intJson_isSome {m' : Members} (h : intValues m = some m') {k : Str} (hk : k ∈ intKeys)
    {value : Json} (hvalue : m.lookup k = some value) : (intJson value).isSome = true := by
  induction m generalizing m' with
  | nil => cases hvalue
  | cons x m ih =>
    obtain ⟨key, v⟩ := x
    obtain ⟨value', hv, h⟩ := Option.bind_eq_some_iff.mp h
    obtain ⟨m'', hm, -⟩ := Option.map_eq_some_iff.mp h
    rw [List.lookup_cons] at hvalue
    by_cases hkey : k = key
    · subst hkey
      simp only [beq_self_eq_true, Option.some.injEq] at hvalue
      subst hvalue
      rw [if_pos hk] at hv
      exact Option.isSome_iff_exists.mpr ⟨value', hv⟩
    · simp only [beq_false_of_ne hkey] at hvalue
      exact ih hm hvalue

/-! ### An accepted specification -/

theorem mergeSpec_ok (h : mergeSpec r = .ok m) : ∃ o,
    intValues r.overrides = some o ∧
      ∀ key : String, m.lookup key.toList = (r.outside key).or (o.lookup key.toList) := by
  obtain ⟨s, hs, h⟩ := bind_eq_ok h
  obtain ⟨o, ho, h⟩ := bind_eq_ok h
  have hm : m = setDefaults (setDefaults s r.bodyKeys) o := (Except.ok.inj h).symm
  have hspec : r.specMembers = s := by
    unfold RunRequest.specObject at hs
    unfold RunRequest.specMembers
    split at hs <;> simp_all [decodeObj]
  refine ⟨o, ?_, fun key => ?_⟩
  · unfold RunRequest.overridesObject at ho
    unfold RunRequest.overrides
    split at ho
    next hnull =>
      cases ho
      simp [hnull, decodeObj, intValues]
    next o' hobj =>
      unfold checkOverrides at ho
      split_ifs at ho
      split at ho
      · cases ho
      next o'' hint =>
        cases ho
        simpa [hobj, decodeObj] using hint
    · cases ho
  · rw [hm, lookup_setDefaults, lookup_setDefaults, RunRequest.outside, hspec]

theorem checkSpec_ok (h : checkSpec m = .ok c) :
    (∀ key, key ∉ specAllowedKeys → m.lookup key = none) ∧ notList m "tools" = false ∧
      intValues m = some c ∧ (∀ n, numberAt c "max_turns" = some n → 0 < n) := by
  unfold checkSpec at h
  split_ifs at h with hunknown htools _
  split at h
  · cases h
  next c' hint =>
    split_ifs at h with hturns hbudget
    cases h
    refine ⟨fun key hkey => lookup_eq_none fun hmem => ?_, by simpa using htools, hint,
      fun n hn => ?_⟩
    · have hempty : unknownKeys specAllowedKeys m = [] := not_not.mp hunknown
      have hin : key ∈ unknownKeys specAllowedKeys m :=
        List.mem_filter.mpr ⟨hmem, decide_eq_true hkey⟩
      rw [hempty] at hin
      exact absurd hin List.not_mem_nil
    · rw [hn] at hturns
      simpa using hturns

/-- What the members of a specification that is accepted have to do with the request. -/
structure Accepted (r : RunRequest) (c : Members) : Prop where
  unknown : ∀ key, key ∉ specAllowedKeys → c.lookup key = none
  other : ∀ key : String, key.toList ∉ intKeys → c.lookup key.toList = r.value key
  int : ∀ key : String, key.toList ∈ intKeys → c.lookup key.toList = (r.value key).bind intJson
  list : notList c "tools" = false
  turns : ∀ n, numberAt c "max_turns" = some n → 0 < n

theorem accepted_of_ok (hm : mergeSpec r = .ok m) (hc : checkSpec m = .ok c) : Accepted r c := by
  obtain ⟨o, ho, hmerged⟩ := mergeSpec_ok hm
  obtain ⟨hunknown, hlist, hint, hturns⟩ := checkSpec_ok hc
  refine ⟨fun key hkey => ?_, fun key hkey => ?_, fun key hkey => ?_, ?_, hturns⟩
  · rw [lookup_intValues hint, hunknown key hkey]
    split_ifs <;> rfl
  · rw [lookup_intValues hint, if_neg hkey, hmerged, lookup_intValues ho, if_neg hkey,
      RunRequest.value]
  · rw [lookup_intValues hint, if_pos hkey, hmerged, lookup_intValues ho, if_pos hkey,
      RunRequest.value]
    cases r.outside key with
    | some value => rfl
    | none =>
      rw [Option.none_or, Option.none_or]
      cases r.overrides.lookup key.toList with
      | none => rfl
      | some value =>
        change (intJson value).bind intJson = intJson value
        cases hvalue : intJson value with
        | none => rfl
        | some value' => exact intJson_idem hvalue
  · have htools : c.lookup "tools".toList = m.lookup "tools".toList := by
      rw [lookup_intValues hint, if_neg (by decide)]
    rwa [notList, htools]

theorem Accepted.pyInt_getD (hc : Accepted r c) (hkey : key.toList ∈ intKeys) {n m : ℤ}
    (h : pyInt (getD c key (.num (Number.ofInt n))) = some m) : m = r.intAt key n := by
  unfold getD at h
  rw [hc.int key hkey] at h
  unfold RunRequest.intAt
  cases hv : r.value key with
  | none =>
    rw [hv] at h
    simpa using h.symm
  | some value =>
    rw [hv] at h
    change pyInt ((intJson value).getD _) = some m at h
    change m = (pyInt value).getD n
    cases hvalue : pyInt value with
    | none | some => simpa [intJson, hvalue] using h.symm

theorem Accepted.turns_pos (hc : Accepted r c) : 0 < r.intAt "max_turns" 8 := by
  have hlookup := hc.int "max_turns" (by decide)
  unfold RunRequest.intAt
  cases hv : r.value "max_turns" with
  | none => exact (by decide : (0 : ℤ) < 8)
  | some value =>
    cases hn : pyInt value with
    | none => simp [hn]
    | some n =>
      have hnumber : numberAt c "max_turns" = some n := by
        rw [numberAt, hlookup, hv]
        simp [intJson, hn, decodeInt, Number.ofInt]
      simpa [hn] using hc.turns n hnumber

theorem listOf_arr (items : List Json) : listOf (.arr items) = some items := by
  cases items <;> rfl

theorem Accepted.listOf_getD (hc : Accepted r c) (hkey : key.toList ∉ intKeys) {items : List Json}
    (h : listOf (getD c key .null) = some items) : items = r.listAt key := by
  unfold getD at h
  rw [hc.other key hkey] at h
  rw [RunRequest.listAt, h, Option.getD_some]

/-! ### The intersection -/

theorem pyEq_str {s : Str} {v : Json} : pyEq (.str s) v = true ↔ v = .str s := by
  cases v <;> simp [pyEq, eq_comm]

/-- Narrowing changes the tools only, and drops those that the agent is found not to have. -/
structure Narrowed (d : Daemon) (agentId : Str) (c n : Members) : Prop where
  other : ∀ key, key ≠ "tools".toList → n.lookup key = c.lookup key
  tools : d.available ≠ [] → ∀ items, listOf (getD n "tools" .null) = some items →
    ∃ asked, listOf (getD c "tools" .null) = some asked ∧
      ∀ t, .str t ∈ items ↔ .str t ∈ asked ∧
        (agentId ≠ [] → d.ownTools agentId ≠ [] → .str t ∈ d.ownTools agentId)

/-- Nothing needs to be dropped where there are no tools, no agent, or none of its tools are found.
-/
theorem Narrowed.refl
    (h : ∀ asked, listOf (getD c "tools" .null) = some asked →
      asked = [] ∨ d.available = [] ∨ agentId = [] ∨ d.ownTools agentId = []) :
    Narrowed d agentId c c := by
  refine ⟨fun key _ => rfl, fun havail items hitems => ⟨items, hitems, fun t => ?_⟩⟩
  rcases h items hitems with rfl | hnone | hnone | hnone
  · simp
  · exact absurd hnone havail
  · simp [hnone]
  · simp [hnone]

theorem narrowTools_ok (hlist : notList c "tools" = false) (h : d.narrowTools agentId c = .ok n) :
    Narrowed d agentId c n := by
  unfold Daemon.narrowTools at h
  split at h
  next tools htools =>
    have hasked : listOf (getD c "tools" .null) = some tools := by
      rw [getD, htools]
      exact listOf_arr tools
    dsimp only at h
    split_ifs at h with hskip hunknown hagent hhash
    · obtain rfl := Except.ok.inj h
      refine Narrowed.refl fun asked ha => ?_
      obtain rfl := Option.some.inj (hasked.symm.trans ha)
      rcases hskip with hempty | hempty
      · exact Or.inl (List.isEmpty_iff.mp hempty)
      · exact Or.inr (Or.inl hempty)
    · obtain rfl := Except.ok.inj h
      refine Narrowed.refl fun asked ha => Or.inr (Or.inr ?_)
      exact hagent.imp_right List.isEmpty_iff.mp
    · have hn := (Except.ok.inj h).symm
      refine ⟨fun key hkey => ?_, fun havail items hitems => ⟨tools, hasked, fun t => ?_⟩⟩
      · rw [hn, lookup_setItem, if_neg hkey]
      · have hkept : listOf (getD n "tools" .null) =
            some (tools.filter fun t => (d.ownTools agentId).any (pyEq t)) := by
          rw [getD, hn, lookup_setItem, if_pos rfl]
          exact listOf_arr _
        obtain rfl := Option.some.inj (hkept.symm.trans hitems)
        have hown : (d.ownTools agentId).any (pyEq (.str t)) = true ↔
            .str t ∈ d.ownTools agentId := by
          simp [List.any_eq_true, pyEq_str]
        rw [List.mem_filter, hown]
        simp only [not_or, List.isEmpty_iff] at hagent
        simp [hagent]
  next hno =>
    obtain rfl := Except.ok.inj h
    refine Narrowed.refl fun asked ha => Or.inl ?_
    unfold notList at hlist
    split at hlist
    next hnone =>
      rw [getD, hnone] at ha
      exact (Option.some.inj ha).symm
    next items hitems => exact absurd hitems (hno items)
    · cases hlist

/-! ### The run of a request -/

theorem submitRun_ok {dispatch : Dispatch} (h : d.submitRun a r = .ok dispatch) :
    ∃ m c n sandbox, mergeSpec r = .ok m ∧ checkSpec m = .ok c ∧
      d.narrowTools r.agentId c = .ok n ∧ parseSandbox r.sandbox = .ok sandbox ∧
      d.dispatch a r n sandbox = .ok dispatch := by
  unfold Daemon.submitRun at h
  split_ifs at h
  obtain ⟨m, hm, h⟩ := bind_eq_ok h
  obtain ⟨c, hc, h⟩ := bind_eq_ok h
  obtain ⟨n, hn, h⟩ := bind_eq_ok h
  obtain ⟨sandbox, hsandbox, h⟩ := bind_eq_ok h
  exact ⟨m, c, n, sandbox, hm, hc, hn, hsandbox, h⟩

theorem dispatch_eq_subagent (h : d.dispatch a r n sandbox = .ok (.subagent spec)) :
    d.runTask r a.runId n = .ok (.subagent spec) := by
  unfold Daemon.dispatch at h
  split at h
  · split_ifs at h <;> first | exact h | cases h
  · split_ifs at h
    · split at h <;> cases h
    all_goals cases h

theorem runTask_ok {runId : Str} (h : d.runTask r runId n = .ok (.subagent spec)) :
    d.hasRuntime = true ∧
      ∃ data, SubAgentSpec.fromDict data = some spec ∧
        ∀ key, key ≠ "name".toList → key ≠ "task".toList → data.lookup key = n.lookup key := by
  unfold Daemon.runTask at h
  split_ifs at h with hruntime
  all_goals
    refine ⟨by simpa using hruntime, ?_⟩
    dsimp only at h
    split at h
    · cases h
    next spec' hspec =>
      cases h
      refine ⟨_, hspec, fun key hname htask => ?_⟩
      rw [lookup_setItem, if_neg htask, lookup_setDefault, if_neg hname, Option.or_none]

theorem fromDict_ok {data : Members} (h : SubAgentSpec.fromDict data = some spec) :
    listOf (getD data "tools" .null) = some spec.tools ∧
      pyInt (getD data "max_turns" (.num 8)) = some spec.maxTurns ∧
      pyInt (getD data "budget_tokens" (.num 0)) = some spec.budgetTokens ∧
      listOf (getD data "disallowed_tools" (getD data "disallowedTools" .null)) =
        some spec.disallowedTools ∧
      listOf (getD data "mcp_servers" (getD data "mcpServers" .null)) = some spec.mcpServers := by
  obtain ⟨tools, htools, h⟩ := Option.bind_eq_some_iff.mp h
  obtain ⟨turns, hturns, h⟩ := Option.bind_eq_some_iff.mp h
  obtain ⟨budget, hbudget, h⟩ := Option.bind_eq_some_iff.mp h
  obtain ⟨disallowed, hdisallowed, h⟩ := Option.bind_eq_some_iff.mp h
  obtain ⟨servers, hservers, h⟩ := Option.bind_eq_some_iff.mp h
  obtain ⟨-, -, h⟩ := Option.bind_eq_some_iff.mp h
  obtain rfl := Option.some.inj h
  exact ⟨htools, hturns, hbudget, hdisallowed, hservers⟩

theorem getD_congr {m' : Members} (h : m.lookup key.toList = m'.lookup key.toList)
    (default : Json) :
    getD m key default = getD m' key default := by
  rw [getD, getD, h]

theorem run_of_submitRun (h : d.submitRun a r = .ok (.subagent spec))
    (hrun : d.run spec = some run) :
    (∀ t, t ∈ run.tools ↔ d.Reaches r t) ∧ run.maxTurns = r.intAt "max_turns" 8 ∧
      run.budget =
        if 0 < r.intAt "budget_tokens" 0 then some (r.intAt "budget_tokens" 0) else none := by
  obtain ⟨m, c, n, sandbox, hm, hc, hn, -, hdispatch⟩ := submitRun_ok h
  obtain ⟨hruntime, data, hdata, hlookup⟩ := runTask_ok (dispatch_eq_subagent hdispatch)
  obtain ⟨htools, hturns, hbudget⟩ := run_spec hrun
  have haccepted := accepted_of_ok hm hc
  have hnarrowed := narrowTools_ok haccepted.list hn
  obtain ⟨hlist, hmax, htokens, hdis, hservers⟩ := fromDict_ok hdata
  have hsame : ∀ {key : String} (default : Json), key.toList ≠ "tools".toList →
      key.toList ≠ "name".toList → key.toList ≠ "task".toList →
      getD data key default = getD c key default := fun default htool hname htask =>
    getD_congr ((hlookup _ hname htask).trans (hnarrowed.other _ htool)) default
  have hnone : ∀ {key : String}, key.toList ∉ specAllowedKeys → getD c key .null = .null := by
    intro key hkey
    rw [getD, haccepted.unknown _ hkey, Option.getD_none]
  rw [hsame _ (by decide) (by decide) (by decide)] at hmax htokens hdis hservers
  rw [hsame _ (by decide) (by decide) (by decide), hnone (by decide)] at hdis hservers
  rw [getD_congr (hlookup _ (by decide) (by decide))] at hlist
  have hmax : spec.maxTurns = r.intAt "max_turns" 8 := haccepted.pyInt_getD (by decide) hmax
  have htokens : spec.budgetTokens = r.intAt "budget_tokens" 0 :=
    haccepted.pyInt_getD (by decide) htokens
  have hdis := haccepted.listOf_getD (by decide) hdis
  have hservers := haccepted.listOf_getD (by decide) hservers
  have hpos : 1 ≤ r.intAt "max_turns" 8 := haccepted.turns_pos
  refine ⟨fun t => ?_, by rw [hturns, hmax, max_eq_right hpos], by rw [hbudget, htokens]⟩
  rw [htools, Daemon.Reaches, ← hdis, ← hservers, ← and_assoc]
  refine and_congr_left fun hreg => ?_
  have havail : d.available ≠ [] := by
    obtain ⟨-, tool, htool, -⟩ := hreg
    rw [Daemon.available, if_pos hruntime]
    intro hnil
    rw [List.map_eq_nil_iff.mp hnil] at htool
    cases htool
  obtain ⟨asked, hasked, hiff⟩ := hnarrowed.tools havail _ hlist
  rw [hiff t, haccepted.listOf_getD (by decide) hasked]

/-! ### Agents -/

theorem allowed_of_ownTools (h : .str t ∈ d.ownTools agentId) : d.Allowed agentId t := by
  have hnames : ∀ entries : List Json, .str t ∈ d.entryNames entries →
      t ∈ entries.filterMap fun entry => (d.entryName entry).bind decodeStr := by
    intro entries
    induction entries with
    | nil => exact fun h => absurd h List.not_mem_nil
    | cons entry entries ih =>
      intro h
      rw [Daemon.entryNames] at h
      split at h
      · exact absurd h List.not_mem_nil
      next name hname =>
        rcases List.mem_cons.mp h with rfl | h
        · exact List.mem_filterMap.mpr ⟨entry, List.mem_cons_self, by rw [hname]; rfl⟩
        · obtain ⟨x, hx, hdecode⟩ := List.mem_filterMap.mp (ih h)
          exact List.mem_filterMap.mpr ⟨x, List.mem_cons_of_mem _ hx, hdecode⟩
  unfold Daemon.ownTools at h
  split_ifs at h
  · exact absurd h List.not_mem_nil
  · split at h
    · exact absurd h List.not_mem_nil
    next manifest hmanifest => exact ⟨manifest, hmanifest, hnames _ h⟩

theorem value_of_not_shadows (h : ¬ r.Shadows key) :
    r.value key = r.overrides.lookup key.toList := by
  rw [RunRequest.value, Option.not_isSome_iff_eq_none.mp h, Option.none_or]

theorem within_iff_strict (h : d.submitRun a r = .ok (.subagent spec))
    (hrun : d.run spec = some run) : run.Within d r ↔ Strict d r := by
  obtain ⟨htools, hturns, hbudget⟩ := run_of_submitRun h hrun
  constructor
  · intro hw
    refine ⟨fun hagent _ t ht => hw.own hagent t ((htools t).mpr ht), ?_, ?_, ?_, ?_, ?_⟩
    · exact fun hagent manifest hm => hturns ▸ hw.limit hagent manifest hm
    · exact fun _ ts hts t ht => hw.tools ts hts t ((htools t).mpr ht)
    · exact fun _ ps hps t ht => hw.disallowed ps hps t ((htools t).mpr ht)
    · exact fun _ n hn => hturns ▸ hw.turns n hn
    · intro _ n hn hpos
      obtain ⟨b, hb, heq⟩ := hw.budget n hn hpos
      rw [hbudget] at heq
      split_ifs at heq with hpositive
      obtain rfl := Option.some.inj heq
      exact ⟨hpositive, hb⟩
  · intro hs
    have hlist : ∀ {key : String} {ts : List Json}, ¬ r.Shadows key →
        r.overrides.lookup key.toList = some (.arr ts) → r.listAt key = ts := by
      intro key ts hshadow hts
      rw [RunRequest.listAt, value_of_not_shadows hshadow, hts, Option.getD_some, listOf_arr,
        Option.getD_some]
    have hint : ∀ {key : String} {n default : ℤ}, ¬ r.Shadows key →
        (r.overrides.lookup key.toList).bind pyInt = some n → r.intAt key default = n := by
      intro key n default hshadow hn
      rw [RunRequest.intAt, value_of_not_shadows hshadow, hn, Option.getD_some]
    refine ⟨fun hagent t ht => ?_, fun hagent m hm => hturns ▸ hs.limit hagent m hm, ?_, ?_, ?_, ?_⟩
    · have hreach := (htools t).mp ht
      by_cases hown : d.ownTools r.agentId = []
      · exact hs.own hagent hown t hreach
      · exact allowed_of_ownTools (hreach.2.1 hagent hown)
    · intro ts hts t ht
      have hreach := (htools t).mp ht
      by_cases hshadow : r.Shadows "tools"
      · exact hs.tools hshadow ts hts t hreach
      · exact hlist hshadow hts ▸ hreach.1
    · intro ps hps t ht tool htool
      have hreach := (htools t).mp ht
      by_cases hshadow : r.Shadows "disallowed_tools"
      · exact hs.disallowed hshadow ps hps t hreach tool htool
      · obtain ⟨-, tool', htool', hdenied, -⟩ := hreach.2.2
        obtain rfl := Option.some.inj (htool.symm.trans htool')
        exact hlist hshadow hps ▸ hdenied
    · intro n hn
      rw [hturns]
      by_cases hshadow : r.Shadows "max_turns"
      · exact hs.turns hshadow n hn
      · exact (hint hshadow hn).le
    · intro n hn hpos
      rw [hbudget]
      by_cases hshadow : r.Shadows "budget_tokens"
      · obtain ⟨hpositive, hle⟩ := hs.budget hshadow n hn hpos
        exact ⟨_, hle, if_pos hpositive⟩
      · refine ⟨n, le_rfl, ?_⟩
        rw [hint hshadow hn, if_pos hpos]

/-! ### Runs without overrides -/

theorem setItem_ne_nil (key : Str) (value : Json) (m : Members) : setItem key value m ≠ [] := by
  cases m with
  | nil => exact List.cons_ne_nil _ _
  | cons x m =>
    rw [setItem]
    split_ifs <;> exact List.cons_ne_nil _ _

theorem eq_nil_of_narrowTools (h : d.narrowTools agentId c = .ok []) : c = [] := by
  unfold Daemon.narrowTools at h
  split at h
  · dsimp only at h
    split_ifs at h
    · exact Except.ok.inj h
    · exact Except.ok.inj h
    · exact absurd (Except.ok.inj h) (setItem_ne_nil _ _ _)
  · exact Except.ok.inj h

theorem eq_nil_of_intValues (h : intValues m = some []) : m = [] := by
  cases m with
  | nil => rfl
  | cons x m =>
    obtain ⟨value, -, h⟩ := Option.bind_eq_some_iff.mp h
    obtain ⟨m', -, h⟩ := Option.map_eq_some_iff.mp h
    exact absurd h (List.cons_ne_nil _ _)

theorem overrides_of_nil (hm : mergeSpec r = .ok m) (hc : checkSpec m = .ok c)
    (hn : d.narrowTools r.agentId c = .ok []) (key : String) :
    r.overrides.lookup key.toList = none := by
  obtain rfl := eq_nil_of_narrowTools hn
  obtain rfl := eq_nil_of_intValues (checkSpec_ok hc).2.2.1
  obtain ⟨o, ho, hmerged⟩ := mergeSpec_ok hm
  have hnone : o.lookup key.toList = none := by
    have hor := (hmerged key).symm
    rw [List.lookup_nil, Option.or_eq_none_iff] at hor
    exact hor.2
  rw [lookup_intValues ho] at hnone
  split_ifs at hnone with hint
  · cases hvalue : r.overrides.lookup key.toList with
    | none => rfl
    | some value =>
      have hsome := intJson_isSome ho hint hvalue
      rw [hvalue, Option.bind_some] at hnone
      rw [hnone] at hsome
      cases hsome
  · exact hnone

theorem within_of_overrides (hnone : ∀ key : String, r.overrides.lookup key.toList = none)
    (hown : ∀ t ∈ run.tools, d.Allowed r.agentId t)
    (hlimit : ∀ manifest, d.agents r.agentId = some manifest → run.maxTurns ≤ manifest.turnLimit) :
    run.Within d r := by
  refine ⟨fun _ => hown, fun _ => hlimit, fun ts h => ?_, fun ps h => ?_, fun n h => ?_,
    fun n h => ?_⟩
  · exact absurd ((hnone _).symm.trans h) (by simp)
  · exact absurd ((hnone _).symm.trans h) (by simp)
  · rw [hnone] at h
    cases h
  · rw [hnone] at h
    cases h

theorem lookup_specForAgent_tools (agentId : Str) (manifest : AgentManifest) :
    (specForAgent agentId manifest).lookup "tools".toList =
      if manifest.tools.isEmpty then none else some (.arr manifest.tools) := by
  unfold specForAgent
  split_ifs <;> rfl

theorem lookup_specForAgent_turns (agentId : Str) (manifest : AgentManifest) :
    (specForAgent agentId manifest).lookup "max_turns".toList =
      if 0 < manifest.maxIterations then some (.num (Number.ofInt manifest.maxIterations))
      else none := by
  unfold specForAgent
  split_ifs <;> rfl

theorem own_run {manifest : AgentManifest} (hagent : d.agents r.agentId = some manifest)
    (hspec : SubAgentSpec.fromDict (specForAgent r.agentId manifest) = some spec)
    (hrun : d.run spec = some run) :
    (∀ t ∈ run.tools, d.Allowed r.agentId t) ∧ run.maxTurns = manifest.turnLimit := by
  obtain ⟨htools, hturns, -⟩ := run_spec hrun
  obtain ⟨hlist, hmax, -⟩ := fromDict_ok hspec
  constructor
  · intro t ht
    have hmem : .str t ∈ spec.tools := ((htools t).mp ht).1
    have hown : spec.tools = manifest.tools := by
      rw [getD, lookup_specForAgent_tools] at hlist
      split_ifs at hlist with hempty
      · rw [List.isEmpty_iff.mp hempty]
        exact (Option.some.inj hlist).symm
      · rw [Option.getD_some, listOf_arr] at hlist
        exact (Option.some.inj hlist).symm
    rw [hown] at hmem
    exact ⟨manifest, hagent, List.mem_filterMap.mpr ⟨.str t, hmem, rfl⟩⟩
  · rw [hturns, AgentManifest.turnLimit]
    rw [getD, lookup_specForAgent_turns] at hmax
    split_ifs at hmax ⊢ with hpos
    · rw [Option.getD_some, pyInt_ofInt] at hmax
      rw [Option.some.inj hmax]
    · rw [← Option.some.inj hmax]
      rfl

/-! ### The result -/

theorem dispatch_elsewhere {dispatch : Dispatch} (hsandbox : parseSandbox r.sandbox = .ok sandbox)
    (h : d.dispatch a r n sandbox = .ok dispatch) (he : Elsewhere a r) :
    (∃ node, dispatch = .delegated node) ∨ dispatch = .graph := by
  unfold Elsewhere at he
  rw [hsandbox] at he
  unfold Daemon.dispatch at h
  split at h
  · have hgraph : r.graphId ≠ [] ∧ (a.runId = [] ∨ a.deduped = true) :=
      he.resolve_left fun hno => hno.1 rfl
    rw [if_neg (fun hno => hgraph.2.elim hno.2.1 fun h => by simp [h] at hno),
      if_pos hgraph.1] at h
    exact Or.inr (Except.ok.inj h).symm
  · by_cases hrun : a.runId = []
    · have hgraph := he.resolve_left fun hno => hno.2 hrun
      rw [if_neg (not_not.mpr hrun), if_pos hgraph.1] at h
      exact Or.inr (Except.ok.inj h).symm
    · rw [if_pos hrun] at h
      split at h
      · cases h
      · exact Or.inl ⟨_, (Except.ok.inj h).symm⟩

/-- A run is delegated or given to the graph only where it goes elsewhere, or where there is nothing
that overrides it. -/
theorem elsewhere_of_dispatch {dispatch : Dispatch}
    (hsandbox : parseSandbox r.sandbox = .ok sandbox) (h : d.dispatch a r n sandbox = .ok dispatch)
    (hgoes : (∃ node, dispatch = .delegated node) ∨ dispatch = .graph) :
    n = [] ∨ Elsewhere a r := by
  unfold Elsewhere
  rw [hsandbox]
  unfold Daemon.dispatch at h
  split at h
  · split_ifs at h with hrun hgraph hnothing
    · -- a run of a subagent goes nowhere else
      unfold Daemon.runTask at h
      rcases hgoes with ⟨node, rfl⟩ | rfl <;>
        (split_ifs at h <;> (dsimp only at h; split at h <;> cases h))
    · by_cases hn : n = []
      · exact Or.inl hn
      · refine Or.inr (Or.inr ⟨hgraph, ?_⟩)
        by_contra hno
        rw [not_or, Bool.not_eq_true] at hno
        exact hrun ⟨hn, hno⟩
    · rcases hgoes with ⟨node, rfl⟩ | rfl <;> cases h
    · rcases hgoes with ⟨node, rfl⟩ | rfl <;> cases h
  · split_ifs at h with hrun hgraph
    · exact Or.inr (Or.inl ⟨by simp, hrun⟩)
    · exact Or.inr (Or.inr ⟨hgraph, Or.inl (not_not.mp hrun)⟩)
    · rcases hgoes with ⟨node, rfl⟩ | rfl <;> cases h

theorem eq_nil_of_queued (h : d.dispatch a r n sandbox = .ok .queued) : n = [] := by
  unfold Daemon.dispatch at h
  split at h
  · split_ifs at h with hrun hgraph hnothing
    · unfold Daemon.runTask at h
      split_ifs at h <;> (dsimp only at h; split at h <;> cases h)
    · cases h
    · cases h
    · by_contra hn
      rw [not_or, Bool.not_eq_true] at hnothing
      exact hrun ⟨hn, hnothing.2, hnothing.1⟩
  · split_ifs at h
    · split at h <;> cases h
    all_goals cases h

theorem not_constrained (h : ∀ key : String, r.overrides.lookup key.toList = none) :
    ¬ r.Constrained := by
  rintro ⟨key, -, hkey⟩
  rw [h key] at hkey
  cases hkey

/-- The runs that a request starts are within what the target agent is allowed and what the
overrides say exactly if the request is careful. -/
theorem overrides_lawful_iff (d : Daemon) (a : Answers) (r : RunRequest) :
    Lawful d a r ↔ Careful d a r := by
  constructor
  · intro hl
    refine ⟨fun dispatch h he => ?_, fun spec run h hrun => ?_⟩
    · obtain ⟨-, -, n, sandbox, -, -, -, hsandbox, hdispatch⟩ := submitRun_ok h
      unfold Lawful at hl
      rw [h] at hl
      rcases dispatch_elsewhere hsandbox hdispatch he with ⟨node, rfl⟩ | rfl
      · exact hl
      · exact hl
    · unfold Lawful at hl
      rw [h] at hl
      exact (within_iff_strict h hrun).mp (hl run hrun)
  · intro hc
    unfold Lawful
    cases h : d.submitRun a r with
    | error e => trivial
    | ok dispatch =>
      obtain ⟨m, c, n, sandbox, hm, hcheck, hn, hsandbox, hdispatch⟩ := submitRun_ok h
      have helsewhere : (∃ node, dispatch = .delegated node) ∨ dispatch = .graph →
          ¬ r.Constrained := by
        intro hgoes
        rcases elsewhere_of_dispatch hsandbox hdispatch hgoes with rfl | he
        · exact not_constrained (overrides_of_nil hm hcheck hn)
        · exact hc.elsewhere dispatch h he
      cases dispatch with
      | subagent spec =>
        exact fun run hrun => (within_iff_strict h hrun).mpr (hc.strict spec run h hrun)
      | delegated node => exact helsewhere (Or.inl ⟨node, rfl⟩)
      | graph => exact helsewhere (Or.inr rfl)
      | nothing => trivial
      | queued =>
        intro manifest spec run hagent hspec hrun
        obtain rfl := eq_nil_of_queued hdispatch
        obtain ⟨hown, hturns⟩ := own_run hagent hspec hrun
        refine within_of_overrides (overrides_of_nil hm hcheck hn) hown fun manifest' h' => ?_
        obtain rfl := Option.some.inj (hagent.symm.trans h')
        exact hturns.le

/-- A daemon with one tool and an agent that has none. -/
def bareDaemon : Daemon where
  hasRuntime := true
  tools := [{ name := "shell" }]
  subGraphDepth := 0
  agents agentId := if agentId = "a" then some { tools := [] } else none
  unreadable _ := false
  str _ := []

/-- A request for this agent that overrides its tools. -/
def shellRequest : RunRequest where
  goal := "go"
  agentId := "a"
  agentOverrides := .obj [("tools", .arr [.str "shell"])]

def shellSpec : SubAgentSpec where
  tools := [.str "shell"]
  maxTurns := 8
  budgetTokens := 0
  disallowedTools := []
  mcpServers := []

/-- The agent without tools runs with the tool that the overrides name. -/
theorem not_overrides_lawful : ¬ ∀ d a r, Lawful d a r := by
  intro h
  have hlawful := h bareDaemon { runId := "t".toList } shellRequest
  have hsubmit : bareDaemon.submitRun { runId := "t".toList } shellRequest =
      .ok (.subagent shellSpec) := by rfl
  have hrun : bareDaemon.run shellSpec =
      some { tools := ["shell".toList], maxTurns := 8, budget := none } := by rfl
  unfold Lawful at hlawful
  rw [hsubmit] at hlawful
  obtain ⟨manifest, hagent, hmem⟩ :=
    (hlawful _ hrun).own (by decide) "shell".toList List.mem_cons_self
  obtain rfl := Option.some.inj hagent
  exact absurd hmem List.not_mem_nil

end AgentStudio.Api

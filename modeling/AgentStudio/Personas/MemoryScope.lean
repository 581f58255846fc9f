import AgentStudio.Execution.ToolArgs
import AgentStudio.Memory.Scopes
import AgentStudio.Personas.Gate
import AgentStudio.Tools.Registry

/-!
# The memory scope of a persona

How a run reaches the memory engine: by the recall at its start and the entry that is stored at its
end (`_execute_graph_inner` and `_auto_store_memory` of `agent_runtime`), and by the tools of
`tools/memory_tools.py`. The arguments of a tool pass the gate of the persona, the schema of the
tool and its configuration (`MemoryHost.kwargs`). The gate writes the scope into the arguments of
`memory_read` and `memory_write`; but `memory_read` ignores it if it is given the id of an entry,
and the recall, `memory_search`, `memory_forget` and the entry at the end know nothing of it.

`step` is an access to the engine, of a run or of somebody else; its output are the entries that
come into the messages. A run is `Confined` if these are of its scope, and if it changes nothing in
the other scopes. `confined_of_harmless` says when it is.
-/

namespace AgentStudio.Personas

open PyText PyJson PyDict AgentStudio.Execution AgentStudio.Memory AgentStudio.Tools Machine

/-! ### Arguments -/

theorem exists_value_of_textArg {str : Json → Str} {args : List (Str × Json)} {key value : Str}
    (h : textArg str args key = value) (hvalue : value ≠ []) :
    ∃ v, args.lookup key = some v ∧ str v = value := by
  rw [textArg] at h
  cases hlookup : (args.lookup key).filter Json.truthy with
  | none =>
    rw [hlookup] at h
    exact absurd h.symm hvalue
  | some v =>
    rw [hlookup] at h
    exact ⟨v, (Option.filter_eq_some_iff.mp hlookup).1, h⟩

theorem nodup_of_apply {gate : PersonaGate} {str : Json → Str} {toolName : Str}
    {args args' : List (Str × Json)} (hargs : (args.map Prod.fst).Nodup)
    (h : gate.apply str toolName args = .ok args') : (args'.map Prod.fst).Nodup := by
  cases hdenial : gate.denial toolName args with
  | some reason => exact absurd (PersonaGate.apply_of_denial hdenial ▸ h) (by simp)
  | none =>
    rw [PersonaGate.apply_of_not_denied hdenial] at h
    split_ifs at h
    · exact Except.ok.inj h ▸ nodup_setItem hargs
    · exact Except.ok.inj h ▸ hargs

/-! ### The memory tools -/

/-- The tools of `create_memory_tools`. -/
inductive MemoryTool where
  | read
  | write
  | search
  | forget
deriving DecidableEq

def memoryParameter (name type description : String) : Str × Json :=
  (name.toList, .obj [("type", .str type.toList),
    ("description", .str description.toList)])

def MemoryTool.tool : MemoryTool → BaseTool
  | .read => {
    name := "memory_read"
    description := "Read a memory entry by id, or list recent entries in a scope."
    parameters := [
      memoryParameter "entry_id" "string" "memory entry id (optional)",
      memoryParameter "scope" "string" "scope to list recent from (optional)",
      memoryParameter "limit" "integer" "list limit (default 10)"] }
  | .write => {
    name := "memory_write"
    description :=
      "Store a memory fact (classified by four-type frontmatter semantics)."
    parameters := [
      memoryParameter "content" "string" "the fact to remember",
      memoryParameter "scope" "string" "scope key (e.g. session/team id)",
      memoryParameter "memory_type" "string" "user|feedback|project|reference",
      memoryParameter "importance" "integer" "1-10 importance"] }
  | .search => {
    name := "memory_search"
    description := "Full-text search over stored memories."
    parameters := [
      memoryParameter "query" "string" "search query",
      memoryParameter "limit" "integer" "max results (default 5)"] }
  | .forget => {
    name := "memory_forget"
    description := "Delete a memory entry by id."
    parameters := [memoryParameter "entry_id" "string" "memory entry id"] }

/-- What a run has: the engine's settings, the gate's surroundings, the conversions of arguments,
the configurations of tools, the texts of identifiers, and the name of its graph. -/
structure MemoryHost where
  cfg : Config
  harness : Harness
  str_text : ∀ t, harness.str (.str t) = t
  float : Json → Option Json
  int : Json → Option Json
  noGet : Json → Str
  toolConfigs : Configs := []
  ctxConfigs : Option Configs := none
  idText : ℕ → Str
  graphName : Str

namespace MemoryHost

variable (m : MemoryHost)

def coercions : Coercions where
  text := m.harness.str
  float := m.float
  int := m.int
  noGet := m.noGet

theorem coerce_string {m : MemoryHost} {value : Json} {t : Str} (h : m.harness.str value = t) :
    m.coercions.coerce (some "string".toList) value = .str t := by
  cases value with
  | str s => exact congrArg Json.str ((m.str_text s).symm.trans h)
  | _ => exact congrArg Json.str h

/-- The arguments with which a tool is executed, unless the call is denied or raises an exception
before. -/
def kwargs (d : Declarations) (tool : BaseTool) (args : Dict) : Option (List (Str × Json)) :=
  match admitPersona m.harness d tool.name args.members with
  | .error _ => none
  | .ok admitted =>
    match validateToolArgs m.coercions tool.parameters admitted with
    | .error _ => none
    | .ok validated =>
      some (mergeToolConfigDefaults m.toolConfigs m.ctxConfigs tool.name validated)

def text (kwargs : List (Str × Json)) (name : String) : Str :=
  textArg m.harness.str kwargs name.toList

def number (kwargs : List (Str × Json)) (name : String) (default : ℤ) : ℤ :=
  match kwargs.lookup name.toList with
  | none => default
  | some value => (pyInt value).getD default

def named (st : Engine) (entryId : Str) : List MemoryRow :=
  st.rows.filter fun r => m.idText r.id = entryId

/-- The entry that `memory_write` stores. -/
def written (kwargs : List (Str × Json)) : NewEntry where
  content := strip (m.text kwargs "content")
  scope := Runtime.orText (m.text kwargs "scope") "default"
  importance := number kwargs "importance" 5
  memoryType := m.text kwargs "memory_type"

/-- The filters of `memory_read` without an id. -/
def listed (kwargs : List (Str × Json)) : Filters where
  scope := m.text kwargs "scope"
  limit := max 1 (number kwargs "limit" 10)

/-- The filters of `memory_search`. -/
def searched (kwargs : List (Str × Json)) : Filters where
  limit := max 1 (number kwargs "limit" 5)

/-- The filters of `recall_relevant`. -/
def relevant : Filters where
  limit := 5
  minImportance := 5

/-- `execute` of the memory tools: the entries in the result, and the engine that is left. -/
def execute (kwargs : List (Str × Json)) (now : ℕ) (st : Engine) :
    MemoryTool → List MemoryRow × Engine
  | .read =>
    if m.text kwargs "entry_id" ≠ [] then
      ((m.named st (m.text kwargs "entry_id")).take 1, st)
    else (st.listRecent (m.listed kwargs), st)
  | .write =>
    if (m.written kwargs).content = [] then ([], st)
    else ([], (operate m.cfg (.store (m.written kwargs) now) st).2)
  | .search =>
    if m.text kwargs "query" = [] then ([], st)
    else (st.recall m.cfg (m.text kwargs "query") (searched kwargs), st)
  | .forget =>
    if m.text kwargs "entry_id" = [] then ([], st)
    else ([], st.deleteIds ((m.named st (m.text kwargs "entry_id")).map MemoryRow.id))

end MemoryHost

/-! ### Accesses -/

/-- An access to the engine: the recall for the input of a run, a call of a tool, the entry that is
stored at the end of a run, and what others do. -/
inductive Access where
  | autoRecall (input : Str)
  | call (tool : MemoryTool) (args : Dict) (now : ℕ)
  | autoStore (content memoryType : Str) (failed : Bool) (metadata : List (Str × Json)) (now : ℕ)
  | others (op : Op)

def Access.own : Access → Bool
  | .others _ => false
  | _ => true

namespace MemoryHost

variable (m : MemoryHost)

/-- The entry that `_auto_store_memory` stores. -/
def autoStored (content memoryType : Str) (failed : Bool) (metadata : List (Str × Json)) :
    NewEntry where
  content := content
  scope := "graph:" ++ m.graphName
  tags := "auto-store"
  importance := if failed then 3 else 7
  metadata := metadata
  memoryType := memoryType

/-- An access of a run with declarations, or of others: the entries that come into the messages of
the run, and the engine that is left. -/
def step (d : Declarations) : Access → Engine → List MemoryRow × Engine
  | .autoRecall input, st => (if input = [] then [] else st.recall m.cfg input relevant, st)
  | .call tool args now, st =>
    match m.kwargs d tool.tool args with
    | none => ([], st)
    | some kwargs => m.execute kwargs now st tool
  | .autoStore content memoryType failed metadata now, st =>
    ([], (operate m.cfg (.store (m.autoStored content memoryType failed metadata) now) st).2)
  | .others op, st => ([], (operate m.cfg op st).2)

/-- The entries that come into the messages are of the scope, and no access of the run changes the
entries of the other scopes. -/
structure Confined (d : Declarations) (scope : Str) (accesses : List Access) (st : Engine) :
    Prop where
  shown : ∀ rows ∈ (run (m.step d) accesses st).1, ∀ r ∈ rows, r.scope = scope
  kept : Along (m.step d) (fun a st => a.own = true →
    (m.step d a st).2.outside scope = st.outside scope) accesses st

/-! ### Conditions -/

/-- A search finds what it would find in the scope alone. -/
def FindsAlike (scope query : Str) (f : Filters) (st : Engine) : Prop :=
  st.recall m.cfg query f = st.recall m.cfg query { f with scope }

/-- No entry of another scope has the id. -/
def IdOf (scope entryId : Str) (st : Engine) : Prop :=
  ∀ r ∈ st.rows, m.idText r.id = entryId → r.scope = scope

/-- An entry is stored in the scope, and compaction spares the other ones. -/
def StoresIn (scope : Str) (e : NewEntry) (now : ℕ) (st : Engine) : Prop :=
  e.scope = scope ∧ Spares m.cfg now scope (st.insert e now [e.tenantId])

/-- The gate of the declarations can be built: none of their rules is refused. -/
def GateBuilt (d : Declarations) : Prop := (PersonaGate.of m.harness d).isSome = true

/-- What keeps the execution of a tool within the scope. -/
def ToolHarmless (d : Declarations) (scope : Str) (kwargs : List (Str × Json)) (now : ℕ)
    (st : Engine) : MemoryTool → Prop
  | .read =>
    if m.text kwargs "entry_id" ≠ [] then m.IdOf scope (m.text kwargs "entry_id") st
    else m.GateBuilt d
  | .write => (m.written kwargs).content ≠ [] → m.GateBuilt d ∧
    Spares m.cfg now scope (st.insert (m.written kwargs) now [(m.written kwargs).tenantId])
  | .search => m.text kwargs "query" ≠ [] →
    m.FindsAlike scope (m.text kwargs "query") (searched kwargs) st
  | .forget => m.text kwargs "entry_id" ≠ [] → m.IdOf scope (m.text kwargs "entry_id") st

/-- What keeps an access within the scope. -/
def Harmless (d : Declarations) (scope : Str) : Access → Engine → Prop
  | .autoRecall input, st => input ≠ [] → m.FindsAlike scope input relevant st
  | .call tool args now, st => ∀ kwargs, m.kwargs d tool.tool args = some kwargs →
    m.ToolHarmless d scope kwargs now st tool
  | .autoStore content memoryType failed metadata now, st =>
    m.StoresIn scope (m.autoStored content memoryType failed metadata) now st
  | .others _, _ => True

variable {m} {d : Declarations} {scope : Str} {st : Engine}

/-! ### The scope of the gate -/

theorem exists_gate (hbuilt : m.GateBuilt d) (hdeclared : strip d.memoryScope = scope)
    (hscope : scope ≠ []) :
    ∃ gate, personaGateFor m.harness d = some gate ∧ gate.memoryScope = scope := by
  obtain ⟨gate, hgate⟩ := Option.isSome_iff_exists.mp hbuilt
  have hmemory : gate.memoryScope = scope := by
    rw [PersonaGate.of] at hgate
    dsimp only at hgate
    split_ifs at hgate
    · rw [← Option.some.inj hgate]
      exact hdeclared
    · obtain ⟨engine, -, rfl⟩ := Option.map_eq_some_iff.mp hgate
      exact hdeclared
  refine ⟨gate, ?_, hmemory⟩
  rw [personaGateFor, hgate, Option.filter_some, if_pos]
  rw [PersonaGate.active, decide_eq_true_eq]
  exact Or.inl (hmemory ▸ hscope)

/-- The arguments of `memory_read` and `memory_write` have the scope when they are executed: the
gate has set it, the schema has the parameter, and the configuration comes after the arguments. -/
theorem text_scope (hbuilt : m.GateBuilt d) (hdeclared : strip d.memoryScope = scope)
    (hscope : scope ≠ []) {tool : BaseTool} {prop : List (Str × Json)} {args : Dict}
    (htool : tool.name ∈ memoryScopeTools)
    (hschema : tool.parameters.lookup "scope".toList = some (.obj prop))
    (htype : expectedType prop = some "string".toList) {kwargs : List (Str × Json)}
    (h : m.kwargs d tool args = some kwargs) : m.text kwargs "scope" = scope := by
  obtain ⟨gate, hgate, hmemory⟩ := exists_gate hbuilt hdeclared hscope
  rw [MemoryHost.kwargs] at h
  cases hadmits : admitPersona m.harness d tool.name args.members with
  | error reason => simp [hadmits] at h
  | ok admitted =>
    rw [hadmits] at h
    dsimp only at h
    cases hvalidate : validateToolArgs m.coercions tool.parameters admitted with
    | error reason => simp [hvalidate] at h
    | ok validated =>
      rw [hvalidate] at h
      obtain rfl := Option.some.inj h
      rw [admitPersona, hgate] at hadmits
      have hset : textArg m.harness.str admitted "scope" = scope :=
        (PersonaGate.scope_of_apply (hmemory ▸ hscope) (m.str_text _) htool hadmits).trans hmemory
      have hadmitted := nodup_of_apply args.nodup hadmits
      -- the value under the name, and what the schema makes of it
      obtain ⟨value, hvalue, htext⟩ := exists_value_of_textArg hset hscope
      have hvalidated : validated.lookup "scope".toList = some (.str scope) := by
        rw [lookup_validateToolArgs hschema hadmitted hvalidate hvalue, htype]
        exact congrArg some (coerce_string htext)
      have hnodup := nodup_validateToolArgs hadmitted hvalidate
      rw [text, textArg, lookup_mergeToolConfigDefaults _ _ _ hnodup, hvalidated, Option.some_or,
        Option.filter_some, if_pos (by simp [Json.truthy, hscope])]
      exact m.str_text scope

/-! ### One access -/

theorem mem_named {entryId : Str} {r : MemoryRow} :
    r ∈ m.named st entryId ↔ r ∈ st.rows ∧ m.idText r.id = entryId := by
  rw [named, List.mem_filter, decide_eq_true_eq]

theorem step_stored {a : Access} (hs : st.Sound) (hk : st.Keyed) :
    (m.step d a st).2.Sound ∧ (m.step d a st).2.Keyed := by
  have hop : ∀ op, (operate m.cfg op st).2.Sound ∧ (operate m.cfg op st).2.Keyed :=
    fun op => ⟨sound_operate op st hs, keyed_operate op hs hk⟩
  cases a with
  | autoRecall input => exact ⟨hs, hk⟩
  | autoStore content memoryType failed metadata now => exact hop _
  | others op => exact hop op
  | call tool args now =>
    rw [step]
    split
    · exact ⟨hs, hk⟩
    · cases tool with
      | read | search =>
        rw [execute]
        split_ifs
        · exact ⟨hs, hk⟩
        · exact ⟨hs, hk⟩
      | write =>
        rw [execute]
        split_ifs
        · exact ⟨hs, hk⟩
        · exact hop _
      | forget =>
        rw [execute]
        split_ifs
        · exact ⟨hs, hk⟩
        · have hdelete : ∀ ids, (st.deleteIds ids).Sound ∧ (st.deleteIds ids).Keyed := by
            intro ids
            have hchanges : Changes m.cfg st (st.deleteIds ids) := changes_filter hs _
            exact ⟨hchanges.sound hs, hk.filter _⟩
          exact hdelete _

theorem scope_of_findsAlike {query : Str} {f : Filters} (h : m.FindsAlike scope query f st)
    (hscope : scope ≠ []) {r : MemoryRow} (hr : r ∈ st.recall m.cfg query f) : r.scope = scope := by
  rw [show st.recall m.cfg query f = _ from h] at hr
  exact scope_of_recall hr hscope

theorem execute_harmless (hdeclared : strip d.memoryScope = scope) (hscope : scope ≠ [])
    (hk : st.Keyed) {tool : MemoryTool} {args : Dict} {now : ℕ} {kwargs : List (Str × Json)}
    (hkwargs : m.kwargs d tool.tool args = some kwargs)
    (hok : m.ToolHarmless d scope kwargs now st tool) :
    (∀ r ∈ (m.execute kwargs now st tool).1, r.scope = scope) ∧
      (m.execute kwargs now st tool).2.outside scope = st.outside scope := by
  cases tool with
  | read =>
    rw [ToolHarmless] at hok
    rw [execute]
    split_ifs at hok ⊢ with hid
    · refine ⟨fun r hr => ?_, rfl⟩
      obtain ⟨hmem, hname⟩ := mem_named.mp (List.mem_of_mem_take hr)
      exact hok r hmem hname
    · have htext := text_scope hok hdeclared hscope (by decide) rfl rfl hkwargs
      refine ⟨fun r hr => ?_, rfl⟩
      have hlisted : (m.listed kwargs).scope = scope := htext
      exact (scope_of_listRecent hr (hlisted ▸ hscope)).trans hlisted
  | write =>
    rw [execute]
    split_ifs with hcontent
    · exact ⟨List.forall_mem_nil _, rfl⟩
    · obtain ⟨hbuilt, hspares⟩ := hok hcontent
      have htext := text_scope hbuilt hdeclared hscope (by decide) rfl rfl hkwargs
      refine ⟨List.forall_mem_nil _, outside_store hk ?_ hspares⟩
      change Runtime.orText (m.text kwargs "scope") _ = scope
      rw [Runtime.orText, htext, if_neg hscope]
  | search =>
    rw [execute]
    split_ifs with hquery
    · exact ⟨List.forall_mem_nil _, rfl⟩
    · exact ⟨fun r hr => scope_of_findsAlike (hok hquery) hscope hr, rfl⟩
  | forget =>
    rw [execute]
    split_ifs with hid
    · exact ⟨List.forall_mem_nil _, rfl⟩
    · refine ⟨List.forall_mem_nil _, outside_deleteIds fun r hr hmem => ?_⟩
      obtain ⟨r', hr', heq⟩ := List.mem_map.mp hmem
      obtain ⟨hmem', hname⟩ := mem_named.mp hr'
      rw [← hk.eq_of_id hmem' hr heq]
      exact hok hid r' hmem' hname

theorem step_harmless (hdeclared : strip d.memoryScope = scope) (hscope : scope ≠ [])
    (hk : st.Keyed) {a : Access} (hok : m.Harmless d scope a st) :
    (∀ r ∈ (m.step d a st).1, r.scope = scope) ∧
      (a.own = true → (m.step d a st).2.outside scope = st.outside scope) := by
  cases a with
  | autoRecall input =>
    refine ⟨fun r hr => ?_, fun _ => rfl⟩
    rw [step] at hr
    split_ifs at hr with hinput
    · exact absurd hr List.not_mem_nil
    · exact scope_of_findsAlike (hok hinput) hscope hr
  | call tool args now =>
    rw [step]
    split
    · exact ⟨List.forall_mem_nil _, fun _ => rfl⟩
    next kwargs hkwargs =>
      have htool := execute_harmless hdeclared hscope hk hkwargs (hok kwargs hkwargs)
      exact ⟨htool.1, fun _ => htool.2⟩
  | autoStore content memoryType failed metadata now =>
    exact ⟨List.forall_mem_nil _, fun _ => outside_store hk hok.1 hok.2⟩
  | others op =>
    exact ⟨List.forall_mem_nil _, fun h => absurd h Bool.false_ne_true⟩

/-! ### Runs -/

/-- **The memory scope.** For every content of the engine, every agent whose persona declares a
scope and every sequence of accesses of its run, among which others use the engine: if every access
is harmless in the state in which it is made, the run is confined to the scope. -/
theorem confined_of_harmless (hdeclared : strip d.memoryScope = scope) (hscope : scope ≠ [])
    (ops : List Op) (accesses : List Access)
    (hok : Along (m.step d) (m.Harmless d scope) accesses (run (operate m.cfg) ops {}).2) :
    m.Confined d scope accesses (run (operate m.cfg) ops {}).2 := by
  have hstored : (run (operate m.cfg) ops {}).2.Sound ∧ (run (operate m.cfg) ops {}).2.Keyed := by
    refine run_invariant_always (I := fun st : Engine => st.Sound ∧ st.Keyed)
      (fun op st h => ?_) ops ?_
    · exact ⟨sound_operate op st h.1, keyed_operate op h.1 h.2⟩
    · exact ⟨⟨List.forall_mem_nil _, fun t => fun _ h => absurd h List.not_mem_nil⟩,
        ⟨List.nodup_nil, List.forall_mem_nil _⟩⟩
  constructor
  · have houtputs := run_outputs_invariant
      (I := fun (os : List (List MemoryRow)) (st : Engine) =>
        (st.Sound ∧ st.Keyed) ∧ ∀ rows ∈ os, ∀ r ∈ rows, r.scope = scope)
      (fun a st os h hok => ?_) accesses
      ⟨hstored, List.forall_mem_nil _⟩ hok
    · exact houtputs.2
    · refine ⟨step_stored h.1.1 h.1.2, fun rows hrows => ?_⟩
      rcases mem_snoc.mp hrows with hrows | rfl
      · exact h.2 rows hrows
      · exact (step_harmless hdeclared hscope h.1.2 hok).1
  · exact along_of_invariant (I := fun st : Engine => st.Sound ∧ st.Keyed)
      (fun a st h hok => ⟨step_stored h.1 h.2, (step_harmless hdeclared hscope h.2 hok).2⟩)
      accesses hstored hok

/-! ### Two runs -/

/-- A host without configurations, and without rules that are refused. -/
def plainHost : MemoryHost where
  cfg := plainConfig
  harness := { engine := fun _ => some fun _ _ => none, str := fun v => (decodeStr v).getD [] }
  str_text := fun _ => rfl
  float := fun _ => none
  int := fun _ => none
  noGet := fun _ => []
  idText := Nat.toDigits 10
  graphName := "g"

def textArgs (name value : String) : Dict where
  members := [(name.toList, .str value.toList)]
  nodup := List.nodup_singleton _
  wf := by
    intro m hm
    rw [List.mem_singleton.mp hm]
    exact trivial

/-- Something is written, and the entries of the scope are listed. -/
theorem confined_writing :
    plainHost.Confined { memoryScope := "project".toList } "project".toList
      [.call .write (textArgs "content" "plan") 0, .call .read Dict.empty 1]
      (run (operate plainHost.cfg) [] {}).2 := by
  refine confined_of_harmless rfl (by decide) [] _ ⟨fun kwargs _ _ => ⟨rfl, fun hfull => ?_⟩,
    fun kwargs hkwargs => ?_, trivial⟩
  · have hlength : ¬ (200 : ℤ) ≤ (1 : ℕ) := by decide
    exact absurd hfull hlength
  · rw [← Option.some.inj hkwargs]
    exact rfl

/-- An entry of another scope is read by its id. -/
theorem not_confined_reading :
    ¬ ∀ (m : MemoryHost) (d : Declarations) (scope : Str), strip d.memoryScope = scope →
      scope ≠ [] → ∀ (ops : List Op) (accesses : List Access),
        m.Confined d scope accesses (run (operate m.cfg) ops {}).2 := by
  intro h
  have hshown := (h plainHost { memoryScope := "project" } "project" rfl (by decide)
    [.store { content := "plan", scope := "other" } 0]
    [.call .read (textArgs "entry_id" "0") 1]).shown
  have hother : ((run (plainHost.step { memoryScope := "project" })
      [.call .read (textArgs "entry_id" "0") 1] (run (operate plainHost.cfg)
        [.store { content := "plan", scope := "other" } 0] {}).2).1.any fun rows =>
          rows.any fun r => decide (r.scope ≠ "project")) = true := by
    decide +kernel
  obtain ⟨rows, hrows, hany⟩ := List.any_eq_true.mp hother
  obtain ⟨r, hr, hscope⟩ := List.any_eq_true.mp hany
  exact of_decide_eq_true hscope (hshown rows hrows r hr)

end MemoryHost

end AgentStudio.Personas

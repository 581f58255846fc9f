import AgentStudio.Runtime.Policy

/-!
# The tool registry

`BaseTool` of `tools/base.py`, `ToolRegistry` of `tools/registry.py` and `ToolSearchTool` of
`tools/tool_search.py`. A tool names the roles that see it. The registry filters by a role where it
lists schemas (`toOpenaiSchemas`) and where it searches (`searchTools`); a tool is looked up by its
name alone (`get`), and `ToolSearchTool.execute` searches without a role.

`searchTools_eq_iff`: a search without a role finds only tools that a role sees if and only if it
finds what a search with this role finds.
-/

namespace AgentStudio.Tools

open PyText PyJson PyDict

/-! ### Tools -/

/-- `BaseTool`, as far as the registry reads it; `isToolSearch` says that the tool is a
`ToolSearchTool`. -/
structure BaseTool where
  name : Str
  description : Str := []
  parameters : List (Str × Json) := []
  roles : List Str := ["all"]
  isToolSearch : Bool := false

/-- What `openai_schema` returns, without the members that are the same for all tools. -/
structure ToolSchema where
  name : Str
  description : Str
  properties : List (Str × Json)
  required : List Str

namespace BaseTool

variable (t : BaseTool)

/-- A parameter is required unless it has a default. -/
def requires : Json → Bool
  | .obj prop => (prop.lookup "default".toList).isNone
  | _ => false

/-- `openai_schema`. -/
def openaiSchema : ToolSchema where
  name := t.name
  description := t.description
  properties := t.parameters
  required := (t.parameters.filter fun p => requires p.2).map Prod.fst

def VisibleTo (role : Str) : Prop := role = "all".toList ∨ "all".toList ∈ t.roles ∨ role ∈ t.roles

instance (role : Str) : Decidable (t.VisibleTo role) :=
  inferInstanceAs (Decidable (_ ∨ _ ∨ _))

/-- The query is a part of the name or the description; an empty query is a part of all. -/
def Matches (query : Str) : Prop :=
  query = [] ∨ query <:+: Runtime.lowerAll t.name ∨ query <:+: Runtime.lowerAll t.description

instance (query : Str) : Decidable (t.Matches query) :=
  inferInstanceAs (Decidable (_ ∨ _ ∨ _))

end BaseTool

/-! ### The registry -/

/-- `ToolRegistry`: the tools under their names, in the order in which they were registered. -/
structure ToolRegistry where
  tools : List (Str × BaseTool) := []
  nodup : (tools.map Prod.fst).Nodup := by exact List.nodup_nil
  named : ∀ t ∈ tools, t.2.name = t.1 := by exact List.forall_mem_nil _

namespace ToolRegistry

variable (registry : ToolRegistry)

/-- `_tools.values()`. -/
def values : List BaseTool := registry.tools.map Prod.snd

/-- `register`; a tool without a name is refused. -/
def register (t : BaseTool) : Option ToolRegistry :=
  if t.name = [] then none
  else some {
    tools := setItem t.name t registry.tools
    nodup := by
      rw [keys_setItem]
      split_ifs with h
      · exact registry.nodup
      · exact List.Nodup.append registry.nodup (List.nodup_singleton _) (by simpa using h)
    named := by
      intro t' ht'
      rcases mem_setItem ht' with rfl | h
      · rfl
      · exact registry.named t' h }

/-- `unregister`. -/
def unregister (name : Str) : ToolRegistry where
  tools := registry.tools.filter fun t => t.1 ≠ name
  nodup := (List.filter_sublist.map _).nodup registry.nodup
  named t ht := registry.named t (List.mem_of_mem_filter ht)

/-- `get`; `none` is a `KeyError`. -/
def get (name : Str) : Option BaseTool := registry.tools.lookup name

/-- `has`. -/
def has (name : Str) : Bool := (registry.get name).isSome

/-- `search_tools`: the tools that are found, in the order of the registry. -/
def searchTools (query : Str) (limit : ℤ) (role : Str) : List BaseTool :=
  (registry.values.filter fun t =>
    t.VisibleTo role && t.Matches (Runtime.lowerAll (strip query))).take (max 1 limit).toNat

/-- `to_openai_schemas`. -/
def toOpenaiSchemas (role : Str) : List ToolSchema :=
  (registry.values.filter fun t => t.VisibleTo role).map BaseTool.openaiSchema

/-- The registry has a tool under the name that the role does not see. -/
def Hides (role name : Str) : Prop := ∃ t, registry.get name = some t ∧ ¬ t.VisibleTo role

end ToolRegistry

/-! ### Searching -/

/-- The arguments of a search: the query as a text, and the limit, `8` if it is not there or is no
number. -/
def searchQuery (str : Json → Str) (args : List (Str × Json)) : Str × ℤ :=
  (((args.lookup "query".toList).map str).getD [],
    max 1 (((args.lookup "limit".toList).bind pyInt).getD 8))

def searchAs (role : Str) (str : Json → Str) (registry : ToolRegistry)
    (args : List (Str × Json)) : List BaseTool :=
  registry.searchTools (searchQuery str args).1 (searchQuery str args).2 role

/-- The tools that `ToolSearchTool.execute` finds: it searches without a role. -/
def toolSearch : (Json → Str) → ToolRegistry → List (Str × Json) → List BaseTool :=
  searchAs "all"

namespace ToolRegistry

variable {registry : ToolRegistry} {role : Str}

theorem get_eq_some_iff {name : Str} {t : BaseTool} :
    registry.get name = some t ↔ (name, t) ∈ registry.tools :=
  ⟨mem_of_lookup, lookup_of_mem registry.nodup⟩

theorem name_of_get {name : Str} {t : BaseTool} (h : registry.get name = some t) : t.name = name :=
  registry.named _ (get_eq_some_iff.mp h)

theorem mem_values_iff {t : BaseTool} : t ∈ registry.values ↔ registry.get t.name = some t := by
  rw [values, List.mem_map, get_eq_some_iff]
  constructor
  · rintro ⟨⟨name, t⟩, h, rfl⟩
    rwa [show t.name = name from registry.named _ h]
  · exact fun h => ⟨_, h, rfl⟩

theorem mem_toOpenaiSchemas {schema : ToolSchema} :
    schema ∈ registry.toOpenaiSchemas role ↔
      ∃ t, registry.get t.name = some t ∧ t.VisibleTo role ∧ t.openaiSchema = schema := by
  simp only [toOpenaiSchemas, List.mem_map, List.mem_filter, mem_values_iff, decide_eq_true_eq,
    and_assoc]

theorem visibleTo_all (t : BaseTool) : t.VisibleTo "all" := .inl rfl

theorem visibleTo_of_mem_searchTools {query : Str} {limit : ℤ} {t : BaseTool}
    (h : t ∈ registry.searchTools query limit role) : t.VisibleTo role := by
  have hfilter := (List.mem_filter.mp (List.mem_of_mem_take h)).2
  simp only [Bool.and_eq_true, decide_eq_true_eq] at hfilter
  exact hfilter.1

private theorem take_filter_eq {α : Type} {p q : α → Bool} {n : ℕ} {xs : List α}
    (h : ∀ x ∈ (xs.filter p).take n, q x = true) :
    (xs.filter fun x => q x && p x).take n = (xs.filter p).take n := by
  induction xs generalizing n with
  | nil => rfl
  | cons x xs ih =>
    cases n with
    | zero => simp
    | succ n =>
      cases hp : p x with
      | false =>
        rw [List.filter_cons_of_neg (by simp [hp])] at h ⊢
        rw [List.filter_cons_of_neg (by simp [hp])]
        exact ih h
      | true =>
        rw [List.filter_cons_of_pos hp, List.take_succ_cons] at h ⊢
        have hq := h x List.mem_cons_self
        rw [List.filter_cons_of_pos (by simp [hp, hq]), List.take_succ_cons,
          ih fun y hy => h y (List.mem_cons_of_mem x hy)]

/-- **Searching without a role.** It finds only tools that a role sees if and only if it finds what
a search with this role finds. -/
theorem searchTools_eq_iff {query : Str} {limit : ℤ} :
    (∀ t ∈ registry.searchTools query limit "all", t.VisibleTo role) ↔
      registry.searchTools query limit role = registry.searchTools query limit "all" := by
  constructor
  · intro h
    have hall (t : BaseTool) : (decide (t.VisibleTo "all") &&
        decide (t.Matches (Runtime.lowerAll (strip query)))) =
          decide (t.Matches (Runtime.lowerAll (strip query))) := by
      rw [decide_eq_true (visibleTo_all t), Bool.true_and]
    simp only [searchTools, hall] at h ⊢
    exact take_filter_eq fun t ht => decide_eq_true (h t ht)
  · intro h t ht
    rw [← h] at ht
    exact visibleTo_of_mem_searchTools ht

end ToolRegistry

/-- `tool_search` finds only tools that a role sees if and only if it finds what a search with this
role finds. -/
theorem searchAs_eq_iff {role : Str} {str : Json → Str} {registry : ToolRegistry}
    {args : List (Str × Json)} :
    (∀ t ∈ toolSearch str registry args, t.VisibleTo role) ↔
      searchAs role str registry args = toolSearch str registry args :=
  ToolRegistry.searchTools_eq_iff

end AgentStudio.Tools

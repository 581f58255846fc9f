import AgentStudio.Execution.Tools

/-!
# The arguments of a tool

What becomes of the arguments of an admitted call before `tool.execute(**kwargs)`.
`_validate_tool_args` (`agent_runtime/_runtime_dynamic_tools.py`) drops an argument that the schema
of the tool does not have, coerces the others to their types and fills in the defaults of the
schema; `_merge_tool_config_defaults` (`agent_runtime/runtime.py`) then puts the arguments over the
configuration of the tool. The configuration is that of the context, if a context is given and has
one for the tool, and else that of the runtime.

`lookup_mergeToolConfigDefaults` computes what a tool finds under a name: its argument, or else what
the configuration has (`Configs.of`). It rests on the arguments having distinct names
(`nodup_validateToolArgs`). A default of the schema is filled in before the configuration is
merged, so it hides the configured value; `precedes_passedArgs_iff` says when it does not.
-/

namespace AgentStudio.Execution

open PyText PyJson PyDict

/-! ### Validation -/

/-- Python's conversions of a value: `str(value)` of a value that is no text, `float(value)` and
`int(value)`, if they raise nothing, and the text of the exception that `value.get` raises for a
value that is no dictionary. -/
structure Coercions where
  text : Json → Str
  float : Json → Option Json
  int : Json → Option Json
  noGet : Json → Str

/-- A value under the type that a schema expects; one that cannot be coerced stays. -/
def Coercions.coerce (conv : Coercions) (expected : Option Str) (value : Json) : Json :=
  if expected = some "string".toList then
    match value with
    | .str s => .str s
    | value => .str (conv.text value)
  else if expected = some "number".toList then
    match value with
    | .num n => .num n
    | .bool b => .bool b
    | value => (conv.float value).getD value
  else if expected = some "integer".toList then
    match value with
    | .bool b => .bool b
    | .num n => if n.scale = 0 then .num n else (conv.int (.num n)).getD (.num n)
    | value => (conv.int value).getD value
  else if expected = some "boolean".toList then .bool value.truthy
  else value

def expectedType (prop : List (Str × Json)) : Option Str :=
  decodeStr ((prop.lookup "type".toList).getD (.str []))

/-- An argument is validated: one that the schema does not have is dropped. -/
def validateArg (conv : Coercions) (schema : List (Str × Json)) (validated : List (Str × Json))
    (m : Str × Json) : Except Str (List (Str × Json)) :=
  match schema.lookup m.1 with
  | none => .ok validated
  | some (.obj prop) => .ok (setItem m.1 (conv.coerce (expectedType prop) m.2) validated)
  | some prop => .error (conv.noGet prop)

/-- A property of a schema that has a default fills in an argument that is missing. -/
def fillDefault (validated : List (Str × Json)) (p : Str × Json) : List (Str × Json) :=
  match p.2 with
  | .obj prop =>
    match prop.lookup "default".toList, validated.lookup p.1 with
    | some value, none => setItem p.1 value validated
    | _, _ => validated
  | _ => validated

/-- `_validate_tool_args`, or the text of an exception. -/
def validateToolArgs (conv : Coercions) (schema args : List (Str × Json)) :
    Except Str (List (Str × Json)) :=
  if schema.isEmpty then .ok args
  else (args.foldlM (validateArg conv schema) []).map fun validated =>
    schema.foldl fillDefault validated

variable {validated args schema : List (Str × Json)} {conv : Coercions}

private theorem nodup_validateArgs {start : List (Str × Json)} (hstart : (start.map Prod.fst).Nodup)
    (h : args.foldlM (validateArg conv schema) start = .ok validated) :
    (validated.map Prod.fst).Nodup := by
  induction args generalizing start with
  | nil => exact Except.ok.inj h ▸ hstart
  | cons m ms ih =>
    rw [List.foldlM_cons] at h
    cases hstep : validateArg conv schema start m with
    | error text =>
      rw [hstep] at h
      exact absurd h (by simp [bind, Except.bind])
    | ok next =>
      rw [hstep] at h
      refine ih ?_ h
      rw [validateArg] at hstep
      split at hstep
      · exact Except.ok.inj hstep ▸ hstart
      · exact Except.ok.inj hstep ▸ nodup_setItem hstart
      · exact absurd hstep (by simp)

private theorem nodup_fillDefaults (schema : List (Str × Json))
    (h : (validated.map Prod.fst).Nodup) :
    ((schema.foldl fillDefault validated).map Prod.fst).Nodup := by
  induction schema generalizing validated with
  | nil => exact h
  | cons p ps ih =>
    refine ih ?_
    rw [fillDefault]
    split
    · split
      · exact nodup_setItem h
      · exact h
    · exact h

private theorem exists_checked (hschema : schema ≠ [])
    (h : validateToolArgs conv schema args = .ok validated) :
    ∃ checked, args.foldlM (validateArg conv schema) [] = .ok checked ∧
      schema.foldl fillDefault checked = validated := by
  rw [validateToolArgs, if_neg (by simpa using hschema)] at h
  cases hfold : args.foldlM (validateArg conv schema) [] with
  | error text =>
    rw [hfold] at h
    exact absurd h (by simp [Except.map])
  | ok checked =>
    rw [hfold] at h
    exact ⟨checked, rfl, Except.ok.inj h⟩

theorem nodup_validateToolArgs (hargs : (args.map Prod.fst).Nodup)
    (h : validateToolArgs conv schema args = .ok validated) : (validated.map Prod.fst).Nodup := by
  by_cases hschema : schema = []
  · subst hschema
    exact Except.ok.inj h ▸ hargs
  · obtain ⟨checked, hfold, rfl⟩ := exists_checked hschema h
    exact nodup_fillDefaults schema (nodup_validateArgs (by simp) hfold)

private theorem lookup_validateArgs {key : Str} {prop : List (Str × Json)}
    (hschema : schema.lookup key = some (.obj prop)) (hargs : (args.map Prod.fst).Nodup)
    {start : List (Str × Json)} (h : args.foldlM (validateArg conv schema) start = .ok validated) :
    validated.lookup key =
      ((args.lookup key).map (conv.coerce (expectedType prop))).or (start.lookup key) := by
  induction args generalizing start with
  | nil => exact Except.ok.inj h ▸ rfl
  | cons m ms ih =>
    rw [List.map_cons, List.nodup_cons] at hargs
    rw [List.foldlM_cons] at h
    cases hstep : validateArg conv schema start m with
    | error text =>
      rw [hstep] at h
      exact absurd h (by simp [bind, Except.bind])
    | ok next =>
      rw [hstep] at h
      rw [ih hargs.2 h]
      obtain ⟨name, value⟩ := m
      by_cases hkey : key = name
      · subst hkey
        -- the other arguments have other names
        rw [lookup_eq_none hargs.1, List.lookup_cons, beq_self_eq_true]
        rw [validateArg, hschema] at hstep
        rw [← Except.ok.inj hstep, lookup_setItem, if_pos rfl]
        rfl
      · rw [List.lookup_cons, beq_false_of_ne hkey]
        congr 1
        rw [validateArg] at hstep
        split at hstep
        · rw [Except.ok.inj hstep]
        · rw [← Except.ok.inj hstep, lookup_setItem, if_neg hkey]
        · exact absurd hstep (by simp)

def schemaDefault : Json → Option Json
  | .obj prop => prop.lookup "default".toList
  | _ => none

private theorem lookup_fillDefault (p : Str × Json) (key : Str) :
    (fillDefault validated p).lookup key =
      (validated.lookup key).or (if key = p.1 then schemaDefault p.2 else none) := by
  obtain ⟨name, prop⟩ := p
  cases prop with
  | obj prop =>
    simp only [fillDefault, schemaDefault]
    generalize prop.lookup "default".toList = default
    by_cases hkey : key = name
    · subst hkey
      cases default <;> cases hname : validated.lookup key <;> simp [hname]
    · cases default <;> cases validated.lookup name <;> simp [hkey]
  | _ => simp [fillDefault, schemaDefault]

private theorem lookup_fillDefaults (schema : List (Str × Json)) {key : Str} {value : Json}
    (h : validated.lookup key = some value) :
    (schema.foldl fillDefault validated).lookup key = some value := by
  induction schema generalizing validated with
  | nil => exact h
  | cons p ps ih => exact ih (by rw [lookup_fillDefault, h, Option.some_or])

private theorem lookup_fillDefaults_eq (hschema : (schema.map Prod.fst).Nodup) (key : Str) :
    (schema.foldl fillDefault validated).lookup key =
      (validated.lookup key).or ((schema.lookup key).bind schemaDefault) := by
  induction schema generalizing validated with
  | nil => exact (Option.or_none).symm
  | cons p ps ih =>
    obtain ⟨name, prop⟩ := p
    rw [List.map_cons, List.nodup_cons] at hschema
    rw [List.foldl_cons, ih hschema.2, lookup_fillDefault, List.lookup_cons, Option.or_assoc]
    by_cases hkey : key = name
    · subst hkey
      rw [lookup_eq_none hschema.1, beq_self_eq_true, if_pos rfl, Option.bind_none, Option.or_none]
      rfl
    · rw [beq_false_of_ne hkey, if_neg hkey, Option.none_or]

theorem lookup_validateToolArgs {key : Str} {prop : List (Str × Json)}
    (hschema : schema.lookup key = some (.obj prop)) (hargs : (args.map Prod.fst).Nodup)
    (h : validateToolArgs conv schema args = .ok validated) {value : Json}
    (hvalue : args.lookup key = some value) :
    validated.lookup key = some (conv.coerce (expectedType prop) value) := by
  obtain ⟨checked, hfold, rfl⟩ := exists_checked (by rintro rfl; simp at hschema) h
  refine lookup_fillDefaults schema ?_
  rw [lookup_validateArgs hschema hargs hfold, hvalue]
  rfl

/-! ### Configurations -/

/-- The configurations of tools, from the names of the tools. -/
abbrev Configs : Type := List (Str × List (Str × Json))

/-- The configuration of a tool: that of the context, or else that of the runtime. An empty
dictionary of the context has none, as one that does not name the tool. -/
def Configs.of (runtime : Configs) (ctx : Option Configs) (toolName : Str) : List (Str × Json) :=
  ((ctx.bind fun perExec => perExec.lookup toolName).or (runtime.lookup toolName)).getD []

/-- `_merge_tool_config_defaults`. -/
def mergeToolConfigDefaults (runtime : Configs) (ctx : Option Configs) (toolName : Str)
    (args : List (Str × Json)) : List (Str × Json) :=
  let cfg := runtime.of ctx toolName
  if cfg.isEmpty then args else updateWith cfg args

theorem lookup_mergeToolConfigDefaults (runtime : Configs) (ctx : Option Configs) (toolName : Str)
    (hargs : (args.map Prod.fst).Nodup) (name : Str) :
    (mergeToolConfigDefaults runtime ctx toolName args).lookup name =
      (args.lookup name).or ((runtime.of ctx toolName).lookup name) := by
  rw [mergeToolConfigDefaults]
  split_ifs with hempty
  · rw [List.isEmpty_iff.mp hempty, List.lookup_nil, Option.or_none]
  · exact lookup_updateWith hargs _ _

/-! ### Precedence -/

/-- Where the arguments of a tool call of an answer are passed to `tool.execute`: call by call, in
parallel calls, or in a self-repair. -/
inductive ArgSite where
  | inTurn
  | parallel
  | selfRepair
deriving DecidableEq

/-- The configuration that is merged: parallel calls do without the context, and a self-repair does
without a configuration. -/
def ArgSite.config (runtime perExec : Configs) (toolName : Str) : ArgSite → List (Str × Json)
  | .inTurn => runtime.of (some perExec) toolName
  | .parallel => runtime.of none toolName
  | .selfRepair => []

/-- The arguments that `tool.execute` gets. -/
def passedArgs (conv : Coercions) (runtime perExec : Configs) (site : ArgSite) (toolName : Str)
    (schema args : Dict) : Except Str (List (Str × Json)) :=
  (validateToolArgs conv schema.members args.members).map fun validated =>
    match site with
    | .inTurn => mergeToolConfigDefaults runtime (some perExec) toolName validated
    | .parallel => mergeToolConfigDefaults runtime none toolName validated
    | .selfRepair => validated

/-- What a parameter of the schema should be: the argument of the caller under its type, else the
value that the agent declares in the configuration of the tool, else the default. -/
def Precedes (conv : Coercions) (declared : List (Str × Json)) (schema args : Dict)
    (passed : List (Str × Json)) : Prop :=
  ∀ key prop, schema.members.lookup key = some (.obj prop) →
    passed.lookup key = ((args.members.lookup key).map (conv.coerce (expectedType prop))).or
      ((declared.lookup key).or (prop.lookup "default".toList))

theorem lookup_passedArgs {runtime perExec : Configs} {site : ArgSite} {toolName : Str}
    {schema args : Dict} {passed : List (Str × Json)}
    (h : passedArgs conv runtime perExec site toolName schema args = .ok passed) {key : Str}
    {prop : List (Str × Json)} (hprop : schema.members.lookup key = some (.obj prop)) :
    passed.lookup key = ((args.members.lookup key).map (conv.coerce (expectedType prop))).or
      ((prop.lookup "default".toList).or ((site.config runtime perExec toolName).lookup key)) := by
  rw [passedArgs] at h
  cases hvalid : validateToolArgs conv schema.members args.members with
  | error text =>
    rw [hvalid] at h
    exact absurd h (by simp [Except.map])
  | ok validated =>
    have hlookup : validated.lookup key =
        ((args.members.lookup key).map (conv.coerce (expectedType prop))).or
          (prop.lookup "default".toList) := by
      obtain ⟨checked, hfold, rfl⟩ := exists_checked
        (fun hempty => absurd hprop (by rw [hempty]; simp)) hvalid
      rw [lookup_fillDefaults_eq schema.nodup, lookup_validateArgs hprop args.nodup hfold, hprop,
        List.lookup_nil, Option.or_none]
      rfl
    rw [hvalid] at h
    have hnodup := nodup_validateToolArgs args.nodup hvalid
    rw [← Option.or_assoc, ← hlookup, ← Except.ok.inj h]
    cases site with
    | inTurn | parallel => exact lookup_mergeToolConfigDefaults _ _ _ hnodup key
    | selfRepair => exact (Option.or_none).symm

/-- **Precedence.** The parameters are what they should be exactly if, for every parameter that the
caller leaves out, the agent declares nothing but the default where there is one, and the
configuration that is merged agrees with the declared one where there is none. -/
theorem precedes_passedArgs_iff {runtime perExec : Configs} {site : ArgSite} {toolName : Str}
    {schema args : Dict} {passed : List (Str × Json)}
    (h : passedArgs conv runtime perExec site toolName schema args = .ok passed) :
    Precedes conv (runtime.of (some perExec) toolName) schema args passed ↔
      ∀ key prop, schema.members.lookup key = some (.obj prop) → args.members.lookup key = none →
        (∀ value, prop.lookup "default".toList = some value →
          ∀ declared, (runtime.of (some perExec) toolName).lookup key = some declared →
            declared = value) ∧
        (prop.lookup "default".toList = none → (site.config runtime perExec toolName).lookup key =
          (runtime.of (some perExec) toolName).lookup key) := by
  refine forall₂_congr fun key prop => forall_congr' fun hprop => ?_
  rw [lookup_passedArgs h hprop]
  cases hgiven : args.members.lookup key with
  | some value => simp
  | none =>
    cases prop.lookup "default".toList <;> cases (runtime.of (some perExec) toolName).lookup key <;>
      simp [eq_comm]

/-- A tool that shows as many lines as it is told, and else ten. -/
def limited : Dict :=
  ⟨[("limit", .obj [("default", .num 10)])], by decide, by simp [Json.WF, membersWF]⟩

def plainCoercions : Coercions := ⟨fun _ => [], some, some, fun _ => []⟩

/-- `precedes_passedArgs_iff` for a call without arguments and an agent that declares nothing. -/
theorem precedes_passedArgs_limited :
    Precedes plainCoercions (Configs.of [] (some []) "show") limited .empty
      [("limit", .num 10)] := by
  have hpassed : passedArgs plainCoercions [] [] .inTurn "show" limited .empty =
      .ok [("limit", .num 10)] := rfl
  exact (precedes_passedArgs_iff hpassed).mpr fun _ _ _ _ =>
    ⟨fun _ _ _ h => absurd h (by simp [Configs.of]), fun _ => rfl⟩

/-- The limit that an agent declares is lost: the default of the tool has been filled in. -/
theorem not_precedes_passedArgs : ¬ ∀ (conv : Coercions) (runtime perExec : Configs)
    (site : ArgSite) (toolName : Str) (schema args : Dict) (passed : List (Str × Json)),
    passedArgs conv runtime perExec site toolName schema args = .ok passed →
      Precedes conv (runtime.of (some perExec) toolName) schema args passed := by
  intro h
  have hlimit : some (Json.num 10) = some (.num 20) :=
    h plainCoercions [] [("show", [("limit", .num 20)])] .inTurn "show" limited .empty
      [("limit", .num 10)] rfl "limit" [("default", .num 10)] rfl
  exact absurd (Json.num.inj (Option.some.inj hlimit)) (by decide)

end AgentStudio.Execution

import AgentStudio.Runtime.Approval

/-!
# The persona gate

`agent_runtime/persona_gate.py`. The declarations of a persona are its rules, its memory scope and
its skills. Of the rules those count that read `allow`, `deny` or `ask` with a pattern for tools
(`parseRule`); they go to a permission engine, of which only a denial is looked at. A memory scope
is written into the arguments of the tools in `memoryScopeTools`. `admitPersona` is what
`PersonaScopedFunnel.admit` does before it goes on to the funnel.

The engine is part of another package, so `Harness` has it as a function.
-/

namespace AgentStudio.Personas

open PyText PyJson PyDict

/-! ### Declarations -/

structure Declarations where
  rules : List Str := []
  memoryScope : Str := []
  skills : List Str := []

def Declarations.declares (d : Declarations) : Bool :=
  d.rules ≠ [] ∨ d.memoryScope ≠ [] ∨ d.skills ≠ []

/-- A character under `re.IGNORECASE`, as far as it matches an ASCII letter. -/
def foldCase (c : Char) : Char :=
  if c.toNat = 0x17F then 's' else if c.toNat = 0x212A then 'k' else c.toLower

def ruleWords : List Str := ["allow", "deny", "ask"]

/-- The word that a fragment begins with, and what follows it. -/
def ruleWord (fragment : Str) : Option (Str × Str) :=
  ruleWords.findSome? fun word =>
    if (fragment.take word.length).map foldCase = word then
      some (fragment.splitAt word.length)
    else none

/-- The pattern that follows the word: after a colon or a blank, on one line. Where nothing follows
the colon, the colon itself is the pattern if there is a blank before it. -/
def ruleTool (s : Str) : Option Str :=
  let rest := lstrip s
  let tool :=
    match rest with
    | ':' :: t => if lstrip t = [] ∧ rest ≠ s then rest else lstrip t
    | rest => if rest = s then [] else rest
  if tool = [] ∨ '\n' ∈ tool then none else some tool

/-- `_RULE_RE` on a fragment without blanks around it: the action and the pattern. -/
def parseRule (fragment : Str) : Option (Str × Str) :=
  (ruleWord fragment).bind fun w => (ruleTool w.2).map fun tool => (Runtime.lowerAll w.1, tool)

/-- The rules that are structured; the others are for the prompt. -/
def Declarations.structured (d : Declarations) : List (Str × Str) :=
  (d.rules.map strip).filterMap parseRule

/-- A rule with a colon, one with a blank, and one for the prompt. -/
example : (Declarations.structured
    { rules := [" Deny: terminal ", "allow file_.*", "be brief"] }) =
      [("deny".toList, "terminal".toList), ("allow".toList, "file_.*".toList)] := by decide

/-! ### The gate -/

/-- `PermissionEngine`: the reason of a denial. -/
abbrev PermissionEngine : Type := Str → List (Str × Json) → Option Str

/-- What the gate gets from outside: the engine for some rules, unless one of them is refused with
an exception, and `str` of a value. -/
structure Harness where
  engine : List (Str × Str) → Option PermissionEngine
  str : Json → Str

/-- `MEMORY_SCOPE_TOOLS`. -/
def memoryScopeTools : List Str := ["memory_read", "memory_write"]

/-- `PersonaGate`. -/
structure PersonaGate where
  memoryScope : Str := []
  skills : List Str := []
  engine : Option PermissionEngine := none

/-- `str(args.get(key, "") or "")`. -/
def textArg (str : Json → Str) (args : List (Str × Json)) (key : Str) : Str :=
  (((args.lookup key).filter Json.truthy).map str).getD []

namespace PersonaGate

/-- `PersonaGate.__init__`. -/
def of (harness : Harness) (d : Declarations) : Option PersonaGate :=
  let gate : PersonaGate :=
    { memoryScope := strip d.memoryScope, skills := (d.skills.map strip).filter (· ≠ []) }
  if d.structured = [] then some gate
  else (harness.engine d.structured).map fun engine => { gate with engine := some engine }

variable (gate : PersonaGate)

/-- `active`. -/
def active : Bool := gate.memoryScope ≠ [] ∨ gate.skills ≠ [] ∨ gate.engine.isSome

/-- The reason for which the engine denies a call. -/
def denial (toolName : Str) (args : List (Str × Json)) : Option Str :=
  gate.engine.bind fun engine => engine toolName args

/-- `apply`: the arguments that are left, or the reason of a denial. -/
def apply (str : Json → Str) (toolName : Str) (args : List (Str × Json)) :
    Except Str (List (Str × Json)) :=
  match gate.denial toolName args with
  | some reason => .error (Runtime.orText reason "persona rule denied")
  | none =>
    if toolName ∈ memoryScopeTools ∧ gate.memoryScope ≠ [] ∧
        textArg str args "scope" ≠ gate.memoryScope then
      .ok (setItem "scope" (.str gate.memoryScope) args)
    else .ok args

/-- The gate lets every call pass as it is. -/
structure Open : Prop where
  memoryScope : gate.memoryScope = []
  denial : ∀ toolName args, gate.denial toolName args = none

end PersonaGate

/-- `_persona_gate_for`: declarations for which no gate can be built, and those that make no
difference, have none. -/
def personaGateFor (harness : Harness) (d : Declarations) : Option PersonaGate :=
  (PersonaGate.of harness d).filter PersonaGate.active

/-- The persona's part of `PersonaScopedFunnel.admit`. -/
def admitPersona (harness : Harness) (d : Declarations) (toolName : Str)
    (args : List (Str × Json)) : Except Str (List (Str × Json)) :=
  match personaGateFor harness d with
  | none => .ok args
  | some gate => gate.apply harness.str toolName args

/-! ### What the gate does -/

section

variable {gate : PersonaGate} {str : Json → Str} {toolName : Str} {args : List (Str × Json)}

theorem PersonaGate.apply_of_denial {reason : Str} (h : gate.denial toolName args = some reason) :
    gate.apply str toolName args = .error (Runtime.orText reason "persona rule denied") := by
  rw [PersonaGate.apply, h]

theorem PersonaGate.apply_of_not_denied (h : gate.denial toolName args = none) :
    gate.apply str toolName args =
      if toolName ∈ memoryScopeTools ∧ gate.memoryScope ≠ [] ∧
          textArg str args "scope" ≠ gate.memoryScope then
        .ok (setItem "scope" (.str gate.memoryScope) args)
      else .ok args := by
  rw [PersonaGate.apply, h]

theorem textArg_setItem {key value : Str} (hvalue : value ≠ []) (hstr : str (.str value) = value) :
    textArg str (setItem key (.str value) args) key = value := by
  rw [textArg, lookup_setItem, if_pos rfl, Option.filter_some,
    if_pos (by simp [Json.truthy, hvalue])]
  exact hstr

theorem PersonaGate.scope_of_apply {args' : List (Str × Json)} (hscope : gate.memoryScope ≠ [])
    (hstr : str (.str gate.memoryScope) = gate.memoryScope) (htool : toolName ∈ memoryScopeTools)
    (h : gate.apply str toolName args = .ok args') :
    textArg str args' "scope" = gate.memoryScope := by
  cases hdenial : gate.denial toolName args with
  | some reason => exact absurd (apply_of_denial hdenial ▸ h) (by simp)
  | none =>
    rw [apply_of_not_denied hdenial] at h
    split_ifs at h with hset
    · rw [← Except.ok.inj h]
      exact textArg_setItem hscope hstr
    · rw [← Except.ok.inj h]
      by_contra hne
      exact hset ⟨htool, hscope, hne⟩

theorem PersonaGate.open_iff :
    gate.Open ↔ ∀ toolName args, gate.apply str toolName args = .ok args := by
  constructor
  · intro hopen toolName args
    rw [apply_of_not_denied (hopen.denial toolName args),
      if_neg fun hset => hset.2.1 hopen.memoryScope]
  · intro h
    have hdenial : ∀ toolName args, gate.denial toolName args = none := by
      intro toolName args
      cases hdenial : gate.denial toolName args with
      | none => rfl
      | some reason => exact absurd (apply_of_denial hdenial ▸ h toolName args) (by simp)
    refine ⟨?_, hdenial⟩
    by_contra hscope
    have hset := h "memory_read" []
    rw [apply_of_not_denied (hdenial _ _),
      if_pos ⟨by decide, hscope, fun heq => hscope heq.symm⟩] at hset
    exact absurd (Except.ok.inj hset) (List.cons_ne_nil _ _)

end

theorem admitPersona_eq_ok_iff {harness : Harness} {d : Declarations} :
    (∀ toolName args, admitPersona harness d toolName args = .ok args) ↔
      ∀ gate, personaGateFor harness d = some gate → gate.Open := by
  cases hgate : personaGateFor harness d with
  | none =>
    refine iff_of_true (fun toolName args => ?_) fun gate h => absurd h (by simp)
    rw [admitPersona, hgate]
  | some gate =>
    have hadmits : ∀ toolName args,
        admitPersona harness d toolName args = gate.apply harness.str toolName args := by
      intro toolName args
      rw [admitPersona, hgate]
    simp only [hadmits, Option.some.injEq, forall_eq']
    exact PersonaGate.open_iff.symm

end AgentStudio.Personas

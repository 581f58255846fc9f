import AgentStudio.Conditions.Written

/-!
# Interpolation before parsing

`_execute_condition_node` of `agent_runtime/_runtime_nodes.py` puts the values of the variables into
the text of a condition (`VariableManager.interpolate`), and only then has the engine evaluate it.
`Written` is a condition made of comparisons `x op {{v}}` as it is written, with the blanks and the
case of its keywords.

The text of a condition becomes the same text with the values in the places of the variables, and
nothing else changes (`interpolate_template`).
-/

namespace AgentStudio.Conditions

open PyText PyJson AgentStudio.Execution
open AgentStudio.Runtime (lowerAll isWord)

variable {N : Type} (b : Builtins N)

/-! ### `interpolate` -/

def interpolatedText : Option Json → Str
  | none => []
  | some (.str s) => s
  | some (.num n) => b.strNumber (b.ofNumber n)
  | some v => dumps none v

/-- The shortest text before two closing braces, in one line. -/
def scanName : Str → Option Str
  | [] => none
  | c :: s =>
    if c = '\n' then none
    else if "\x7d\x7d".toList.isPrefixOf s then some [c]
    else (scanName s).map (c :: ·)

/-- The match of `\{\{(.+?)\}\}` at the start of a text. -/
def placeholder (s : Str) : Option Str :=
  if "\x7b\x7b".toList.isPrefixOf s then scanName (s.drop 2) else none

/-- A text with the values of the variables, after some characters that are passed over. -/
def interpolateFrom (vars : Vars) : ℕ → Str → Str
  | _, [] => []
  | n + 1, _ :: s => interpolateFrom vars n s
  | 0, c :: s =>
    match placeholder (c :: s) with
    | none => c :: interpolateFrom vars 0 s
    | some name =>
      interpolatedText b (vars.get (strip name)) ++ interpolateFrom vars (name.length + 3) s

/-- `VariableManager.interpolate`. -/
def interpolate (vars : Vars) (template : Str) : Str := interpolateFrom b vars 0 template

/-- `_execute_condition_node`; an evaluation without end is an exception. -/
def executeConditionNode (ctx : AgentContext) (vars : Vars) (conditionExpr : Str) : Str :=
  let expr := interpolate b vars conditionExpr
  (evaluate b ctx vars (expr.length + 1) expr).getD (boolText false)

variable {b} {vars : Vars}

theorem interpolateFrom_eq_drop (n : ℕ) (s : Str) :
    interpolateFrom b vars n s = interpolate b vars (s.drop n) := by
  induction s generalizing n with
  | nil => simp [interpolate, interpolateFrom]
  | cons c s ih =>
    cases n with
    | zero => rfl
    | succ n => exact ih n

theorem interpolate_cons {c : Char} {s : Str} (hc : c ≠ '{') :
    interpolate b vars (c :: s) = c :: interpolate b vars s := by
  have hnone : placeholder (c :: s) = none := by
    have hne : '{' ≠ c := Ne.symm hc
    simp [placeholder, hne]
  rw [interpolate, interpolateFrom, hnone]
  rfl

theorem interpolate_append {s t : Str} (hs : ∀ c ∈ s, c ≠ '{') :
    interpolate b vars (s ++ t) = s ++ interpolate b vars t := by
  induction s with
  | nil => rfl
  | cons c s ih =>
    rw [List.cons_append, interpolate_cons (hs c List.mem_cons_self),
      ih fun d hd => hs d (List.mem_cons_of_mem c hd), List.cons_append]

theorem scanName_append {inner t : Str} (hnil : inner ≠ [])
    (hinner : ∀ c ∈ inner, c ≠ '}' ∧ c ≠ '\n') :
    scanName (inner ++ ("\x7d\x7d" ++ t)) = some inner := by
  induction inner with
  | nil => exact absurd rfl hnil
  | cons c inner ih =>
    rw [List.cons_append, scanName, if_neg (hinner c List.mem_cons_self).2]
    cases inner with
    | nil => simp
    | cons d inner =>
      have hd : '}' ≠ d := ((hinner d (by simp)).1).symm
      have hprefixed : "\x7d\x7d".toList.isPrefixOf (d :: inner ++ ("\x7d\x7d" ++ t)) = false := by
        refine eq_false_of_ne_true fun h => hd ?_
        exact (List.cons_prefix_cons.mp (List.isPrefixOf_iff_prefix.mp h)).1
      rw [if_neg (ne_true_of_eq_false hprefixed),
        ih (List.cons_ne_nil d inner) fun x hx => hinner x (List.mem_cons_of_mem c hx)]
      rfl

theorem interpolate_braces {inner t : Str} (hnil : inner ≠ [])
    (hinner : ∀ c ∈ inner, c ≠ '}' ∧ c ≠ '\n') :
    interpolate b vars ("\x7b\x7b" ++ (inner ++ ("\x7d\x7d" ++ t))) =
      interpolatedText b (vars.get (strip inner)) ++ interpolate b vars t := by
  have hsome : placeholder ('{' :: '{' :: (inner ++ ("\x7d\x7d" ++ t))) = some inner := by
    simpa [placeholder] using scanName_append (t := t) hnil hinner
  change interpolateFrom b vars 0 ('{' :: '{' :: (inner ++ ("\x7d\x7d" ++ t))) = _
  rw [interpolateFrom, hsome]
  have hdrop : ('{' :: (inner ++ ("\x7d\x7d" ++ t))).drop (inner.length + 3) = t := by
    have hsplit : '{' :: (inner ++ ("\x7d\x7d" ++ t)) = ('{' :: inner ++ "\x7d\x7d") ++ t := by
      simp
    rw [hsplit]
    exact List.drop_left' (by simp)
  dsimp only
  rw [interpolateFrom_eq_drop, hdrop]

/-! ### Templates -/

def Comparison.braces (q : Comparison b) : Str := "\x7b\x7b" ++ (q.inner ++ "\x7d\x7d")

def Comparison.variable (q : Comparison b) : Str := strip q.inner

/-- The text of a condition, with its variables in braces. -/
def Written.template (e : Written b) : Str := e.text Comparison.braces

/-- The text that takes the place of the variable of a comparison. -/
def Comparison.filled (vars : Vars) (q : Comparison b) : Str :=
  interpolatedText b (vars.get q.variable)

/-- A text becomes another one, whatever follows. -/
def Becomes (b : Builtins N) (vars : Vars) (s s' : Str) : Prop :=
  ∀ t, interpolate b vars (s ++ t) = s' ++ interpolate b vars t

theorem Becomes.append {s s' t t' : Str} (hs : Becomes b vars s s') (ht : Becomes b vars t t') :
    Becomes b vars (s ++ t) (s' ++ t') := by
  intro u
  rw [List.append_assoc, hs, ht, List.append_assoc]

theorem becomes_self {s : Str} (hs : ∀ c ∈ s, c ≠ '{') : Becomes b vars s s :=
  fun _ => interpolate_append hs

theorem becomes_of_isBlank {s : Str} (hs : IsBlank s) : Becomes b vars s s := by
  refine becomes_self fun c hc => ?_
  rintro rfl
  exact absurd (hs _ hc) (by decide)

theorem becomes_of_lower {word w : Str} (hw : IsKeyword w) (h : word.map Char.toLower = w) :
    Becomes b vars word word := by
  refine becomes_self fun c hc => ?_
  rintro rfl
  have hletter := hw.letter _ (h ▸ List.mem_map_of_mem hc)
  exact absurd hletter (by decide)

theorem Comparison.becomes (q : Comparison b) :
    Becomes b vars (q.text q.braces) (q.text (q.filled vars)) := by
  have hname : Becomes b vars q.name q.name := by
    refine becomes_self fun c hc => ?_
    rintro rfl
    exact absurd (q.isWord_name _ hc) (by simp [isWord])
  have hop : Becomes b vars q.op.text q.op.text :=
    becomes_self (by cases q.op <;> exact forall_mem_of_all (by decide))
  have hbraces : Becomes b vars q.braces (q.filled vars) := by
    intro t
    have hreplace : interpolate b vars ("\x7b\x7b" ++ (q.inner ++ ("\x7d\x7d" ++ t))) =
        interpolatedText b (vars.get (strip q.inner)) ++ interpolate b vars t :=
      interpolate_braces q.inner_ne_nil
        fun c hc => ⟨(q.inner_plain c hc).2.1, (q.inner_plain c hc).2.2⟩
    simpa [Comparison.braces, Comparison.filled, Comparison.variable] using hreplace
  exact hname.append ((becomes_of_isBlank q.isBlank_blanks).append
    (hop.append ((becomes_of_isBlank q.isBlank_gap).append hbraces)))

theorem Operand.becomes (o : Operand b) :
    Becomes b vars (o.text Comparison.braces) (o.text (Comparison.filled vars)) := by
  rw [Operand.text, Operand.text]
  induction o.negations with
  | nil => exact o.comparison.becomes
  | cons n ns ih =>
    have hblank : IsBlank (' ' :: n.blanks) := by
      refine List.forall_mem_cons.mpr ⟨by decide, n.isBlank_blanks⟩
    exact ((becomes_of_lower Negation.isKeyword_not n.lower).append
      (becomes_of_isBlank hblank)).append ih

theorem IsSeparator.becomes {w sep : Str} (hw : IsKeyword w) (h : IsSeparator w sep) :
    Becomes b vars sep sep := by
  obtain ⟨before, word, after, rfl, hbefore, -, hword, hafter, -⟩ := h.exists_parts
  exact ((becomes_of_isBlank hbefore).append (becomes_of_lower hw hword)).append
    (becomes_of_isBlank hafter)

theorem Chain.becomes {w : Str} {α : Type} (hw : IsKeyword w) (c : Chain w α)
    {text text' : α → Str} (h : ∀ a, Becomes b vars (text a) (text' a)) :
    Becomes b vars (c.text text) (c.text text') := by
  obtain ⟨first, rest⟩ := c
  simp only [Chain.text]
  induction rest generalizing first with
  | nil => exact h first
  | cons p rest ih => exact (h first).append ((IsSeparator.becomes hw p.1.2).append (ih p.2))

/-- **Interpolation** puts a text in the place of every variable, and leaves the rest. -/
theorem interpolate_template (e : Written b) (vars : Vars) :
    interpolate b vars e.template = e.text (Comparison.filled vars) := by
  have hbecomes : Becomes b vars e.template (e.text (Comparison.filled vars)) :=
    ((becomes_of_isBlank e.isBlank_before).append
      (e.chain.becomes isKeyword_or fun c => c.becomes isKeyword_and Operand.becomes)).append
        (becomes_of_isBlank e.isBlank_after)
  have hend := hbecomes []
  rw [List.append_nil] at hend
  exact hend.trans (List.append_nil _)

end AgentStudio.Conditions

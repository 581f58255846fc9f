import AgentStudio.Execution.Context
import AgentStudio.Library.WordSplit

/-!
# The condition engine

`ConditionEngine` of `agent_runtime/_runtime_helpers.py`: `evaluate` decides by `re.search` whether
an expression has the word `or` or `and`, and calls itself on the parts between which the word
stands with blanks around it. The two do not agree: in `or`, in `x-or-y` and in `'a or' == b` the
word is there, and the expression is its own only part.

What the calls of `evaluate` are about is a tree, `parse`, in which such an expression is `never`.
`evaluate_eq` says that `evaluate` computes the value of this tree from left to right, and
`returns_iff` that it returns exactly if it does not come to a `never` on its way
(`Condition.Evaluable`).

What Python does with numbers, and with lists and dicts, is a parameter, `Builtins`.
-/

namespace AgentStudio.Conditions

open PyText PyJson AgentStudio.Execution
open AgentStudio.Runtime (lowerAll isWord)

/-! ### Values -/

/-- The operators of a comparison, in the order in which they are tried. -/
inductive Comparator where
  | ge
  | le
  | ne
  | eq
  | gt
  | lt
deriving DecidableEq

namespace Comparator

def all : List Comparator := [ge, le, ne, eq, gt, lt]

def text : Comparator → Str
  | ge => ">="
  | le => "<="
  | ne => "!="
  | eq => "=="
  | gt => ">"
  | lt => "<"

def texts : Comparator → Str → Str → Bool
  | ge, s, t => textLE t s
  | le, s, t => textLE s t
  | ne, s, t => s ≠ t
  | eq, s, t => s = t
  | gt, s, t => !textLE s t
  | lt, s, t => !textLE t s

end Comparator

/-- What is used of Python as it is: `str.isalnum`, `int` and `float` of a text, numbers with their
comparisons, the comparisons of lists, dicts and `None`, where a `TypeError` counts as `False`, and
`str` of a value. -/
structure Builtins (N : Type) where
  isAlnum : Char → Bool
  isAlnum_of_isSpace : ∀ c, isSpace c = true → isAlnum c = false
  int : Str → Option ℤ
  float : Str → Option N
  ofNumber : Number → N
  compareNumbers : Comparator → N → N → Bool
  compareOthers : Comparator → Json → Json → Bool
  strNumber : N → Str
  strOther : Json → Str

inductive Value (N : Type) where
  | bool (b : Bool)
  | num (n : N)
  | str (s : Str)
  | other (v : Json)

variable {N : Type} (b : Builtins N)

namespace Value

def ofJson : Json → Value N
  | .bool x => .bool x
  | .num n => .num (b.ofNumber n)
  | .str s => .str s
  | v => .other v

/-- A number, or a truth value, which counts as one. -/
def number : Value N → Option N
  | .bool x => some (b.ofNumber (if x then 1 else 0))
  | .num n => some n
  | _ => none

end Value

def boolOfText (s : Str) : Value N :=
  if lowerAll (strip s) = "true" then .bool true
  else if lowerAll (strip s) = "false" then .bool false
  else .str s

def numberOfText (s : Str) : Value N :=
  if '.' ∈ s then ((b.float s).map .num).getD (.str s)
  else ((b.int s).map fun i => .num (b.ofNumber (.ofInt i))).getD (.str s)

/-- `_coerce_pair`. -/
def coercePair : Value N → Value N → Value N × Value N
  | .bool x, .str s => (.bool x, boolOfText s)
  | .str s, .bool x => (boolOfText s, .bool x)
  | .num n, .str s => (.num n, numberOfText b s)
  | .str s, .num n => (numberOfText b s, .num n)
  | l, r => (l, r)

/-- What an operator says of two values; values of different types are different, and not in any
order. -/
def compareValues (op : Comparator) : Value N → Value N → Bool
  | .str s, .str t => op.texts s t
  | .other v, .other w => b.compareOthers op v w
  | l, r =>
    match l.number b, r.number b with
    | some m, some n => b.compareNumbers op m n
    | _, _ => op = .ne

/-- `_compare`. -/
def compare (op : Comparator) (left right : Value N) : Bool :=
  compareValues b op (coercePair b left right).1 (coercePair b left right).2

/-! ### Comparisons -/

inductive Literal (N : Type) where
  | var (name : Str)
  | const (v : Value N)

def inBraces (s : Str) : Bool := "\x7b\x7b".toList.isPrefixOf s && "\x7d\x7d".toList.isSuffixOf s

def startsQuoted (s : Str) : Bool := s.head?.any fun c => c = '"' || c = '\''

/-- What `_resolve_literal` makes of a text; a variable is looked up by `Literal.value`. -/
def literal (raw : Str) : Literal N :=
  let raw := strip raw
  if inBraces raw then .var (strip ((raw.drop 2).dropLast.dropLast))
  else if startsQuoted raw then .const (.str raw.tail.dropLast)
  else if lowerAll raw = "true" then .const (.bool true)
  else if lowerAll raw = "false" then .const (.bool false)
  else match b.int raw with
    | some i => .const (.num (b.ofNumber (.ofInt i)))
    | none =>
      match b.float raw with
      | some x => .const (.num x)
      | none => .const (.str raw)

/-- The value of a literal; a variable that is not there is `0`. -/
def Literal.value (vars : Vars) : Literal N → Value N
  | .var name => ((vars.get name).map (Value.ofJson b)).getD (.num (b.ofNumber 0))
  | .const v => v

/-- `_resolve_literal`. -/
def resolveLiteral (vars : Vars) (raw : Str) : Value N := (literal b raw).value b vars

/-- `_resolve_value`; a variable that is not there, or is `None`, is `0`. -/
def resolveValue (ctx : AgentContext) (vars : Vars) (name : Str) : Value N :=
  if name = "iteration" then .num (b.ofNumber (.ofInt ctx.iterationCount))
  else if name = "token_count" then .num (b.ofNumber (.ofInt ctx.tokenUsage.total))
  else if name = "prompt_tokens" then
    .num (b.ofNumber (.ofInt ctx.tokenUsage.promptTokens))
  else if name = "completion_tokens" then
    .num (b.ofNumber (.ofInt ctx.tokenUsage.completionTokens))
  else if name = "message_count" then .num (b.ofNumber (.ofInt ctx.messages.length))
  else if name = "error" then .str ctx.error
  else match vars.get name with
    | none | some .null => .num (b.ofNumber 0)
    | some v => .ofJson b v

/-- `str` of a value. -/
def Value.text : Value N → Str
  | .bool x => if x then "True" else "False"
  | .num n => b.strNumber n
  | .str s => s
  | .other v => b.strOther v

/-- An operator at the start of a text, with the rest of the line. -/
def operatorLine (rest : Str) (op : Comparator) : Option (Comparator × Str) :=
  if op.text.isPrefixOf rest then
    let raw := ((rest.drop op.text.length).dropWhile isSpace).takeWhile (· ≠ '\n')
    if raw = [] then none else some (op, raw)
  else none

/-- The match of `(\w+)\s*(>=|<=|!=|==|>|<)\s*(.+)` at the start of a stripped text. -/
def comparison (isAlnum : Char → Bool) (expr : Str) : Option (Str × Comparator × Str) :=
  let name := expr.takeWhile (isWord isAlnum)
  let rest := (expr.dropWhile (isWord isAlnum)).dropWhile isSpace
  if name = [] then none
  else (Comparator.all.findSome? (operatorLine rest)).map fun m => (name, m)

/-- What follows the closing quotation mark in `["\'](.+?)["\']\s+in\s+(\w+)`. -/
def haystackName (isAlnum : Char → Bool) : Str → Option Str
  | [] => none
  | q :: s =>
    let rest := s.dropWhile isSpace
    let name := ((rest.drop 2).dropWhile isSpace).takeWhile (isWord isAlnum)
    if startsQuoted [q] ∧ startsBlank s ∧ "in".toList.isPrefixOf rest ∧ startsBlank (rest.drop 2) ∧
        name ≠ [] then some name
    else none

/-- What follows the opening quotation mark: the shortest text, and the name. -/
def needleName (isAlnum : Char → Bool) : Str → Option (Str × Str)
  | [] => none
  | c :: s =>
    if c = '\n' then none
    else match haystackName isAlnum s with
      | some name => some ([c], name)
      | none => (needleName isAlnum s).map fun found => (c :: found.1, found.2)

/-- The match of `["\'](.+?)["\']\s+in\s+(\w+)` at the start of a text. -/
def containment (isAlnum : Char → Bool) (expr : Str) : Option (Str × Str) :=
  if startsQuoted expr then needleName isAlnum expr.tail else none

/-- What is left of `evaluate` for an expression without `or`, `and` and `not`. -/
def atom (ctx : AgentContext) (vars : Vars) (expr : Str) : Bool :=
  if lowerAll expr = "has_tool_calls" then
    ctx.messages.any fun m => !m.toolCalls.isEmpty
  else if lowerAll expr = "has_error" then ctx.error ≠ []
  else if lowerAll expr = "has_result" then ctx.messages.any fun m => m.role = .tool
  else match comparison b.isAlnum expr with
    | some (name, op, raw) =>
      compare b op (resolveValue b ctx vars name) (resolveLiteral b vars (strip raw))
    | none =>
      match containment b.isAlnum expr with
      | some (needle, name) => needle <:+: (resolveValue b ctx vars name).text b
      | none => ((vars.get expr).getD (.str [])).truthy

/-! ### Evaluation -/

def boolText (x : Bool) : Str := if x then "true" else "false"

/-- `re.search(r"\bw\b", s)`. -/
def hasWord (isAlnum : Char → Bool) (w s : Str) : Bool :=
  Runtime.search isAlnum [.boundary, .text [w], .boundary] none s

/-- The parts of an expression one after the other, as far as one with the result `stop`. -/
def settle (stop : Bool) (ev : Str → Option Str) : List Str → Option Str
  | [] => some (boolText !stop)
  | p :: ps => (ev p).bind fun r =>
    if decide (r = boolText true) = stop then some (boolText stop) else settle stop ev ps

/-- `any` over the parts of an expression. -/
def anyTrue (ev : Str → Option Str) : List Str → Option Str := settle true ev

/-- `all` over the parts of an expression. -/
def allTrue (ev : Str → Option Str) : List Str → Option Str := settle false ev

/-- `evaluate`, with at most a number of calls inside each other; `none` if these are not
enough. -/
def evaluate (ctx : AgentContext) (vars : Vars) : ℕ → Str → Option Str
  | 0, _ => none
  | depth + 1, expr =>
    let expr := strip expr
    let lower := lowerAll expr
    if expr = [] then some (boolText false)
    else if lower = boolText true then some (boolText true)
    else if lower = boolText false then some (boolText false)
    else if hasWord b.isAlnum "or" lower then
      anyTrue (evaluate ctx vars depth) (splitAtWord "or" expr)
    else if hasWord b.isAlnum "and" lower then
      allTrue (evaluate ctx vars depth) (splitAtWord "and" expr)
    else if "not ".toList.isPrefixOf lower then
      (evaluate ctx vars depth (expr.drop 4)).map fun inner => boolText (inner ≠ boolText true)
    else some (boolText (atom b ctx vars expr))

/-! ### The tree of an expression -/

/-- What an expression is made of; `never` is an expression that is its own only part. -/
inductive Condition (α : Type) where
  | leaf (a : α)
  | never (text : Str)
  | or (c d : Condition α)
  | and (c d : Condition α)
  | not (c : Condition α)

namespace Condition

variable {α : Type} (holds : α → Bool)

def isTrue : Condition α → Bool
  | leaf a => holds a
  | never _ => false
  | or c d => c.isTrue || d.isTrue
  | and c d => c.isTrue && d.isTrue
  | not c => !c.isTrue

/-- Evaluation from left to right does not come to a `never`. -/
def Evaluable : Condition α → Prop
  | leaf _ => True
  | never _ => False
  | or c d => c.Evaluable ∧ (c.isTrue holds = false → d.Evaluable)
  | and c d => c.Evaluable ∧ (c.isTrue holds = true → d.Evaluable)
  | not c => c.Evaluable

/-- Evaluation from left to right; there is no value if it comes to a `never`. -/
def value : Condition α → Option Bool
  | leaf a => some (holds a)
  | never _ => none
  | or c d => c.value.bind fun x => if x then some true else d.value
  | and c d => c.value.bind fun x => if x then d.value else some false
  | not c => c.value.map (!·)

/-- Several conditions that are put together, from the left. -/
def join (op : Condition α → Condition α → Condition α) (c : Condition α) :
    List (Condition α) → Condition α
  | [] => c
  | d :: ds => op c (join op d ds)

/-- The condition of an expression with its parts; a single part is the expression itself. -/
def combine (op : Condition α → Condition α → Condition α) (expr : Str) :
    List (Condition α) → Condition α
  | c :: d :: ds => join op c (d :: ds)
  | _ => .never expr

end Condition

open Condition (join combine)

/-- The expression is true or false as it stands. -/
def IsPlain (expr : Str) : Prop :=
  expr = [] ∨ lowerAll expr = boolText true ∨ lowerAll expr = boolText false

instance (expr : Str) : Decidable (IsPlain expr) := inferInstanceAs (Decidable (_ ∨ _ ∨ _))

/-- The tree of an expression, down to a depth. -/
def parseAt (isAlnum : Char → Bool) : ℕ → Str → Condition Str
  | 0, expr => .never expr
  | depth + 1, expr =>
    let expr := strip expr
    let lower := lowerAll expr
    if IsPlain expr then .leaf expr
    else if hasWord isAlnum "or" lower then
      combine .or expr ((splitAtWord "or" expr).map (parseAt isAlnum depth))
    else if hasWord isAlnum "and" lower then
      combine .and expr ((splitAtWord "and" expr).map (parseAt isAlnum depth))
    else if "not ".toList.isPrefixOf lower then .not (parseAt isAlnum depth (expr.drop 4))
    else .leaf expr

def parse (isAlnum : Char → Bool) (expr : Str) : Condition Str :=
  parseAt isAlnum (expr.length + 1) expr

/-- The truth value of an expression without parts. -/
def holds (ctx : AgentContext) (vars : Vars) (expr : Str) : Bool :=
  if expr = [] then false
  else if lowerAll expr = boolText true then true
  else if lowerAll expr = boolText false then false
  else atom b ctx vars expr

namespace Condition

variable {α : Type} {holds : α → Bool} {c : Condition α}

theorem value_of_evaluable (h : c.Evaluable holds) : c.value holds = some (c.isTrue holds) := by
  induction c with
  | leaf a => rfl
  | never text => exact absurd h id
  | or c d ihc ihd =>
    rw [value, ihc h.1, Option.bind_some, isTrue]
    cases hc : c.isTrue holds with
    | true => rfl
    | false => exact ihd (h.2 hc)
  | and c d ihc ihd =>
    rw [value, ihc h.1, Option.bind_some, isTrue]
    cases hc : c.isTrue holds with
    | true => exact ihd (h.2 hc)
    | false => rfl
  | not c ih => rw [value, ih h, Option.map_some, isTrue]

theorem evaluable_of_value {x : Bool} (h : c.value holds = some x) : c.Evaluable holds := by
  induction c generalizing x with
  | leaf a => trivial
  | never text => exact absurd h (by simp [value])
  | or c d ihc ihd =>
    obtain ⟨y, hy, hrest⟩ := Option.bind_eq_some_iff.mp h
    refine ⟨ihc hy, fun hfalse => ?_⟩
    obtain rfl : c.isTrue holds = y :=
      Option.some.inj ((value_of_evaluable (ihc hy)).symm.trans hy)
    rw [hfalse] at hrest
    exact ihd hrest
  | and c d ihc ihd =>
    obtain ⟨y, hy, hrest⟩ := Option.bind_eq_some_iff.mp h
    refine ⟨ihc hy, fun htrue => ?_⟩
    obtain rfl : c.isTrue holds = y :=
      Option.some.inj ((value_of_evaluable (ihc hy)).symm.trans hy)
    rw [htrue] at hrest
    exact ihd hrest
  | not c ih =>
    obtain ⟨y, hy, -⟩ := Option.map_eq_some_iff.mp h
    exact ih hy

theorem combine_of_length_eq_one {op : Condition α → Condition α → Condition α} {expr : Str}
    {cs : List (Condition α)} (h : cs.length = 1) : combine op expr cs = .never expr := by
  obtain ⟨c, rfl⟩ := List.length_eq_one_iff.mp h
  rfl

theorem combine_eq_join {op : Condition α → Condition α → Condition α} {expr : Str}
    {cs : List (Condition α)} (hnil : cs ≠ []) (h : cs.length ≠ 1) :
    ∃ c cs', cs = c :: cs' ∧ combine op expr cs = join op c cs' := by
  obtain ⟨c, cs, rfl⟩ := List.exists_cons_of_ne_nil hnil
  cases cs with
  | nil => exact absurd rfl h
  | cons d ds => exact ⟨c, d :: ds, rfl, rfl⟩

end Condition

/-! ### The calls of `evaluate` -/

@[simp] theorem boolText_inj {x y : Bool} : boolText x = boolText y ↔ x = y := by
  cases x <;> cases y <;> decide

/-- The operator for several parts, of which one with the result `stop` settles all. -/
def junction {α : Type} (stop : Bool) : Condition α → Condition α → Condition α :=
  if stop then .or else .and

theorem value_junction {α : Type} {holds : α → Bool} (stop : Bool) (c d : Condition α) :
    (junction stop c d).value holds =
      (c.value holds).bind fun x => if x = stop then some stop else d.value holds := by
  cases stop with
  | true => rfl
  | false =>
    change ((c.value holds).bind fun x => if x then d.value holds else some false) = _
    congr 1
    funext x
    cases x <;> rfl

theorem settle_eq {stop : Bool} {ev : Str → Option Str} {tree : Str → Condition Str}
    {leaf : Str → Bool} (p : Str) (ps : List Str)
    (h : ∀ q ∈ p :: ps, ev q = ((tree q).value leaf).map boolText) :
    settle stop ev (p :: ps) =
      ((join (junction stop) (tree p) (ps.map tree)).value leaf).map boolText := by
  induction ps generalizing p with
  | nil =>
    rw [settle, h p List.mem_cons_self]
    cases hvalue : (tree p).value leaf with
    | none => simp [join, hvalue]
    | some x => cases x <;> cases stop <;> simp [join, hvalue, settle]
  | cons q qs ih =>
    rw [settle, h p List.mem_cons_self, List.map_cons, join, value_junction]
    cases hvalue : (tree p).value leaf with
    | none => rfl
    | some x =>
      simp only [Option.map_some, Option.bind_some, boolText_inj, Bool.decide_eq_true]
      split_ifs with hx
      · rfl
      · exact ih q fun r hr => h r (List.mem_cons_of_mem p hr)

theorem settle_eq_combine {stop : Bool} {ev : Str → Option Str} {tree : Str → Condition Str}
    {leaf : Str → Bool} {expr : Str} {parts : List Str} (hnil : parts ≠ [])
    (h : ∀ q ∈ parts, ev q = ((tree q).value leaf).map boolText)
    (hnever : parts.length = 1 → ∀ q ∈ parts, (tree q).value leaf = none) :
    settle stop ev parts =
      ((combine (junction stop) expr (parts.map tree)).value leaf).map boolText := by
  obtain ⟨p, ps, rfl⟩ := List.exists_cons_of_ne_nil hnil
  by_cases hlen : (p :: ps).length = 1
  · obtain rfl : ps = [] := List.length_eq_zero_iff.mp (Nat.succ.inj hlen)
    have hp := hnever rfl p List.mem_cons_self
    rw [settle, h p List.mem_cons_self, hp]
    rfl
  · obtain ⟨c, cs, hcs, hcombine⟩ : ∃ c cs, (p :: ps).map tree = c :: cs ∧
        combine (junction stop) expr ((p :: ps).map tree) = join (junction stop) c cs :=
      Condition.combine_eq_join (by simp) (by rwa [List.length_map])
    obtain ⟨rfl, rfl⟩ := List.cons.inj hcs
    rw [hcombine]
    exact settle_eq p ps h

variable {isAlnum : Char → Bool}

theorem parseAt_eq_never {expr : Str} (hstrip : strip expr = expr) (hplain : ¬ IsPlain expr)
    (h : hasWord isAlnum "or" (lowerAll expr) = true ∧
        (splitAtWord "or" expr).length = 1 ∨
      hasWord isAlnum "or" (lowerAll expr) = false ∧
        hasWord isAlnum "and" (lowerAll expr) = true ∧
          (splitAtWord "and" expr).length = 1) (depth : ℕ) :
    parseAt isAlnum depth expr = .never expr := by
  cases depth with
  | zero => rfl
  | succ depth =>
    rw [parseAt, hstrip, if_neg hplain]
    rcases h with ⟨hor, hlen⟩ | ⟨hor, hand, hlen⟩
    · rw [if_pos hor, Condition.combine_of_length_eq_one (by rwa [List.length_map])]
    · rw [if_neg (ne_true_of_eq_false hor), if_pos hand,
        Condition.combine_of_length_eq_one (by rwa [List.length_map])]

/-- **The calls.** `evaluate` computes the value of the tree. -/
theorem evaluate_eq (ctx : AgentContext) (vars : Vars) (depth : ℕ) (expr : Str) :
    evaluate b ctx vars depth expr =
      ((parseAt b.isAlnum depth expr).value (holds b ctx vars)).map boolText := by
  induction depth generalizing expr with
  | zero => rfl
  | succ depth ih =>
    rw [evaluate, parseAt]
    have hparts (w : Str) : splitAtWord w (strip expr) ≠ [] := splitFrom_ne_nil 0 _
    by_cases hplain : IsPlain (strip expr)
    · rw [if_pos hplain]
      change _ = some (boolText (holds b ctx vars (strip expr)))
      rw [holds]
      rcases hplain with hnil | htrue | hfalse
      · rw [if_pos hnil, if_pos hnil]
      · split_ifs <;> rfl
      · split_ifs <;> rfl
    rw [if_neg hplain]
    obtain ⟨hnil, htrue, hfalse⟩ :
        strip expr ≠ [] ∧ lowerAll (strip expr) ≠ boolText true ∧
          lowerAll (strip expr) ≠ boolText false := by
      simpa [IsPlain, not_or] using hplain
    rw [if_neg hnil, if_neg htrue, if_neg hfalse]
    have hnever {w : Str} (hlen : (splitAtWord w (strip expr)).length = 1)
        (h : ∀ d, parseAt b.isAlnum d (strip expr) = .never (strip expr)) :
        ∀ q ∈ splitAtWord w (strip expr),
          (parseAt b.isAlnum depth q).value (holds b ctx vars) = none := by
      intro q hq
      rw [splitAtWord_eq_self hlen] at hq
      rw [List.mem_singleton.mp hq, h]
      rfl
    by_cases hor : hasWord b.isAlnum "or" (lowerAll (strip expr)) = true
    · rw [if_pos hor, if_pos hor]
      exact settle_eq_combine (hparts _) (fun q _ => ih q) fun hlen =>
        hnever hlen (parseAt_eq_never (strip_strip _) hplain (.inl ⟨hor, hlen⟩))
    · rw [if_neg hor, if_neg hor]
      by_cases hand : hasWord b.isAlnum "and" (lowerAll (strip expr)) = true
      · rw [if_pos hand, if_pos hand]
        exact settle_eq_combine (hparts _) (fun q _ => ih q) fun hlen =>
          hnever hlen (parseAt_eq_never (strip_strip _) hplain
            (.inr ⟨eq_false_of_ne_true hor, hand, hlen⟩))
      · rw [if_neg hand, if_neg hand]
        split_ifs with hneg
        · rw [ih, Condition.value]
          cases (parseAt b.isAlnum depth ((strip expr).drop 4)).value (holds b ctx vars) with
          | none => rfl
          | some x => cases x <;> rfl
        · change _ = some (boolText (holds b ctx vars (strip expr)))
          rw [holds, if_neg hnil, if_neg htrue, if_neg hfalse]

/-! ### The depth -/

theorem settle_mono {stop : Bool} {ev ev' : Str → Option Str} {parts : List Str} {r : Str}
    (hev : ∀ q r, ev q = some r → ev' q = some r) (h : settle stop ev parts = some r) :
    settle stop ev' parts = some r := by
  induction parts with
  | nil => exact h
  | cons p ps ih =>
    obtain ⟨x, hx, hrest⟩ := Option.bind_eq_some_iff.mp h
    rw [settle, hev p x hx, Option.bind_some]
    split_ifs at hrest ⊢
    · exact hrest
    · exact ih hrest

theorem evaluate_succ {ctx : AgentContext} {vars : Vars} {depth : ℕ} {expr r : Str}
    (h : evaluate b ctx vars depth expr = some r) :
    evaluate b ctx vars (depth + 1) expr = some r := by
  induction depth generalizing expr r with
  | zero => exact absurd h (by simp [evaluate])
  | succ depth ih =>
    rw [evaluate] at h ⊢
    split_ifs at h ⊢
    · exact h
    · exact h
    · exact h
    · exact settle_mono (fun q r => ih) h
    · exact settle_mono (fun q r => ih) h
    · obtain ⟨x, hx, hr⟩ := Option.map_eq_some_iff.mp h
      rw [ih hx, Option.map_some, hr]
    · exact h

theorem evaluate_mono {ctx : AgentContext} {vars : Vars} {depth depth' : ℕ} {expr r : Str}
    (hle : depth ≤ depth') (h : evaluate b ctx vars depth expr = some r) :
    evaluate b ctx vars depth' expr = some r := by
  induction hle with
  | refl => exact h
  | step _ ih => exact evaluate_succ b ih

/-- Calls are about shorter expressions, so that a depth beyond the length makes no difference. -/
theorem parseAt_eq {depth depth' : ℕ} {expr : Str} (h : expr.length < depth)
    (h' : expr.length < depth') :
    parseAt isAlnum depth expr = parseAt isAlnum depth' expr := by
  induction depth generalizing expr depth' with
  | zero => exact absurd h (Nat.not_lt_zero _)
  | succ depth ih =>
    cases depth' with
    | zero => exact absurd h' (Nat.not_lt_zero _)
    | succ depth' =>
      have hle := length_strip_le expr
      have hparts (op : Condition Str → Condition Str → Condition Str) (w : Str) :
          combine op (strip expr) ((splitAtWord w (strip expr)).map (parseAt isAlnum depth)) =
            combine op (strip expr)
              ((splitAtWord w (strip expr)).map (parseAt isAlnum depth')) := by
        by_cases hlen : (splitAtWord w (strip expr)).length = 1
        · rw [Condition.combine_of_length_eq_one (by rwa [List.length_map]),
            Condition.combine_of_length_eq_one (by rwa [List.length_map])]
        · congr 1
          refine List.map_congr_left fun q hq => ?_
          have hlt := length_lt_of_mem_splitAtWord hlen hq
          exact ih (by omega) (by omega)
      rw [parseAt, parseAt, hparts, hparts]
      by_cases hplain : IsPlain (strip expr)
      · rw [if_pos hplain, if_pos hplain]
      · rw [if_neg hplain, if_neg hplain]
        have hpos : 0 < (strip expr).length :=
          List.length_pos_of_ne_nil fun hnil => hplain (.inl hnil)
        have hdrop : ((strip expr).drop 4).length < (strip expr).length := by
          rw [List.length_drop]
          omega
        have hnot : parseAt isAlnum depth ((strip expr).drop 4) =
            parseAt isAlnum depth' ((strip expr).drop 4) := ih (by omega) (by omega)
        rw [hnot]

/-- `evaluate` returns `"true"` or `"false"`, with at most a number of calls inside each other. -/
def Returns (ctx : AgentContext) (vars : Vars) (depth : ℕ) (expr : Str) : Prop :=
  ∃ r, evaluate b ctx vars depth expr = some r ∧ (r = boolText true ∨ r = boolText false)

/-- **Termination.** `evaluate` returns `"true"` or `"false"` if and only if it does not come, from
left to right, to an expression that has the word `or` or `and` and is its own only part. If it
returns, then every call is about a shorter expression: there are at most as many calls inside each
other as the expression has characters, and one. -/
theorem returns_iff (ctx : AgentContext) (vars : Vars) (expr : Str) :
    ((∃ depth, Returns b ctx vars depth expr) ↔
      (parse b.isAlnum expr).Evaluable (holds b ctx vars)) ∧
    ((∃ depth, Returns b ctx vars depth expr) → Returns b ctx vars (expr.length + 1) expr) := by
  have hreturns (h : (parse b.isAlnum expr).Evaluable (holds b ctx vars)) :
      Returns b ctx vars (expr.length + 1) expr := by
    refine ⟨boolText ((parse b.isAlnum expr).isTrue (holds b ctx vars)), ?_, ?_⟩
    · rw [evaluate_eq, ← parse, Condition.value_of_evaluable h]
      rfl
    · cases (parse b.isAlnum expr).isTrue (holds b ctx vars) with
      | true => exact .inl rfl
      | false => exact .inr rfl
  have hevaluable (h : ∃ depth, Returns b ctx vars depth expr) :
      (parse b.isAlnum expr).Evaluable (holds b ctx vars) := by
    obtain ⟨depth, r, hr, -⟩ := h
    have hmax := evaluate_mono b (Nat.le_max_left depth (expr.length + 1)) hr
    rw [evaluate_eq, parseAt_eq (Nat.lt_of_lt_of_le (Nat.lt_succ_self _) (Nat.le_max_right _ _))
      (Nat.lt_succ_self expr.length), ← parse] at hmax
    obtain ⟨x, hx, -⟩ := Option.map_eq_some_iff.mp hmax
    exact Condition.evaluable_of_value hx
  exact ⟨⟨hevaluable, fun h => ⟨_, hreturns h⟩⟩, fun h => hreturns (hevaluable h)⟩

/-! ### An expression without end -/

/-- What an operator says of two decimal numbers. -/
def compareDecimals (op : Comparator) (m n : Number) : Bool :=
  let x := m.mantissa * 10 ^ n.scale
  let y := n.mantissa * 10 ^ m.scale
  match op with
  | .ge => y ≤ x
  | .le => x ≤ y
  | .ne => x ≠ y
  | .eq => x = y
  | .gt => y < x
  | .lt => x < y

theorem isAlphanum_of_isSpace (c : Char) (h : isSpace c = true) : c.isAlphanum = false := by
  simp only [isSpace, Bool.or_eq_true, Bool.and_eq_true, decide_eq_true_eq, beq_iff_eq] at h
  change ((decide (c.val ≥ 'A'.val ∧ c.val ≤ 'Z'.val) || (c.val ≥ 'a'.val && c.val ≤ 'z'.val)) ||
    (c.val ≥ '0'.val && c.val ≤ '9'.val)) = false
  simp only [Bool.or_eq_false_iff, Bool.and_eq_false_iff, decide_eq_false_iff_not, ge_iff_le,
    UInt32.le_iff_toNat_le, Char.toNat_val, Char.reduceVal, UInt32.reduceToNat]
  omega

/-- Decimal numbers; nothing is known of lists and dicts. -/
def decimalBuiltins : Builtins Number where
  isAlnum := Char.isAlphanum
  isAlnum_of_isSpace := isAlphanum_of_isSpace
  int := parseInt
  float := fun _ => none
  ofNumber n := n
  compareNumbers := compareDecimals
  compareOthers op _ _ := op = .ne
  strNumber := Number.toStr
  strOther := dumps none

/-- `evaluate` does not return on the expression `or`. -/
theorem not_returns : ¬ ∀ (N : Type) (b : Builtins N) (ctx : AgentContext) (vars : Vars)
    (expr : Str), ∃ depth, Returns b ctx vars depth expr := by
  intro h
  obtain ⟨depth, r, hr, -⟩ := h Number decimalBuiltins {} [] "or"
  have hplain : ¬ IsPlain "or" := by decide
  have hnever : parseAt decimalBuiltins.isAlnum depth "or" = .never "or" :=
    parseAt_eq_never (by decide) hplain (.inl ⟨by decide, by decide⟩) depth
  rw [evaluate_eq, hnever] at hr
  exact absurd hr (by simp [Condition.value])

end AgentStudio.Conditions

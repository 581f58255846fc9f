import AgentStudio.Library.Dict
import AgentStudio.Library.Text

/-!
# JSON values and their text

`Json` is the type of the values that Python's `json` module writes and reads, and `dumps`
and `loads` are its two directions: `dumps` with or without an indent (and with
`ensure_ascii=False`), `loads` for the text of one value between blanks.

Numbers are decimal numerals in lowest terms (`Number`): a number is identified with the decimal
that it is written as, so `1` and `1.0` are one number, as they are for Python's `==`. There
is no number for `NaN` and the infinities. An object is the list of its members in insertion
order; `setItem` is the assignment `d[k] = v`, and reading an object text with a repeated key
keeps the last value. The values whose objects have distinct keys are those of `Json.WF`;
`Dict` and `Items` are the dictionaries and lists of such values.
-/

namespace PyJson

open PyText PyDict

/-! ### Numbers -/

/-- The decimal number `mantissa / 10 ^ scale`, in lowest terms. -/
structure Number where
  mantissa : ℤ
  scale : ℕ
  normal : scale = 0 ∨ mantissa % 10 ≠ 0
deriving DecidableEq

namespace Number

/-- An integer. -/
def ofInt (m : ℤ) : Number := ⟨m, 0, Or.inl rfl⟩

instance (n : ℕ) : OfNat Number n := ⟨ofInt n⟩

/-- The number `m / 10 ^ s`. -/
def ofScaled (m : ℤ) : ℕ → Number
  | 0 => ofInt m
  | s + 1 => if h : m % 10 = 0 then ofScaled (m / 10) s else ⟨m, s + 1, Or.inr h⟩

theorem ofScaled_self (n : Number) : ofScaled n.mantissa n.scale = n := by
  obtain ⟨m, s, h⟩ := n
  cases s with
  | zero => rfl
  | succ s =>
    have hm : ¬ m % 10 = 0 := h.resolve_left (Nat.succ_ne_zero s)
    rw [ofScaled, dif_neg hm]

/-- The number plus one. -/
def succ (n : Number) : Number where
  mantissa := n.mantissa + 10 ^ n.scale
  scale := n.scale
  normal := by
    rcases Nat.eq_zero_or_pos n.scale with h | h
    · exact Or.inl h
    · refine Or.inr fun hzero => ?_
      have hten : (10 : ℤ) ∣ 10 ^ n.scale := dvd_pow_self 10 (Nat.ne_of_gt h)
      have hmantissa : n.mantissa % 10 ≠ 0 := n.normal.resolve_left (Nat.ne_of_gt h)
      omega

/-- The number with the given digits, `scale` of them after the point, and an exponent. -/
def ofDecimal (neg : Bool) (digits : Str) (scale : ℕ) (exponent : ℤ) : Number :=
  let n : ℤ := Nat.ofDigitChars 10 digits 0
  let m := if neg then -n else n
  if exponent ≤ scale then ofScaled m (scale - exponent).toNat
  else ofInt (m * 10 ^ (exponent - scale).toNat)

/-- The digits after the point. -/
def fracDigits (n : Number) : Str :=
  let digits := Nat.toDigits 10 (n.mantissa.natAbs % 10 ^ n.scale)
  List.replicate (n.scale - digits.length) '0' ++ digits

/-- The text of a number. -/
def toStr (n : Number) : Str :=
  (if n.mantissa < 0 then ['-'] else []) ++
    (Nat.toDigits 10 (n.mantissa.natAbs / 10 ^ n.scale) ++
      if n.scale = 0 then [] else '.' :: n.fracDigits)

end Number

/-! ### Values -/

/-- A JSON value. -/
inductive Json where
  | null
  | bool (b : Bool)
  | num (n : Number)
  | str (s : Str)
  | arr (items : List Json)
  | obj (members : List (Str × Json))

/-- Python's truth value of a JSON value. -/
def Json.truthy : Json → Bool
  | .null => false
  | .bool b => b
  | .num n => decide (n ≠ 0)
  | .str s => !s.isEmpty
  | .arr items => !items.isEmpty
  | .obj members => !members.isEmpty

mutual

/-- All objects inside the value have distinct keys. -/
def Json.WF : Json → Prop
  | .null => True
  | .bool _ => True
  | .num _ => True
  | .str _ => True
  | .arr items => itemsWF items
  | .obj members => (members.map Prod.fst).Nodup ∧ membersWF members

/-- All objects inside the items of an array have distinct keys. -/
def itemsWF : List Json → Prop
  | [] => True
  | v :: vs => v.WF ∧ itemsWF vs

/-- All objects inside the values of an object have distinct keys. -/
def membersWF : List (Str × Json) → Prop
  | [] => True
  | (_, v) :: ms => v.WF ∧ membersWF ms

end

mutual

/-- Distinct keys are decidable. -/
def Json.decWF : (j : Json) → Decidable j.WF
  | .null => isTrue trivial
  | .bool _ => isTrue trivial
  | .num _ => isTrue trivial
  | .str _ => isTrue trivial
  | .arr items => decItemsWF items
  | .obj members => @instDecidableAnd _ _ inferInstance (decMembersWF members)

def decItemsWF : (vs : List Json) → Decidable (itemsWF vs)
  | [] => isTrue trivial
  | v :: vs => @instDecidableAnd _ _ v.decWF (decItemsWF vs)

def decMembersWF : (ms : List (Str × Json)) → Decidable (membersWF ms)
  | [] => isTrue trivial
  | (_, v) :: ms => @instDecidableAnd _ _ v.decWF (decMembersWF ms)

end

instance (vs : List Json) : Decidable (itemsWF vs) := decItemsWF vs

instance (ms : List (Str × Json)) : Decidable (membersWF ms) := decMembersWF ms

theorem itemsWF_iff {vs : List Json} : itemsWF vs ↔ ∀ v ∈ vs, v.WF := by
  induction vs with
  | nil => simp [itemsWF]
  | cons v vs ih => simp [itemsWF, ih]

theorem membersWF_iff {ms : List (Str × Json)} : membersWF ms ↔ ∀ m ∈ ms, m.2.WF := by
  induction ms with
  | nil => simp [membersWF]
  | cons m ms ih => obtain ⟨k, v⟩ := m; simp [membersWF, ih]

/-- A dictionary of JSON values, all of whose objects have distinct keys. -/
structure Dict where
  members : List (Str × Json)
  nodup : (members.map Prod.fst).Nodup
  wf : ∀ m ∈ members, m.2.WF

/-- The dictionary as a value. -/
def Dict.toJson (d : Dict) : Json := .obj d.members

/-- The empty dictionary. -/
def Dict.empty : Dict := ⟨[], List.nodup_nil, by simp⟩

instance : Inhabited Dict := ⟨Dict.empty⟩

/-- The dictionary with the given members, if their keys are distinct. -/
def Dict.ofMembers (ms : List (Str × Json)) : Option Dict :=
  if h : (ms.map Prod.fst).Nodup ∧ membersWF ms then some ⟨ms, h.1, membersWF_iff.mp h.2⟩
  else none

@[simp] theorem Dict.ofMembers_members (d : Dict) : Dict.ofMembers d.members = some d :=
  dif_pos ⟨d.nodup, membersWF_iff.mpr d.wf⟩

theorem Dict.toJson_wf (d : Dict) : d.toJson.WF := ⟨d.nodup, membersWF_iff.mpr d.wf⟩

/-- A list of JSON values, all of whose objects have distinct keys. -/
structure Items where
  items : List Json
  wf : ∀ v ∈ items, v.WF

/-- The list as a value. -/
def Items.toJson (l : Items) : Json := .arr l.items

/-- The empty list. -/
def Items.empty : Items := ⟨[], by simp⟩

/-- The list with the given items, if the keys inside them are distinct. -/
def Items.ofList (vs : List Json) : Option Items :=
  if h : itemsWF vs then some ⟨vs, itemsWF_iff.mp h⟩ else none

@[simp] theorem Items.ofList_items (l : Items) : Items.ofList l.items = some l :=
  dif_pos (itemsWF_iff.mpr l.wf)

theorem Items.toJson_wf (l : Items) : l.toJson.WF := itemsWF_iff.mpr l.wf

/-! ### Reading values of a type -/

/-- A string. -/
def decodeStr : Json → Option Str
  | .str s => some s
  | _ => none

/-- A number. -/
def decodeNum : Json → Option Number
  | .num n => some n
  | _ => none

/-- An integer. -/
def decodeInt : Json → Option ℤ
  | .num n => if n.scale = 0 then some n.mantissa else none
  | _ => none

/-- A truth value. -/
def decodeBool : Json → Option Bool
  | .bool b => some b
  | _ => none

/-- The members of an object. -/
def decodeObj : Json → Option (List (Str × Json))
  | .obj ms => some ms
  | _ => none

/-- A dictionary. -/
def decodeDict : Json → Option Dict
  | .obj ms => Dict.ofMembers ms
  | _ => none

/-- A list of values. -/
def decodeItems : Json → Option Items
  | .arr vs => Items.ofList vs
  | _ => none

/-- `int(...)` of a JSON value, where it raises no error. -/
def pyInt : Json → Option ℤ
  | .num n => some (n.mantissa.tdiv (10 ^ n.scale))
  | .str s => parseInt (strip s)
  | .bool b => some (if b then 1 else 0)
  | _ => none

@[simp] theorem pyInt_ofInt (n : ℤ) : pyInt (.num (Number.ofInt n)) = some n := by
  simp [pyInt, Number.ofInt]

/-! ### Writing -/

/-- A character inside a string literal: quote, backslash and the characters below `0x20` are
escaped. -/
def escapeChar (c : Char) : Str :=
  if c = '"' then ['\\', '"']
  else if c = '\\' then ['\\', '\\']
  else if c = '\n' then ['\\', 'n']
  else if c = '\r' then ['\\', 'r']
  else if c = '\t' then ['\\', 't']
  else if c.toNat = 8 then ['\\', 'b']
  else if c.toNat = 12 then ['\\', 'f']
  else if c.toNat < 32 then
    ['\\', 'u', '0', '0', Nat.digitChar (c.toNat / 16), Nat.digitChar (c.toNat % 16)]
  else [c]

/-- A string literal. -/
def quote (s : Str) : Str := '"' :: (s.flatMap escapeChar ++ ['"'])

/-- The line break of an indented text at a depth. -/
def newline (indent : Option ℕ) (depth : ℕ) : Str :=
  match indent with
  | none => []
  | some n => '\n' :: List.replicate (n * depth) ' '

/-- The blank between items: a line break, or a space in a text without indent. -/
def separator (indent : Option ℕ) (depth : ℕ) : Str :=
  if indent = none then [' '] else newline indent depth

mutual

/-- The text of a value at a depth. -/
def dumpsAt (indent : Option ℕ) (depth : ℕ) : Json → Str
  | .null => ['n', 'u', 'l', 'l']
  | .bool true => ['t', 'r', 'u', 'e']
  | .bool false => ['f', 'a', 'l', 's', 'e']
  | .num n => n.toStr
  | .str s => quote s
  | .arr [] => ['[', ']']
  | .arr (v :: vs) =>
    '[' :: (newline indent (depth + 1) ++ dumpsAt indent (depth + 1) v ++
      dumpsItems indent (depth + 1) vs ++ newline indent depth ++ [']'])
  | .obj [] => ['{', '}']
  | .obj ((k, v) :: ms) =>
    '{' :: (newline indent (depth + 1) ++ (quote k ++ ':' :: ' ' :: dumpsAt indent (depth + 1) v) ++
      dumpsMembers indent (depth + 1) ms ++ newline indent depth ++ ['}'])

/-- The further items of an array. -/
def dumpsItems (indent : Option ℕ) (depth : ℕ) : List Json → Str
  | [] => []
  | v :: vs =>
    ',' :: (separator indent depth ++ dumpsAt indent depth v) ++ dumpsItems indent depth vs

/-- The further members of an object. -/
def dumpsMembers (indent : Option ℕ) (depth : ℕ) : List (Str × Json) → Str
  | [] => []
  | (k, v) :: ms =>
    ',' :: (separator indent depth ++ (quote k ++ ':' :: ' ' :: dumpsAt indent depth v)) ++
      dumpsMembers indent depth ms

end

/-- `json.dumps(value, indent=indent, ensure_ascii=False)`. -/
def dumps (indent : Option ℕ) (value : Json) : Str := dumpsAt indent 0 value

/-! ### Reading -/

/-- The blanks between the tokens of a text. -/
def isWs (c : Char) : Bool := c = ' ' || c = '\t' || c = '\n' || c = '\r'

/-- The text after its leading blanks. -/
def skipWs (s : Str) : Str := s.dropWhile isWs

/-- The value of a hexadecimal digit. -/
def hexValue (c : Char) : Option ℕ :=
  if c.isDigit then some (c.toNat - 48)
  else if 'a' ≤ c ∧ c ≤ 'f' then some (c.toNat - 87)
  else if 'A' ≤ c ∧ c ≤ 'F' then some (c.toNat - 55)
  else none

/-- The value of four hexadecimal digits. -/
def hex4 (a b c d : Char) : Option ℕ := do
  let a ← hexValue a
  let b ← hexValue b
  let c ← hexValue c
  let d ← hexValue d
  some (((a * 16 + b) * 16 + c) * 16 + d)

/-- The character of an escape other than `\u`. -/
def unescape (c : Char) : Option Char :=
  if c = '"' ∨ c = '\\' ∨ c = '/' then some c
  else if c = 'n' then some '\n'
  else if c = 'r' then some '\r'
  else if c = 't' then some '\t'
  else if c = 'b' then some (Char.ofNat 8)
  else if c = 'f' then some (Char.ofNat 12)
  else none

/-- The rest of a string literal, after its opening quote. A surrogate pair is one character;
a surrogate alone is refused. -/
def scanString : Str → Option (Str × Str)
  | [] => none
  | '"' :: r => some ([], r)
  | '\\' :: 'u' :: a :: b :: c :: d :: r => do
    let n ← hex4 a b c d
    if 0xD800 ≤ n ∧ n < 0xDC00 then
      match r with
      | '\\' :: 'u' :: a' :: b' :: c' :: d' :: r' => do
        let n' ← hex4 a' b' c' d'
        if 0xDC00 ≤ n' ∧ n' < 0xE000 then
          let (s, r'') ← scanString r'
          some (Char.ofNat (0x10000 + (n - 0xD800) * 0x400 + (n' - 0xDC00)) :: s, r'')
        else none
      | _ => none
    else if 0xDC00 ≤ n ∧ n < 0xE000 then none
    else
      let (s, r'') ← scanString r
      some (Char.ofNat n :: s, r'')
  | '\\' :: c :: r => do
    let c ← unescape c
    let (s, r') ← scanString r
    some (c :: s, r')
  | c :: r =>
    if c.toNat < 32 then none
    else do
      let (s, r') ← scanString r
      some (c :: s, r')

/-- The longest prefix of digits. -/
def spanDigits (s : Str) : Str × Str := (s.takeWhile Char.isDigit, s.dropWhile Char.isDigit)

/-- The digits before the point: `0`, or digits that do not start with `0`. -/
def scanInt : Str → Option (Str × Str)
  | '0' :: r => some (['0'], r)
  | s => if (spanDigits s).1 = [] then none else some (spanDigits s)

/-- The digits after the point, if there are any. -/
def scanFrac : Str → Str × Str
  | '.' :: r => if (spanDigits r).1 = [] then ([], '.' :: r) else spanDigits r
  | s => ([], s)

/-- The exponent, if there is one. -/
def scanExp (s : Str) : ℤ × Str :=
  let digits (neg : Bool) (r : Str) : ℤ × Str :=
    if (spanDigits r).1 = [] then (0, s)
    else
      let n : ℤ := Nat.ofDigitChars 10 (spanDigits r).1 0
      (if neg then -n else n, (spanDigits r).2)
  match s with
  | c :: r =>
    if c = 'e' ∨ c = 'E' then
      match r with
      | '-' :: r => digits true r
      | '+' :: r => digits false r
      | r => digits false r
    else (0, s)
  | [] => (0, s)

/-- A number. -/
def scanNumber (s : Str) : Option (Number × Str) :=
  let unsigned (neg : Bool) (s : Str) : Option (Number × Str) :=
    (scanInt s).map fun (ip, r) =>
      let (fp, r) := scanFrac r
      let (e, r) := scanExp r
      (Number.ofDecimal neg (ip ++ fp) fp.length e, r)
  match s with
  | '-' :: r => unsigned true r
  | s => unsigned false s

/-- The rest of a keyword. -/
def scanKeyword (word : Str) (value : Json) (s : Str) : Option (Json × Str) :=
  if word.isPrefixOf s then some (value, s.drop word.length) else none

mutual

/-- A value, at most `fuel` steps deep. -/
def scanValue : ℕ → Str → Option (Json × Str)
  | 0, _ => none
  | _ + 1, [] => none
  | fuel + 1, c :: r =>
    if c = '"' then (scanString r).map fun (s, r) => (.str s, r)
    else if c = '{' then
      match skipWs r with
      | '}' :: r => some (.obj [], r)
      | r => do
        let (m, r) ← scanMember fuel r
        let (ms, r) ← scanMembers fuel r
        some (.obj (ofPairs (m :: ms)), r)
    else if c = '[' then
      match skipWs r with
      | ']' :: r => some (.arr [], r)
      | r => do
        let (v, r) ← scanValue fuel r
        let (vs, r) ← scanItems fuel r
        some (.arr (v :: vs), r)
    else if c = 'n' then scanKeyword ['u', 'l', 'l'] .null r
    else if c = 't' then scanKeyword ['r', 'u', 'e'] (.bool true) r
    else if c = 'f' then scanKeyword ['a', 'l', 's', 'e'] (.bool false) r
    else (scanNumber (c :: r)).map fun (n, r) => (.num n, r)

/-- The further items of an array and its end. -/
def scanItems : ℕ → Str → Option (List Json × Str)
  | 0, _ => none
  | fuel + 1, s =>
    match skipWs s with
    | ']' :: r => some ([], r)
    | ',' :: r => do
      let (v, r) ← scanValue fuel (skipWs r)
      let (vs, r) ← scanItems fuel r
      some (v :: vs, r)
    | _ => none

/-- A member of an object. -/
def scanMember : ℕ → Str → Option ((Str × Json) × Str)
  | 0, _ => none
  | fuel + 1, s =>
    match s with
    | '"' :: r => do
      let (k, r) ← scanString r
      match skipWs r with
      | ':' :: r => do
        let (v, r) ← scanValue fuel (skipWs r)
        some ((k, v), r)
      | _ => none
    | _ => none

/-- The further members of an object and its end. -/
def scanMembers : ℕ → Str → Option (List (Str × Json) × Str)
  | 0, _ => none
  | fuel + 1, s =>
    match skipWs s with
    | '}' :: r => some ([], r)
    | ',' :: r => do
      let (m, r) ← scanMember fuel (skipWs r)
      let (ms, r) ← scanMembers fuel r
      some (m :: ms, r)
    | _ => none

end

/-- `json.loads(s)`; `none` is a `JSONDecodeError`. A value has fewer steps of depth than
twice the characters of its text. -/
def loads (s : Str) : Option Json :=
  match scanValue (2 * s.length + 1) (skipWs s) with
  | some (v, r) => if skipWs r = [] then some v else none
  | none => none

end PyJson

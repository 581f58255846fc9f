import AgentStudio.Library.JsonBraces

/-!
# Structured output

`JsonSchemaValidator` (`agent_runtime/json_schema.py`): `coerce` brings the fields of an object to
the types of a schema and fills in its defaults, and `extract_from_text` finds an object in the
answer of a model. It takes the text without surrounding blanks and without the first and the last
line of a fence (`unfence`). If that is no JSON text, it takes the first pair of braces of the text
that has no brace in between (`searchBraces`, the regular expression `\{[^{}]*\}`).

The text that Python's reader takes beyond JSON itself (the words for numbers that are none, and
a surrogate alone) counts as read, by `decode`. The limits of the interpreter, on the depth of
recursion and the digits of an integer, are left out.

`extracts_iff` tells for which objects, and for which texts around them, the object is found: those
that are all of the text within blanks or within a fence, and otherwise only an object that has no
other object inside and no brace in its strings, in a text that is no JSON text.
-/

namespace AgentStudio.Execution

open PyText PyJson PyDict

/-! ### Coercion -/

/-- What a conversion of a value comes to: a value, a `ValueError` or `TypeError`, or an
`OverflowError`. -/
inductive Converted where
  | value (v : Json)
  | refused
  | overflow

/-- Python's `str(value)` of a value that is no text, `float(value)` and `int(value)`. -/
structure TypeConversions where
  text : Json → Str
  float : Json → Converted
  int : Json → Converted

/-- `_coerce_value`; `none` is an `OverflowError`. -/
def coerceValue (conv : TypeConversions) (value : Json) (expectedType : Str) : Option Json :=
  let converted (c : Converted) : Option Json :=
    match c with
    | .value v => some v
    | .refused => some value
    | .overflow => none
  if expectedType = "string" then
    match value with
    | .str s => some (.str s)
    | value => some (.str (conv.text value))
  else if expectedType = "number" then converted (conv.float value)
  else if expectedType = "integer" then converted (conv.int value)
  else if expectedType = "boolean" then
    match value with
    | .str s => some (.bool
        (s.map Char.toLower ∈ ["true".toList, "1".toList, "yes".toList]))
    | value => some (.bool value.truthy)
  else if expectedType = "json" then
    match value with
    | .str s => some ((loads s).getD (.str s))
    | value => some value
  else some value

structure SchemaProperty where
  type : Str := []
  default : Option Json := none

/-- `JsonSchemaValidator`: the properties of its schema. -/
structure JsonSchemaValidator where
  conv : TypeConversions
  properties : List (Str × SchemaProperty)

/-- A field of the data is coerced to the type of its property. -/
def JsonSchemaValidator.coerceField (validator : JsonSchemaValidator)
    (result : List (Str × Json)) (p : Str × SchemaProperty) : Option (List (Str × Json)) :=
  match result.lookup p.1 with
  | some value =>
    (coerceValue validator.conv value p.2.type).map fun value => setItem p.1 value result
  | none => some result

def injectDefault (result : List (Str × Json)) (p : Str × SchemaProperty) : List (Str × Json) :=
  match result.lookup p.1, p.2.default with
  | none, some value => setItem p.1 value result
  | _, _ => result

/-- `coerce`; `none` is an `OverflowError`. -/
def JsonSchemaValidator.coerce (validator : JsonSchemaValidator) (data : List (Str × Json)) :
    Option (List (Str × Json)) :=
  (validator.properties.foldlM validator.coerceField data).map fun result =>
    validator.properties.foldl injectDefault result

/-! ### Extraction -/

/-- What is put in the place of a backslash and the escape after it, and how many characters the
escape has: a surrogate becomes another character. -/
def standardEscape (s : Str) : Str × ℕ :=
  match s with
  | 'u' :: a :: b :: c :: d :: _ =>
    if (hex4 a b c d).any fun n => 0xD800 ≤ n && n < 0xE000 then ("\\ufffd", 5)
    else ('\\' :: s.take 1, 1)
  | _ => ('\\' :: s.take 1, 1)

/-- The text with what only Python's reader takes replaced: a word for no number by `null`, and
the escape of a surrogate in a string by another. The count is of the characters that are
replaced already, and the flag tells whether they are in a string. -/
def standard : ℕ → Bool → Str → Str
  | _, _, [] => []
  | skip + 1, inside, _ :: s => standard skip inside s
  | 0, false, c :: s =>
    if "NaN".toList.isPrefixOf (c :: s) then "null" ++ standard 2 false s
    else if "Infinity".toList.isPrefixOf (c :: s) then "null" ++ standard 7 false s
    else if "-Infinity".toList.isPrefixOf (c :: s) then "null" ++ standard 8 false s
    else c :: standard 0 (c = '"') s
  | 0, true, c :: s =>
    if c = '\\' then (standardEscape s).1 ++ standard (standardEscape s).2 true s
    else c :: standard 0 (c ≠ '"') s

/-- What `json.loads` finds in a text: an object, another value, or a `JSONDecodeError`. A text
that only Python's reader takes has no object here. -/
inductive Decoded where
  | dict (members : List (Str × Json))
  | other
  | failed

/-- `json.loads(text)`. -/
def decode (text : Str) : Decoded :=
  match loads text with
  | some (.obj members) => .dict members
  | some _ => .other
  | none => if (loads (standard 0 false text)).isSome then .other else .failed

/-- The text without surrounding blanks, and without the first and the last line of a fence. -/
def unfence (text : Str) : Str :=
  let stripped := strip text
  let lines := stripped.splitOn '\n'
  if "```".toList.isPrefixOf stripped ∧ 2 ≤ lines.length then
    ['\n'].intercalate lines.tail.dropLast
  else stripped

/-- `re.search(r"\{[^{}]*\}", text)`. -/
def searchBraces : Str → Option Str
  | [] => none
  | c :: s =>
    if c = '{' then
      match s.dropWhile (!isBrace ·) with
      | '}' :: _ => some ('{' :: (s.takeWhile (!isBrace ·) ++ ['}']))
      | _ => searchBraces s
    else searchBraces s

/-- `extract_from_text`; `none` is an `OverflowError`. -/
def JsonSchemaValidator.extractFromText (validator : JsonSchemaValidator) (text : Str) :
    Option (Option (List (Str × Json))) :=
  match decode (unfence text) with
  | .dict members => (validator.coerce members).map some
  | .other => some none
  | .failed =>
    match (searchBraces text).map decode with
    | some (.dict members) => (validator.coerce members).map some
    | _ => some none

/-! ### The first pair of braces -/

theorem searchBraces_append {a : Str} (ha : ∀ c ∈ a, isBrace c = false) (t : Str) :
    searchBraces (a ++ t) = searchBraces t := by
  induction a with
  | nil => rfl
  | cons c a ih =>
    have hc : c ≠ '{' := by
      rintro rfl
      exact absurd (ha _ List.mem_cons_self) (by decide)
    rw [List.cons_append, searchBraces, if_neg hc,
      ih fun d hd => ha d (List.mem_cons_of_mem _ hd)]

theorem searchBraces_pair {inner : Str} (h : ∀ c ∈ inner, isBrace c = false) (t : Str) :
    searchBraces ('{' :: (inner ++ '}' :: t)) = some ('{' :: (inner ++ ['}'])) := by
  have hinner : ∀ c ∈ inner, (!isBrace c) = true := fun c hc => by rw [h c hc]; rfl
  have htake : (inner ++ '}' :: t).takeWhile (!isBrace ·) = inner := by
    rw [List.takeWhile_append_of_pos hinner, List.takeWhile_cons_of_neg (by decide),
      List.append_nil]
  have hdrop : (inner ++ '}' :: t).dropWhile (!isBrace ·) = '}' :: t := by
    rw [List.dropWhile_append_of_pos hinner, List.dropWhile_cons_of_neg (by decide)]
  rw [searchBraces, if_pos rfl, hdrop, htake]
  rfl

/-- In a text that opens a brace and closes one at its end, a pair is found, without braces in
between. -/
theorem exists_searchBraces {s : Str} (hs : '{' ∈ s) (t : Str) :
    ∃ inner, searchBraces (s ++ '}' :: t) = some ('{' :: (inner ++ ['}'])) ∧
      '{' :: (inner ++ ['}']) <:+: s ++ ['}'] ∧ ∀ c ∈ inner, isBrace c = false := by
  induction s with
  | nil => exact absurd hs List.not_mem_nil
  | cons c s ih =>
    by_cases hc : c = '{'
    · subst hc
      cases hnext : s.find? isBrace with
      | none =>
        have hinner : ∀ c ∈ s, isBrace c = false := fun c hc =>
          Bool.eq_false_iff.mpr (List.find?_eq_none.mp hnext c hc)
        exact ⟨s, searchBraces_pair hinner t, List.infix_rfl, hinner⟩
      | some d =>
        obtain ⟨hd, a, b, rfl, ha⟩ := List.find?_eq_some_iff_append.mp hnext
        have ha' : ∀ c ∈ a, isBrace c = false := fun c hc => by simpa using ha c hc
        simp only [isBrace, Bool.or_eq_true, decide_eq_true_eq] at hd
        rcases hd with rfl | rfl
        · -- another brace opens before one closes
          obtain ⟨inner, hfound, hinfix, hinner⟩ := ih (by simp)
          refine ⟨inner, ?_, hinfix.trans (List.suffix_cons _ _).isInfix, hinner⟩
          have hdrop : ((a ++ '{' :: b) ++ '}' :: t).dropWhile (!isBrace ·)
              = '{' :: (b ++ '}' :: t) := by
            rw [List.append_assoc, List.dropWhile_append_of_pos fun c hc => by rw [ha' c hc]; rfl,
              List.cons_append, List.dropWhile_cons_of_neg (by decide)]
          rw [List.cons_append, searchBraces, if_pos rfl, hdrop, ← hfound]
          rfl
        · refine ⟨a, ?_, ⟨[], b ++ ['}'], by simp⟩, ha'⟩
          have hpair := searchBraces_pair ha' (b ++ '}' :: t)
          rw [List.cons_append, List.append_assoc, List.cons_append]
          exact hpair
    · have hmem : '{' ∈ s := (List.mem_cons.mp hs).resolve_left (Ne.symm hc)
      obtain ⟨inner, hfound, hinfix, hinner⟩ := ih hmem
      refine ⟨inner, ?_, hinfix.trans (List.suffix_cons c _).isInfix, hinner⟩
      rw [List.cons_append, searchBraces, if_neg hc, hfound]

/-! ### The lines of a text -/

section Lines

variable {t x y : Str}

private theorem intercalate_dropLast (hy : '\n' ∉ y) :
    ['\n'].intercalate ((x ++ '\n' :: y).splitOn '\n').dropLast = x := by
  rw [List.splitOn_append_cons_self, List.splitOn_eq_singleton hy, List.dropLast_concat,
    List.intercalate_splitOn]

private theorem intercalate_dropLast_single (ht : '\n' ∉ t) :
    ['\n'].intercalate (t.splitOn '\n').dropLast = [] := by
  rw [List.splitOn_eq_singleton ht]
  rfl

private theorem exists_last_line (ht : '\n' ∈ t) : ∃ x y, t = x ++ '\n' :: y ∧ '\n' ∉ y := by
  obtain ⟨y, x, heq, hy⟩ := List.eq_append_cons_of_mem (List.mem_reverse.mpr ht)
  refine ⟨x.reverse, y.reverse, ?_, fun hmem => hy (List.mem_reverse.mp hmem)⟩
  rw [← List.reverse_inj, heq]
  simp

private theorem mem_of_mem_dropLast {c : Char}
    (hc : c ∈ ['\n'].intercalate (t.splitOn '\n').dropLast) : c ∈ t := by
  by_cases ht : '\n' ∈ t
  · obtain ⟨x, y, rfl, hy⟩ := exists_last_line ht
    rw [intercalate_dropLast hy] at hc
    exact List.mem_append_left _ hc
  · rw [intercalate_dropLast_single ht] at hc
    exact absurd hc List.not_mem_nil

end Lines

/-! ### The text around an object -/

/-- `s.rstrip()`. -/
def rstrip (s : Str) : Str := (lstrip s.reverse).reverse

def JsonBlank (s : Str) : Prop := ∀ c ∈ s, isWs c = true

/-- A fence is around what is between the two texts: the first begins with a line that opens a
fence, the second ends with another line, and there are only blanks besides. -/
structure Fenced (p s : Str) : Prop where
  opens : "```" <+: lstrip p
  before : ∃ first after, lstrip p = first ++ '\n' :: after ∧ '\n' ∉ first ∧ JsonBlank after
  behind : ∃ before last, rstrip s = before ++ '\n' :: last ∧ '\n' ∉ last ∧ JsonBlank before

private theorem prefix_of_notMem {w x y : Str} {c : Char} (h : w <+: x ++ c :: y) (hc : c ∉ w) :
    w <+: x := by
  rcases Nat.lt_or_ge x.length w.length with hlt | hge
  · have hlonger : x ++ [c] <+: w :=
      List.prefix_of_prefix_length_le ⟨y, by simp⟩ h (by
        rw [List.length_append, List.length_singleton]
        exact hlt)
    exact absurd (hlonger.subset (by simp)) hc
  · exact List.prefix_of_prefix_length_le h ⟨c :: y, rfl⟩ hge

section Around

variable (p s : Str) (ms : List (Str × Json))

private theorem notMem_asciiDumps {c : Char} (hc : c.toNat < 32) : c ∉ asciiDumps (.obj ms) :=
  fun hmem => absurd (printable_asciiDumps _ c hmem).1 (by omega)

theorem strip_around :
    strip (p ++ asciiDumps (.obj ms) ++ s) = lstrip p ++ asciiDumps (.obj ms) ++ rstrip s := by
  obtain ⟨inner, hbraces, -⟩ := asciiDumps_obj ms
  have hstart : ∀ {x : Str} {c : Char} (y : Str), startsBlank x = false → isSpace c = false →
      startsBlank (x ++ c :: y) = false := by
    intro x c y hx hc
    cases x with
    | nil => simpa [startsBlank] using hc
    | cons d x => exact hx
  obtain ⟨b, hb, hp⟩ := exists_blank_append p
  obtain ⟨b', hb', hs⟩ := exists_blank_append s.reverse
  have hs' : s = rstrip s ++ b'.reverse := by
    rw [← List.reverse_inj, hs, List.reverse_append, List.reverse_reverse, rstrip,
      List.reverse_reverse]
    rfl
  have htext : p ++ asciiDumps (.obj ms) ++ s
      = b ++ (lstrip p ++ asciiDumps (.obj ms) ++ rstrip s) ++ b'.reverse := by
    conv_lhs => rw [hp, hs']
    simp [lstrip]
  rw [htext]
  refine strip_append hb hb'.reverse ?_ ?_
  · rw [hbraces, List.append_assoc, List.cons_append]
    exact hstart _ (startsBlank_dropWhile p) (by decide)
  · have hreverse : (lstrip p ++ asciiDumps (.obj ms) ++ rstrip s).reverse
        = lstrip s.reverse ++ '}' :: (inner.reverse ++ '{' :: (lstrip p).reverse) := by
      rw [hbraces, rstrip]
      simp
    rw [endsBlank, hreverse]
    exact hstart _ (startsBlank_dropWhile _) (by decide)

private theorem unfence_eq_strip {text : Str}
    (h : ¬ ("```" <+: strip text ∧ '\n' ∈ strip text)) : unfence text = strip text := by
  refine if_neg fun hfence => h ⟨List.isPrefixOf_iff_prefix.mp hfence.1, ?_⟩
  by_contra hline
  have hlength := hfence.2
  rw [List.splitOn_eq_singleton hline, List.length_singleton] at hlength
  omega

private theorem unfence_eq_lines {text x y : Str} (h : strip text = x ++ '\n' :: y)
    (hx : '\n' ∉ x) (hfence : "```" <+: strip text) :
    unfence text = ['\n'].intercalate (y.splitOn '\n').dropLast := by
  have hlines : (strip text).splitOn '\n' = x :: y.splitOn '\n' := by
    rw [h, List.splitOn_append_cons_self, List.splitOn_eq_singleton hx]
    rfl
  have hlength : 2 ≤ ((strip text).splitOn '\n').length := by
    rw [hlines, List.length_cons]
    have hpos := List.length_pos_of_ne_nil (List.splitOn_ne_nil '\n' y)
    omega
  refine (if_pos ⟨List.isPrefixOf_iff_prefix.mpr hfence, hlength⟩).trans ?_
  rw [hlines, List.tail_cons]

theorem unfence_of_fence {first after before last : Str} (hopens : "```" <+: lstrip p)
    (hp : lstrip p = first ++ '\n' :: after) (hfirst : '\n' ∉ first)
    (hs : rstrip s = before ++ '\n' :: last) (hlast : '\n' ∉ last) :
    unfence (p ++ asciiDumps (.obj ms) ++ s) = after ++ asciiDumps (.obj ms) ++ before := by
  have hstrip := strip_around p s ms
  rw [hp, hs] at hstrip
  have hlines : strip (p ++ asciiDumps (.obj ms) ++ s)
      = first ++ '\n' :: (after ++ asciiDumps (.obj ms) ++ before ++ '\n' :: last) := by
    rw [hstrip]
    simp
  have hfence : "```" <+: strip (p ++ asciiDumps (.obj ms) ++ s) := by
    rw [strip_around, List.append_assoc]
    exact hopens.trans (List.prefix_append _ _)
  rw [unfence_eq_lines hlines hfirst hfence, intercalate_dropLast hlast]

/-- What is looked at: the text without blanks around it, what is between the lines of a fence, or
a text that has lost the object. -/
private theorem unfence_cases (hp : ∀ c ∈ p, isBrace c = false) (hs : ∀ c ∈ s, isBrace c = false) :
    unfence (p ++ asciiDumps (.obj ms) ++ s)
        = lstrip p ++ asciiDumps (.obj ms) ++ rstrip s ∨
      (∃ first after before last, "```" <+: lstrip p ∧
        lstrip p = first ++ '\n' :: after ∧ '\n' ∉ first ∧
        rstrip s = before ++ '\n' :: last ∧ '\n' ∉ last ∧
        unfence (p ++ asciiDumps (.obj ms) ++ s) = after ++ asciiDumps (.obj ms) ++ before) ∨
      ∀ c ∈ unfence (p ++ asciiDumps (.obj ms) ++ s), isBrace c = false := by
  have hstrip := strip_around p s ms
  have hdumps : '\n' ∉ asciiDumps (.obj ms) := notMem_asciiDumps ms (by decide)
  have hp' : ∀ c ∈ lstrip p, isBrace c = false := fun c hc =>
    hp c ((List.dropWhile_suffix isSpace).subset hc)
  have hs' : ∀ c ∈ rstrip s, isBrace c = false := fun c hc =>
    hs c (List.mem_reverse.mp ((List.dropWhile_suffix isSpace).subset (List.mem_reverse.mp hc)))
  by_cases hfence : "```" <+: strip (p ++ asciiDumps (.obj ms) ++ s) ∧
      '\n' ∈ strip (p ++ asciiDumps (.obj ms) ++ s)
  · obtain ⟨hfence, hline⟩ := hfence
    obtain ⟨inner, hbraces, -⟩ := asciiDumps_obj ms
    have hopens : "```" <+: lstrip p := by
      rw [hstrip, hbraces, List.append_assoc, List.cons_append] at hfence
      exact prefix_of_notMem hfence (by decide)
    right
    by_cases hpline : '\n' ∈ lstrip p
    · obtain ⟨first, after, hfirstline, hfirst⟩ := List.eq_append_cons_of_mem hpline
      by_cases hsline : '\n' ∈ rstrip s
      · obtain ⟨before, last, hlastline, hlast⟩ := exists_last_line hsline
        exact Or.inl ⟨first, after, before, last, hopens, hfirstline, hfirst, hlastline, hlast,
          unfence_of_fence p s ms hopens hfirstline hfirst hlastline hlast⟩
      · -- the object is in the last line
        right
        have hlines : strip (p ++ asciiDumps (.obj ms) ++ s)
            = first ++ '\n' :: (after ++ (asciiDumps (.obj ms) ++ rstrip s)) := by
          rw [hstrip, hfirstline]
          simp
        rw [unfence_eq_lines hlines hfirst hfence]
        have hrest : '\n' ∉ asciiDumps (.obj ms) ++ rstrip s := fun hmem =>
          (List.mem_append.mp hmem).elim hdumps hsline
        intro c hc
        by_cases hafter : '\n' ∈ after
        · obtain ⟨x, y, hx, hy⟩ := exists_last_line hafter
          rw [hx, List.append_assoc, List.cons_append, intercalate_dropLast fun hmem =>
            (List.mem_append.mp hmem).elim hy hrest] at hc
          refine hp' c ?_
          rw [hfirstline, hx]
          simp [hc]
        · rw [intercalate_dropLast_single fun hmem =>
            (List.mem_append.mp hmem).elim hafter hrest] at hc
          exact absurd hc List.not_mem_nil
    · -- the object is in the first line
      right
      have hsline : '\n' ∈ rstrip s := by
        rw [hstrip] at hline
        rcases List.mem_append.mp hline with hmem | hmem
        · exact absurd hmem fun hmem => (List.mem_append.mp hmem).elim hpline hdumps
        · exact hmem
      obtain ⟨x, y, hx, hxline⟩ := List.eq_append_cons_of_mem hsline
      have hlines : strip (p ++ asciiDumps (.obj ms) ++ s)
          = (lstrip p ++ asciiDumps (.obj ms) ++ x) ++ '\n' :: y := by
        rw [hstrip, hx]
        simp
      have hfirst : '\n' ∉ lstrip p ++ asciiDumps (.obj ms) ++ x := fun hmem =>
        (List.mem_append.mp hmem).elim
          (fun hmem => (List.mem_append.mp hmem).elim hpline hdumps) hxline
      rw [unfence_eq_lines hlines hfirst hfence]
      intro c hc
      refine hs' c ?_
      rw [hx]
      exact List.mem_append_right _ (List.mem_cons_of_mem _ (mem_of_mem_dropLast hc))
  · exact Or.inl ((unfence_eq_strip hfence).trans hstrip)

end Around

/-! ### What is extracted -/

theorem decode_eq_dict {t : Str} {ms : List (Str × Json)} :
    decode t = .dict ms ↔ loads t = some (.obj ms) := by
  rw [decode]
  split
  · next members h => simp [h]
  · next v hne h =>
    constructor
    · intro hdict
      exact absurd hdict (by simp)
    · intro hobj
      exact absurd (Option.some.inj (h.symm.trans hobj)) (hne ms)
  · next h => split_ifs <;> simp [h]

/-- The object is all of the text but for blanks, or within a fence, or it has no other object
inside and no brace in its strings, and the text is no JSON text. -/
def Findable (p s : Str) (o : PyJson.Dict) : Prop :=
  (IsBlank p ∧ IsBlank s) ∨ Fenced p s ∨
    membersBraceless o.members = true ∧
      decode (unfence (p ++ asciiDumps o.toJson ++ s)) = .failed

section Extraction

variable {p s : Str} {o : PyJson.Dict}

private theorem extract_of_decode (validator : JsonSchemaValidator) {text : Str}
    (h : decode (unfence text) = .dict o.members) :
    validator.extractFromText text = (validator.coerce o.members).map some := by
  rw [JsonSchemaValidator.extractFromText, h]

private theorem decode_around {x y : Str} (hx : JsonBlank x) (hy : JsonBlank y) :
    decode (x ++ asciiDumps o.toJson ++ y) = .dict o.members :=
  decode_eq_dict.mpr (loads_asciiDumps o.toJson_wf hx hy)

private theorem decode_asciiDumps : decode (asciiDumps o.toJson) = .dict o.members := by
  have hself := decode_around (o := o) (x := []) (y := []) (by simp [JsonBlank])
    (by simp [JsonBlank])
  rwa [List.nil_append, List.append_nil] at hself

theorem extract_of_blank (validator : JsonSchemaValidator) (hp : IsBlank p) (hs : IsBlank s) :
    validator.extractFromText (p ++ asciiDumps o.toJson ++ s)
      = (validator.coerce o.members).map some := by
  refine extract_of_decode validator ?_
  have hstrip := strip_around p s o.members
  have hp' : lstrip p = [] := List.dropWhile_eq_nil_iff.mpr hp
  have hs' : rstrip s = [] := by
    rw [rstrip, List.reverse_eq_nil_iff]
    exact List.dropWhile_eq_nil_iff.mpr hs.reverse
  rw [hp', hs', List.nil_append, List.append_nil] at hstrip
  obtain ⟨inner, hbraces, -⟩ := asciiDumps_obj o.members
  have hfence : ¬ "```" <+: strip (p ++ asciiDumps (.obj o.members) ++ s) := by
    rw [hstrip, hbraces]
    intro hfence
    exact absurd (List.cons_prefix_cons.mp hfence).1 (by decide)
  rw [Dict.toJson, unfence_eq_strip fun h => hfence h.1, hstrip]
  exact decode_asciiDumps

theorem extract_of_fenced (validator : JsonSchemaValidator) (h : Fenced p s) :
    validator.extractFromText (p ++ asciiDumps o.toJson ++ s)
      = (validator.coerce o.members).map some := by
  obtain ⟨hopens, ⟨first, after, hp, hfirst, hafter⟩, before, last, hs, hlast, hbefore⟩ := h
  refine extract_of_decode validator ?_
  rw [Dict.toJson, unfence_of_fence p s o.members hopens hp hfirst hs hlast]
  exact decode_around hafter hbefore

theorem extract_of_braceless (validator : JsonSchemaValidator)
    (hp : ∀ c ∈ p, isBrace c = false) (ho : membersBraceless o.members = true)
    (hfailed : decode (unfence (p ++ asciiDumps o.toJson ++ s)) = .failed) :
    validator.extractFromText (p ++ asciiDumps o.toJson ++ s)
      = (validator.coerce o.members).map some := by
  obtain ⟨inner, hbraces, hall⟩ := asciiDumps_obj o.members
  have hinner : ∀ c ∈ inner, isBrace c = false := fun c hc => by
    simpa using List.all_eq_true.mp (hall.trans ho) c hc
  have hfound : searchBraces (p ++ asciiDumps o.toJson ++ s) = some (asciiDumps o.toJson) := by
    rw [Dict.toJson, hbraces, List.append_assoc, searchBraces_append hp]
    simpa using searchBraces_pair hinner s
  rw [JsonSchemaValidator.extractFromText, hfailed, hfound, Option.map_some, decode_asciiDumps]

private theorem jsonBlank_of_skipWs {x y r : Str} (hx : ∀ c ∈ x, isBrace c = false)
    (h : skipWs (x ++ y) = '{' :: r) : JsonBlank x := by
  induction x with
  | nil => simp [JsonBlank]
  | cons c x ih =>
    by_cases hc : isWs c = true
    · rw [List.cons_append, skipWs, List.dropWhile_cons_of_pos hc] at h
      have hrest := ih (fun d hd => hx d (List.mem_cons_of_mem _ hd)) h
      exact fun d hd => (List.mem_cons.mp hd).elim (fun heq => heq ▸ hc) (hrest d)
    · rw [List.cons_append, skipWs, List.dropWhile_cons_of_neg hc, List.cons.injEq] at h
      rw [h.1] at hx
      exact absurd (hx _ List.mem_cons_self) (by decide)

private theorem jsonBlank_of_suffix {x y r : Str} (hy : ∀ c ∈ y, isBrace c = false)
    (h : '}' :: r <:+ x ++ y) (hr : JsonBlank r) : JsonBlank y := by
  rcases Nat.lt_or_ge r.length y.length with hlt | hge
  · have hsuffix : '}' :: r <:+ y :=
      List.suffix_of_suffix_length_le h (List.suffix_append x y) hlt
    exact absurd (hy _ (hsuffix.subset List.mem_cons_self)) (by decide)
  · have hsuffix : y <:+ r :=
      List.suffix_of_suffix_length_le (List.suffix_append x y)
        ((List.suffix_cons '}' r).trans h) hge
    exact fun c hc => hr c (hsuffix.subset hc)

private theorem findable_of_dict (hp : ∀ c ∈ p, isBrace c = false) (hs : ∀ c ∈ s, isBrace c = false)
    {ms : List (Str × Json)}
    (h : decode (unfence (p ++ asciiDumps o.toJson ++ s)) = .dict ms) :
    (IsBlank p ∧ IsBlank s) ∨ Fenced p s := by
  obtain ⟨⟨r, hopen⟩, r', hclose, hr'⟩ := braces_of_loads (decode_eq_dict.mp h)
  have hspace : ∀ {t : Str}, JsonBlank t → IsBlank t := by
    intro t ht c hc
    have hws := ht c hc
    simp only [isWs, Bool.or_eq_true, decide_eq_true_eq] at hws
    rcases hws with ((rfl | rfl) | rfl) | rfl <;> decide
  have hp' : ∀ c ∈ lstrip p, isBrace c = false := fun c hc =>
    hp c ((List.dropWhile_suffix isSpace).subset hc)
  have hs' : ∀ c ∈ rstrip s, isBrace c = false := fun c hc =>
    hs c (List.mem_reverse.mp ((List.dropWhile_suffix isSpace).subset (List.mem_reverse.mp hc)))
  rw [Dict.toJson] at hopen hclose
  rcases unfence_cases p s o.members hp hs with hall |
    ⟨first, after, before, last, hopens, hpline, hfirst, hsline, hlast, hall⟩ | hnone
  · left
    rw [hall] at hopen hclose
    rw [List.append_assoc] at hopen
    have hblank := hspace (jsonBlank_of_skipWs hp' hopen)
    have hblank' := hspace (jsonBlank_of_suffix hs' hclose hr')
    obtain ⟨b, hb, hpb⟩ := exists_blank_append p
    obtain ⟨b', hb', hsb⟩ := exists_blank_append s.reverse
    refine ⟨?_, ?_⟩
    · rw [hpb]
      exact hb.append hblank
    · rw [← List.reverse_reverse s, hsb]
      refine (hb'.append fun c hc => ?_).reverse
      exact hblank' c (List.mem_reverse.mpr hc)
  · right
    rw [hall] at hopen hclose
    rw [List.append_assoc] at hopen
    rw [hpline] at hp'
    rw [hsline] at hs'
    refine ⟨hopens, ⟨first, after, hpline, hfirst, jsonBlank_of_skipWs (fun c hc => ?_) hopen⟩,
      before, last, hsline, hlast, jsonBlank_of_suffix (fun c hc => ?_) hclose hr'⟩
    · exact hp' c (by simp [hc])
    · exact hs' c (by simp [hc])
  · have hmem : '{' ∈ skipWs (unfence (p ++ asciiDumps (.obj o.members) ++ s)) := by
      rw [hopen]
      exact List.mem_cons_self
    exact absurd (hnone _ ((List.dropWhile_suffix isWs).subset hmem)) (by decide)

private theorem braceless_of_search (hp : ∀ c ∈ p, isBrace c = false)
    (h : (searchBraces (p ++ asciiDumps o.toJson ++ s)).map decode = some (.dict o.members)) :
    membersBraceless o.members = true := by
  obtain ⟨inner, hbraces, hall⟩ := asciiDumps_obj o.members
  obtain ⟨inner', hfound, hinfix, hinner'⟩ :=
    exists_searchBraces (s := '{' :: inner) List.mem_cons_self s
  have htext : searchBraces (p ++ asciiDumps o.toJson ++ s)
      = some ('{' :: (inner' ++ ['}'])) := by
    rw [← hfound, Dict.toJson, hbraces, List.append_assoc, searchBraces_append hp]
    simp
  rw [htext, Option.map_some] at h
  have hloads := decode_eq_dict.mp (Option.some.inj h)
  rw [List.cons_append, ← hbraces] at hinfix
  -- what is found is all of the object
  have hself := eq_of_loads_infix hinfix hloads
  rw [hbraces, List.cons.injEq, List.append_left_inj] at hself
  rw [← hall, ← hself.2, List.all_eq_true]
  intro c hc
  rw [hinner' c hc]
  rfl

def plainValidator : JsonSchemaValidator where
  conv := ⟨fun _ => [], fun _ => .refused, fun _ => .refused⟩
  properties := []

private theorem coerce_plainValidator (ms : List (Str × Json)) :
    plainValidator.coerce ms = some ms := rfl

/-- **Which objects are extracted.** Whatever the schema, an object is found in its text between
two texts without braces, and coerced to the schema, exactly if it is findable there. -/
theorem extracts_iff (hp : ∀ c ∈ p, isBrace c = false) (hs : ∀ c ∈ s, isBrace c = false) :
    (∀ validator : JsonSchemaValidator,
      validator.extractFromText (p ++ asciiDumps o.toJson ++ s)
        = (validator.coerce o.members).map some) ↔ Findable p s o := by
  constructor
  · intro hall
    have hself := hall plainValidator
    rw [JsonSchemaValidator.extractFromText] at hself
    simp only [coerce_plainValidator, Option.map_some] at hself
    split at hself
    · next ms hdict => exact (findable_of_dict hp hs hdict).imp_right Or.inl
    · exact absurd hself (by simp)
    · next hfailed =>
      refine Or.inr (Or.inr ⟨braceless_of_search (s := s) hp ?_, hfailed⟩)
      split at hself
      · next ms hfound =>
        rw [hfound]
        exact congrArg (some ∘ Decoded.dict) (Option.some.inj (Option.some.inj hself))
      · exact absurd hself (by simp)
  · rintro (⟨hpblank, hsblank⟩ | hfenced | ⟨ho, hfailed⟩) validator
    · exact extract_of_blank validator hpblank hsblank
    · exact extract_of_fenced validator hfenced
    · exact extract_of_braceless validator hp ho hfailed

end Extraction

def oneField (value : Json) (h : value.WF) : PyJson.Dict where
  members := [("a", value)]
  nodup := List.nodup_singleton _
  wf := fun m hm => by
    obtain rfl := List.mem_singleton.mp hm
    exact h

theorem decode_eq_failed {t : Str} :
    decode t = .failed ↔ (loads t).isNone ∧ (loads (standard 0 false t)).isNone := by
  rw [decode]
  split
  · next h => simp [h]
  · next h => simp [h]
  · next h =>
    rw [h]
    cases loads (standard 0 false t) <;> simp

/-- An object without braces inside is found in any sentence, whatever the validator. -/
theorem extracts_flat :
    plainValidator.extractFromText
        ("Here: ".toList ++ asciiDumps (oneField (.num 1) trivial).toJson ++ ".".toList)
      = (plainValidator.coerce (oneField (.num 1) trivial).members).map some := by
  refine (extracts_iff (forall_mem_of_all (by decide))
    (forall_mem_of_all (by decide))).mpr (Or.inr (Or.inr ⟨by decide, ?_⟩)) plainValidator
  exact decode_eq_failed.mpr (by decide +kernel)

/-- Of an object with another one inside, in a sentence, only the inner one is found. -/
theorem not_extracts :
    ¬ ∀ (validator : JsonSchemaValidator) (p s : Str) (o : PyJson.Dict),
      (∀ c ∈ p, isBrace c = false) → (∀ c ∈ s, isBrace c = false) →
      validator.extractFromText (p ++ asciiDumps o.toJson ++ s)
        = (validator.coerce o.members).map some := by
  intro h
  have hkeys := congrArg (Option.map (Option.map (List.map Prod.fst)))
    (h plainValidator "Here: " "."
      (oneField (.obj [("b", .num 1)]) ⟨by decide, trivial, trivial⟩)
      (forall_mem_of_all (by decide)) (forall_mem_of_all (by decide)))
  exact absurd hkeys (by decide +kernel)

end AgentStudio.Execution

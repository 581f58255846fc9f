import AgentStudio.Library.JsonAscii
import AgentStudio.Library.WordSplit

/-!
# The braces of a JSON text

Which characters the text of a value has (`printable_asciiDumps`), and whether braces are among
them: `membersBraceless` tells whether an object has none but its own two (`asciiDumps_obj`).

`weight` counts the braces and the letters `u` of a text. What is read from a text of printable
ASCII weighs no more than the text (`weigh_le_of_loads`): a brace of a string may be
written as an escape, which has a `u`, and the other characters of the text that `asciiDumps`
writes weigh nothing. So an object cannot be read from a proper part of its own text
(`eq_of_loads_infix`), as that would leave out a brace.
-/

namespace PyJson

open PyText PyDict

/-! ### Characters -/

/-- The text has only printable ASCII characters. -/
def Printable (s : Str) : Prop := ∀ c ∈ s, 32 ≤ c.toNat ∧ c.toNat < 127

variable {s : Str} {n : ℕ} {c : Char}

theorem Printable.of_suffix {t : Str} (h : Printable t) (hs : s <:+ t) : Printable s :=
  fun c hc => h c (hs.subset hc)

private theorem digitChar_lt {d : ℕ} (hd : d < 16) :
    32 ≤ (Nat.digitChar d).toNat ∧ (Nat.digitChar d).toNat < 127 := by
  have hall : ∀ d : Fin 16, 32 ≤ (Nat.digitChar d).toNat ∧ (Nat.digitChar d).toNat < 127 := by
    decide
  exact hall ⟨d, hd⟩

private theorem printable_escapeUnit (hn : n < 0x10000) : Printable (escapeUnit n) := by
  intro c hc
  simp only [escapeUnit, List.mem_cons, List.not_mem_nil, or_false] at hc
  rcases hc with rfl | rfl | rfl | rfl | rfl | rfl
  · decide
  · decide
  all_goals exact digitChar_lt (by omega)

private theorem printable_asciify (h : ∀ c ∈ s, 32 ≤ c.toNat) : Printable (asciify s) := by
  intro c hc
  obtain ⟨d, hd, hc⟩ := List.mem_flatMap.mp hc
  have hvalid : d.toNat < 0xD800 ∨ 0xDFFF < d.toNat ∧ d.toNat < 0x110000 := d.valid
  rw [asciiChar] at hc
  split_ifs at hc with hascii hunit
  · obtain rfl := List.mem_singleton.mp hc
    exact ⟨h c hd, hascii⟩
  · exact printable_escapeUnit hunit c hc
  · rcases List.mem_append.mp hc with hc | hc
    · exact printable_escapeUnit (by omega) c hc
    · exact printable_escapeUnit (by omega) c hc

private theorem le_of_mem_escapeChar {d : Char} (h : d ∈ escapeChar c) : 32 ≤ d.toNat := by
  rw [escapeChar] at h
  split_ifs at h with hq hb hn hr ht h8 h12 hctl
  all_goals simp only [List.mem_cons, List.not_mem_nil, or_false] at h
  · rcases h with rfl | rfl <;> decide
  · rcases h with rfl | rfl <;> decide
  · rcases h with rfl | rfl <;> decide
  · rcases h with rfl | rfl <;> decide
  · rcases h with rfl | rfl <;> decide
  · rcases h with rfl | rfl <;> decide
  · rcases h with rfl | rfl <;> decide
  · rcases h with rfl | rfl | rfl | rfl | rfl | rfl
    · decide
    · decide
    · decide
    · decide
    · exact (digitChar_lt (by omega)).1
    · exact (digitChar_lt (by omega)).1
  · subst h
    omega

private theorem le_of_mem_quote (h : c ∈ quote s) : 32 ≤ c.toNat := by
  simp only [quote, List.mem_cons, List.mem_append, List.mem_flatMap, List.not_mem_nil,
    or_false] at h
  rcases h with rfl | ⟨d, -, hd⟩ | rfl
  · decide
  · exact le_of_mem_escapeChar hd
  · decide

private theorem le_of_mem_toStr {n : Number} (h : c ∈ n.toStr) : 32 ≤ c.toNat := by
  rcases mem_toStr h with rfl | rfl | hdigit
  · decide
  · decide
  · have := Char.isDigit_iff_toNat.mp hdigit
    have hzero : '0'.toNat = 48 := rfl
    omega

mutual

/-- A text without indent has no control characters. -/
private theorem le_of_mem_dumpsAt : ∀ (j : Json) (depth : ℕ),
    ∀ c ∈ dumpsAt none depth j, 32 ≤ c.toNat
  | .null, _ => by
    rw [dumpsAt]
    exact forall_mem_of_all (by decide)
  | .bool true, _ => by
    rw [dumpsAt]
    exact forall_mem_of_all (by decide)
  | .bool false, _ => by
    rw [dumpsAt]
    exact forall_mem_of_all (by decide)
  | .num n, _ => fun c hc => by
    rw [dumpsAt] at hc
    exact le_of_mem_toStr hc
  | .str s, _ => fun c hc => by
    rw [dumpsAt] at hc
    exact le_of_mem_quote hc
  | .arr [], _ => by
    rw [dumpsAt]
    exact forall_mem_of_all (by decide)
  | .arr (v :: vs), depth => fun c hc => by
    simp only [dumpsAt, newline, List.nil_append, List.append_nil, List.mem_cons, List.mem_append,
      List.not_mem_nil, or_false] at hc
    rcases hc with rfl | (hc | hc) | rfl
    · decide
    · exact le_of_mem_dumpsAt v _ c hc
    · exact le_of_mem_dumpsItems vs _ c hc
    · decide
  | .obj [], _ => by
    rw [dumpsAt]
    exact forall_mem_of_all (by decide)
  | .obj ((k, v) :: ms), depth => fun c hc => by
    simp only [dumpsAt, newline, List.nil_append, List.append_nil, List.mem_cons, List.mem_append,
      List.not_mem_nil, or_false] at hc
    rcases hc with rfl | ((hc | rfl | rfl | hc) | hc) | rfl
    · decide
    · exact le_of_mem_quote hc
    · decide
    · decide
    · exact le_of_mem_dumpsAt v _ c hc
    · exact le_of_mem_dumpsMembers ms _ c hc
    · decide

private theorem le_of_mem_dumpsItems : ∀ (vs : List Json) (depth : ℕ),
    ∀ c ∈ dumpsItems none depth vs, 32 ≤ c.toNat
  | [], _ => by simp [dumpsItems]
  | v :: vs, depth => fun c hc => by
    simp only [dumpsItems, separator, if_true, List.mem_cons, List.mem_append, List.not_mem_nil,
      or_false] at hc
    rcases hc with (rfl | rfl | hc) | hc
    · decide
    · decide
    · exact le_of_mem_dumpsAt v _ c hc
    · exact le_of_mem_dumpsItems vs _ c hc

private theorem le_of_mem_dumpsMembers : ∀ (ms : List (Str × Json)) (depth : ℕ),
    ∀ c ∈ dumpsMembers none depth ms, 32 ≤ c.toNat
  | [], _ => by simp [dumpsMembers]
  | (k, v) :: ms, depth => fun c hc => by
    simp only [dumpsMembers, separator, if_true, List.mem_cons, List.mem_append, List.not_mem_nil,
      or_false] at hc
    rcases hc with (rfl | rfl | hc | rfl | rfl | hc) | hc
    · decide
    · decide
    · exact le_of_mem_quote hc
    · decide
    · decide
    · exact le_of_mem_dumpsAt v _ c hc
    · exact le_of_mem_dumpsMembers ms _ c hc

end

/-- `asciiDumps` writes printable ASCII. -/
theorem printable_asciiDumps (j : Json) : Printable (asciiDumps j) :=
  printable_asciify (le_of_mem_dumpsAt j 0)

/-! ### Braces -/

/-- The character is a brace. -/
def isBrace (c : Char) : Bool := c = '{' || c = '}'

mutual

/-- No object is in the value and no brace in its strings. -/
def Json.braceless : Json → Bool
  | .null => true
  | .bool _ => true
  | .num _ => true
  | .str s => s.all (!isBrace ·)
  | .arr items => itemsBraceless items
  | .obj _ => false

/-- No object is in the items and no brace in their strings. -/
def itemsBraceless : List Json → Bool
  | [] => true
  | v :: vs => v.braceless && itemsBraceless vs

end

/-- No object is in the values of the members and no brace in their strings and keys. -/
def membersBraceless (ms : List (Str × Json)) : Bool :=
  ms.all fun m => m.1.all (!isBrace ·) && m.2.braceless

private theorem isBrace_digitChar {d : ℕ} (hd : d < 16) : isBrace (Nat.digitChar d) = false := by
  have hall : ∀ d : Fin 16, isBrace (Nat.digitChar d) = false := by decide
  exact hall ⟨d, hd⟩

private theorem all_escapeUnit (hn : n < 0x10000) : (escapeUnit n).all (!isBrace ·) = true := by
  simp [escapeUnit, isBrace_digitChar (show n / 4096 < 16 by omega),
    isBrace_digitChar (show n / 256 % 16 < 16 by omega),
    isBrace_digitChar (show n / 16 % 16 < 16 by omega),
    isBrace_digitChar (show n % 16 < 16 by omega)]
  decide

/-- A brace in a string is written as it is. -/
private theorem all_asciify_escapeChar (c : Char) :
    (asciify (escapeChar c)).all (!isBrace ·) = !isBrace c := by
  have hvalid : c.toNat < 0xD800 ∨ 0xDFFF < c.toNat ∧ c.toNat < 0x110000 := c.valid
  have hctl : c.toNat < 32 → isBrace c = false := fun h => by
    simp only [isBrace, Bool.or_eq_false_iff, decide_eq_false_iff_not]
    constructor <;> rintro rfl <;> exact absurd h (by decide)
  rw [escapeChar]
  split_ifs with hq hb hn hr ht h8 h12 hlow
  · subst hq; decide
  · subst hb; decide
  · subst hn; decide
  · subst hr; decide
  · subst ht; decide
  · rw [hctl (by omega)]; decide
  · rw [hctl (by omega)]; decide
  · have hd : (Nat.digitChar (c.toNat / 16)).toNat < 127 := (digitChar_lt (by omega)).2
    have hd' : (Nat.digitChar (c.toNat % 16)).toNat < 127 := (digitChar_lt (by omega)).2
    rw [hctl hlow, asciify_eq_self (by
      simp only [List.mem_cons, List.not_mem_nil, or_false]
      rintro d (rfl | rfl | rfl | rfl | rfl | rfl)
      · decide
      · decide
      · decide
      · decide
      · exact hd
      · exact hd')]
    simp [isBrace_digitChar (show c.toNat / 16 < 16 by omega),
      isBrace_digitChar (show c.toNat % 16 < 16 by omega)]
    decide
  · by_cases hascii : c.toNat < 127
    · simp [asciify, asciiChar, hascii]
    · have hc : isBrace c = false := by
        simp only [isBrace, Bool.or_eq_false_iff, decide_eq_false_iff_not]
        constructor <;> rintro rfl <;> exact hascii (by decide)
      rw [hc, asciify, List.flatMap_singleton, asciiChar, if_neg hascii]
      split_ifs with hunit
      · exact all_escapeUnit hunit
      · rw [List.all_append, all_escapeUnit (by omega), all_escapeUnit (by omega)]
        rfl

private theorem all_asciify_quote (s : Str) :
    (asciify (quote s)).all (!isBrace ·) = s.all (!isBrace ·) := by
  have hbody : (asciify (s.flatMap escapeChar)).all (!isBrace ·) = s.all (!isBrace ·) := by
    induction s with
    | nil => rfl
    | cons c s ih =>
      rw [List.flatMap_cons, asciify_append, List.all_append, all_asciify_escapeChar, ih,
        List.all_cons]
  rw [quote, asciify_cons (by decide), asciify_append, List.all_cons, List.all_append, hbody]
  simp [asciify, asciiChar, isBrace]

private theorem all_asciify_toStr (n : Number) : (asciify n.toStr).all (!isBrace ·) = true := by
  have hchar : ∀ c ∈ n.toStr, c.toNat < 127 ∧ isBrace c = false := by
    intro c hc
    rcases mem_toStr hc with rfl | rfl | hdigit
    · decide
    · decide
    · refine ⟨lt_of_isDigit hdigit, ?_⟩
      simp only [isBrace, Bool.or_eq_false_iff, decide_eq_false_iff_not]
      constructor <;> rintro rfl <;> exact absurd hdigit (by decide)
  rw [asciify_eq_self fun c hc => (hchar c hc).1, List.all_eq_true]
  intro c hc
  rw [(hchar c hc).2]
  rfl

mutual

/-- The text of a value has a brace exactly if the value has. -/
private theorem all_asciify_dumpsAt : ∀ (j : Json) (depth : ℕ),
    (asciify (dumpsAt none depth j)).all (!isBrace ·) = j.braceless
  | .null, _ => by simp only [dumpsAt, Json.braceless]; decide
  | .bool true, _ => by simp only [dumpsAt, Json.braceless]; decide
  | .bool false, _ => by simp only [dumpsAt, Json.braceless]; decide
  | .num n, _ => by rw [dumpsAt, Json.braceless, all_asciify_toStr]
  | .str s, _ => by rw [dumpsAt, Json.braceless, all_asciify_quote]
  | .arr [], _ => by simp only [dumpsAt, Json.braceless, itemsBraceless]; decide
  | .arr (v :: vs), depth => by
    rw [dumpsAt, asciify_cons (by decide), Json.braceless, itemsBraceless,
      ← all_asciify_dumpsAt v (depth + 1), ← all_asciify_dumpsItems vs (depth + 1)]
    simp only [newline, List.nil_append, List.append_nil, asciify_append, List.all_cons,
      List.all_append]
    simp [asciify, asciiChar, isBrace]
  | .obj [], _ => by simp only [dumpsAt, Json.braceless]; decide
  | .obj ((k, v) :: ms), depth => by
    rw [dumpsAt, asciify_cons (by decide), Json.braceless]
    rfl

private theorem all_asciify_dumpsItems : ∀ (vs : List Json) (depth : ℕ),
    (asciify (dumpsItems none depth vs)).all (!isBrace ·) = itemsBraceless vs
  | [], _ => by simp only [dumpsItems, itemsBraceless]; decide
  | v :: vs, depth => by
    rw [dumpsItems, itemsBraceless, ← all_asciify_dumpsAt v depth,
      ← all_asciify_dumpsItems vs depth]
    simp only [separator, if_true, asciify_append, List.all_append, List.cons_append,
      asciify_cons (show ','.toNat < 127 by decide),
      asciify_cons (show ' '.toNat < 127 by decide), List.all_cons]
    simp [isBrace]

end

private theorem all_asciify_dumpsMembers (ms : List (Str × Json)) (depth : ℕ) :
    (asciify (dumpsMembers none depth ms)).all (!isBrace ·) = membersBraceless ms := by
  induction ms with
  | nil => rfl
  | cons m ms ih =>
    obtain ⟨k, v⟩ := m
    rw [dumpsMembers, membersBraceless, List.all_cons, ← all_asciify_dumpsAt v depth,
      ← all_asciify_quote k]
    rw [membersBraceless] at ih
    rw [← ih]
    simp only [separator, if_true, asciify_append, List.all_append, List.cons_append,
      asciify_cons (show ','.toNat < 127 by decide),
      asciify_cons (show ' '.toNat < 127 by decide),
      asciify_cons (show ':'.toNat < 127 by decide), List.all_cons]
    simp [isBrace]

/-- The text of an object is between braces. -/
theorem asciiDumps_obj (ms : List (Str × Json)) :
    ∃ inner, asciiDumps (.obj ms) = '{' :: (inner ++ ['}']) ∧
      inner.all (!isBrace ·) = membersBraceless ms := by
  cases ms with
  | nil => exact ⟨[], rfl, rfl⟩
  | cons m ms =>
    obtain ⟨k, v⟩ := m
    refine ⟨asciify (quote k ++ ':' :: ' ' :: dumpsAt none 1 v ++ dumpsMembers none 1 ms), ?_, ?_⟩
    · rw [asciiDumps, dumps, dumpsAt, asciify_cons (by decide)]
      simp only [newline, List.nil_append, List.append_nil, asciify_append]
      rfl
    · rw [membersBraceless, List.all_cons, ← all_asciify_dumpsAt v 1, ← all_asciify_quote k]
      have hrest := all_asciify_dumpsMembers ms 1
      rw [membersBraceless] at hrest
      rw [← hrest]
      simp only [asciify_append, List.all_append, asciify_cons (show ':'.toNat < 127 by decide),
        asciify_cons (show ' '.toNat < 127 by decide), List.all_cons]
      simp [isBrace]

/-! ### Weight -/

/-- The character has a weight: a brace, or the letter of an escape. -/
def isHeavy (c : Char) : Bool := isBrace c || c = 'u'

/-- How many braces and letters `u` a text has. -/
def weight (s : Str) : ℕ := s.countP isHeavy

theorem weight_append (s t : Str) : weight (s ++ t) = weight s + weight t := List.countP_append

theorem weight_light (h : isHeavy c = false) : weight (c :: s) = weight s :=
  List.countP_cons_of_neg (by simp [h])

theorem weight_heavy (h : isHeavy c = true) :
    weight (c :: s) = weight s + 1 := List.countP_cons_of_pos h

private theorem isHeavy_digitChar {d : ℕ} (hd : d < 16) : isHeavy (Nat.digitChar d) = false := by
  have hall : ∀ d : Fin 16, isHeavy (Nat.digitChar d) = false := by decide
  exact hall ⟨d, hd⟩

private theorem weight_escapeUnit (hn : n < 0x10000) : weight (escapeUnit n) = 1 := by
  rw [escapeUnit, weight_light (by decide), weight_heavy (by decide),
    weight_light (isHeavy_digitChar (by omega)), weight_light (isHeavy_digitChar (by omega)),
    weight_light (isHeavy_digitChar (by omega)), weight_light (isHeavy_digitChar (by omega))]
  rfl

/-- The weight of a string in the text that is written for it. -/
def strWeigh (s : Str) : ℕ := weight (asciify (s.flatMap escapeChar))

theorem strWeigh_cons (c : Char) (s : Str) :
    strWeigh (c :: s) = weight (asciify (escapeChar c)) + strWeigh s := by
  rw [strWeigh, List.flatMap_cons, asciify_append, weight_append]
  rfl

/-- A character weighs no more than its escape: one for a code unit. -/
private theorem weight_escaped (c : Char) :
    weight (asciify (escapeChar c)) ≤ 1 ∨
      (0x10000 ≤ c.toNat ∧ weight (asciify (escapeChar c)) ≤ 2) := by
  have hvalid : c.toNat < 0xD800 ∨ 0xDFFF < c.toNat ∧ c.toNat < 0x110000 := c.valid
  rw [escapeChar]
  split_ifs with hq hb hn hr ht h8 h12 hctl
  · exact Or.inl (by decide)
  · exact Or.inl (by decide)
  · exact Or.inl (by decide)
  · exact Or.inl (by decide)
  · exact Or.inl (by decide)
  · exact Or.inl (by decide)
  · exact Or.inl (by decide)
  · left
    rw [asciify_cons (by decide), asciify_cons (by decide), asciify_cons (by decide),
      asciify_cons (by decide), asciify_cons (digitChar_lt (by omega)).2,
      asciify_cons (digitChar_lt (by omega)).2, weight_light (by decide), weight_heavy (by decide),
      weight_light (by decide), weight_light (by decide),
      weight_light (isHeavy_digitChar (by omega)), weight_light (isHeavy_digitChar (by omega))]
    decide
  · rw [asciify, List.flatMap_singleton, asciiChar]
    split_ifs with hascii hunit
    · exact Or.inl List.countP_le_length
    · exact Or.inl (weight_escapeUnit hunit).le
    · refine Or.inr ⟨by omega, ?_⟩
      rw [weight_append, weight_escapeUnit (by omega), weight_escapeUnit (by omega)]

mutual

/-- The weight of the text that is written for a value. -/
def Json.weigh : Json → ℕ
  | .null => 1
  | .bool true => 1
  | .bool false => 0
  | .num _ => 0
  | .str s => strWeigh s
  | .arr items => itemsWeigh items
  | .obj members => 2 + membersWeigh members

/-- The weight of the texts of items. -/
def itemsWeigh : List Json → ℕ
  | [] => 0
  | v :: vs => v.weigh + itemsWeigh vs

/-- The weight of the texts of members. -/
def membersWeigh : List (Str × Json) → ℕ
  | [] => 0
  | (k, v) :: ms => strWeigh k + v.weigh + membersWeigh ms

end

private theorem weight_asciify_quote (s : Str) : weight (asciify (quote s)) = strWeigh s := by
  rw [quote, asciify_cons (by decide), asciify_append, weight_light (by decide), weight_append,
    asciify_cons (by decide), weight_light (by decide)]
  rfl

private theorem weight_asciify_toStr (n : Number) : weight (asciify n.toStr) = 0 := by
  have hchar : ∀ c ∈ n.toStr, c.toNat < 127 ∧ ¬ isHeavy c = true := by
    intro c hc
    rcases mem_toStr hc with rfl | rfl | hdigit
    · decide
    · decide
    · refine ⟨lt_of_isDigit hdigit, ?_⟩
      simp only [isHeavy, isBrace, Bool.or_eq_true, decide_eq_true_eq]
      rintro ((rfl | rfl) | rfl) <;> exact absurd hdigit (by decide)
  rw [asciify_eq_self fun c hc => (hchar c hc).1]
  exact List.countP_eq_zero.mpr fun c hc => (hchar c hc).2

mutual

private theorem weight_asciify_dumpsAt : ∀ (j : Json) (depth : ℕ),
    weight (asciify (dumpsAt none depth j)) = j.weigh
  | .null, _ => by simp only [dumpsAt, Json.weigh]; decide
  | .bool true, _ => by simp only [dumpsAt, Json.weigh]; decide
  | .bool false, _ => by simp only [dumpsAt, Json.weigh]; decide
  | .num n, _ => by rw [dumpsAt, Json.weigh, weight_asciify_toStr]
  | .str s, _ => by rw [dumpsAt, Json.weigh, weight_asciify_quote]
  | .arr [], _ => by simp only [dumpsAt, Json.weigh, itemsWeigh]; decide
  | .arr (v :: vs), depth => by
    have hv := weight_asciify_dumpsAt v (depth + 1)
    have hvs := weight_asciify_dumpsItems vs (depth + 1)
    have hclose : weight (asciify [']']) = 0 := by decide
    rw [dumpsAt, asciify_cons (by decide), weight_light (by decide), Json.weigh, itemsWeigh]
    simp only [newline, List.nil_append, List.append_nil, asciify_append, weight_append]
    omega
  | .obj [], _ => by simp only [dumpsAt, Json.weigh, membersWeigh]; decide
  | .obj ((k, v) :: ms), depth => by
    have hk := weight_asciify_quote k
    have hv := weight_asciify_dumpsAt v (depth + 1)
    have hms := weight_asciify_dumpsMembers ms (depth + 1)
    have hclose : weight (asciify ['}']) = 1 := by decide
    rw [dumpsAt, asciify_cons (by decide), weight_heavy (by decide), Json.weigh, membersWeigh]
    simp only [newline, List.nil_append, List.append_nil, asciify_append, weight_append]
    rw [asciify_cons (c := ':') (by decide), asciify_cons (c := ' ') (by decide),
      weight_light (c := ':') (by decide), weight_light (c := ' ') (by decide)]
    omega

private theorem weight_asciify_dumpsItems : ∀ (vs : List Json) (depth : ℕ),
    weight (asciify (dumpsItems none depth vs)) = itemsWeigh vs
  | [], _ => rfl
  | v :: vs, depth => by
    have hv := weight_asciify_dumpsAt v depth
    have hvs := weight_asciify_dumpsItems vs depth
    have hspace : weight (asciify [' ']) = 0 := by decide
    rw [dumpsItems, itemsWeigh, List.cons_append, asciify_cons (by decide),
      weight_light (by decide)]
    simp only [separator, if_true, asciify_append, weight_append]
    omega

private theorem weight_asciify_dumpsMembers : ∀ (ms : List (Str × Json)) (depth : ℕ),
    weight (asciify (dumpsMembers none depth ms)) = membersWeigh ms
  | [], _ => rfl
  | (k, v) :: ms, depth => by
    have hk := weight_asciify_quote k
    have hv := weight_asciify_dumpsAt v depth
    have hms := weight_asciify_dumpsMembers ms depth
    have hspace : weight (asciify [' ']) = 0 := by decide
    rw [dumpsMembers, membersWeigh, List.cons_append, asciify_cons (by decide),
      weight_light (by decide)]
    simp only [separator, if_true, asciify_append, weight_append]
    rw [hspace, asciify_cons (c := ':') (by decide), asciify_cons (c := ' ') (by decide),
      weight_light (c := ':') (by decide), weight_light (c := ' ') (by decide)]
    omega

end

/-- The weight of what `asciiDumps` writes. -/
theorem weight_asciiDumps (j : Json) : weight (asciiDumps j) = j.weigh :=
  weight_asciify_dumpsAt j 0

/-! ### What is read weighs no more than the text -/

/-- Reading something of a weight from a text: what is left is an end of the text, and a text of
printable ASCII is not lighter than what is read and what is left. -/
def Spends (w : ℕ) (t r : Str) : Prop := r <:+ t ∧ (Printable t → w + weight r ≤ weight t)

namespace Spends

variable {w w' : ℕ} {t r r' : Str}

theorem trans (h : Spends w t r) (h' : Spends w' r r') : Spends (w + w') t r' := by
  refine ⟨h'.1.trans h.1, fun ht => ?_⟩
  have hfirst := h.2 ht
  have hsecond := h'.2 (ht.of_suffix h.1)
  omega

theorem mono (h : Spends w t r) (hle : w' ≤ w) : Spends w' t r := by
  refine ⟨h.1, fun ht => ?_⟩
  have hspent := h.2 ht
  omega

/-- Leaving an end of the text spends nothing. -/
theorem of_suffix (h : r <:+ t) : Spends 0 t r := by
  refine ⟨h, fun _ => ?_⟩
  rw [Nat.zero_add]
  exact h.sublist.countP_le

theorem cons (c : Char) : Spends (weight [c]) (c :: t) t :=
  ⟨List.suffix_cons c t, fun _ => (weight_append [c] t).ge⟩

/-- Blanks weigh nothing. -/
theorem skip {c : Char} (h : skipWs t = c :: r) : Spends 0 t (c :: r) :=
  of_suffix (h ▸ List.dropWhile_suffix isWs)

theorem skipped (h : Spends w (skipWs t) r) : Spends w t r := by
  have hskip : Spends 0 t (skipWs t) := of_suffix (List.dropWhile_suffix isWs)
  exact (hskip.trans h).mono (by omega)

end Spends

private theorem toNat_ofNat_of_lt (hlt : n < 0x10000) (hhigh : ¬ IsHigh n) (hlow : ¬ IsLow n) :
    (Char.ofNat n).toNat = n := by
  have hvalid : n.isValidChar := by
    rw [IsHigh] at hhigh
    rw [IsLow] at hlow
    change n < 0xD800 ∨ 0xDFFF < n ∧ n < 0x110000
    omega
  exact congrArg Char.toNat (dif_pos hvalid)

private theorem lt_of_hex4 {a b d : Char} (h : hex4 a b c d = some n) : n < 0x10000 := by
  have hdigit : ∀ {c : Char} {n : ℕ}, hexValue c = some n → n < 16 := by
    intro c n h
    rw [hexValue] at h
    split_ifs at h with hdec hlower hupper
    · have hrange := Char.isDigit_iff_toNat.mp hdec
      have hnine : '9'.toNat = 57 := rfl
      have hn := Option.some.inj h
      omega
    · have hle : c.toNat ≤ 'f'.toNat := hlower.2
      have hf : 'f'.toNat = 102 := rfl
      have hn := Option.some.inj h
      omega
    · have hle : c.toNat ≤ 'F'.toNat := hupper.2
      have hf : 'F'.toNat = 70 := rfl
      have hn := Option.some.inj h
      omega
  obtain ⟨w, hw, h⟩ := Option.bind_eq_some_iff.mp h
  obtain ⟨x, hx, h⟩ := Option.bind_eq_some_iff.mp h
  obtain ⟨y, hy, h⟩ := Option.bind_eq_some_iff.mp h
  obtain ⟨z, hz, h⟩ := Option.bind_eq_some_iff.mp h
  have hwlt := hdigit hw
  have hxlt := hdigit hx
  have hylt := hdigit hy
  have hzlt := hdigit hz
  have hn := Option.some.inj h
  omega

/-- An escaped code unit spends its letter. -/
private theorem spends_unit (a b c d : Char) (t : Str) :
    Spends 1 ('\\' :: 'u' :: a :: b :: c :: d :: t) t := by
  have hslash : Spends 0 ('\\' :: 'u' :: a :: b :: c :: d :: t) ('u' :: a :: b :: c :: d :: t) :=
    Spends.of_suffix (List.suffix_cons _ _)
  have hdigits : Spends 0 (a :: b :: c :: d :: t) t := Spends.of_suffix ⟨[a, b, c, d], rfl⟩
  exact ((hslash.trans (Spends.cons 'u')).trans hdigits).mono (by decide)

private theorem spends_string {t r : Str} (h : scanString t = some (s, r)) :
    Spends (strWeigh s) t r := by
  refine StringRules.scan (P := fun t s r => Spends (strWeigh s) t r)
    { close := ?_, escape := ?_, unit := ?_, pair := ?_, literal := ?_ } h
  · intro r
    exact Spends.of_suffix (List.suffix_cons _ r)
  · intro e c t s r hc ih
    have hall : ∀ x ∈ [('"', '"'), ('\\', '\\'), ('/', '/'), ('n', '\n'), ('r', '\r'), ('t', '\t'),
      ('b', Char.ofNat 8), ('f', Char.ofNat 12)], weight (asciify (escapeChar x.2)) = 0 := by decide
    rw [strWeigh_cons, hall _ (mem_of_unescape hc)]
    exact (Spends.of_suffix ⟨['\\', e], rfl⟩).trans ih
  · intro a b c d n t s r hn hhigh hlow ih
    have hlt := lt_of_hex4 hn
    have hone : weight (asciify (escapeChar (Char.ofNat n))) ≤ 1 := by
      rcases weight_escaped (Char.ofNat n) with hone | ⟨hge, -⟩
      · exact hone
      · have hself := toNat_ofNat_of_lt hlt hhigh hlow
        omega
    rw [strWeigh_cons]
    exact ((spends_unit a b c d t).trans ih).mono (by omega)
  · intro a b c d n a' b' c' d' n' t s r _ _ _ _ ih
    have htwo : ∀ c, weight (asciify (escapeChar c)) ≤ 2 := fun c => by
      rcases weight_escaped c with hone | ⟨-, htwo⟩ <;> omega
    rw [strWeigh_cons]
    refine ((spends_unit a b c d _).trans ((spends_unit a' b' c' d' t).trans ih)).mono ?_
    have hchar := htwo (Char.ofNat (0x10000 + (n - 0xD800) * 0x400 + (n' - 0xDC00)))
    omega
  · intro c t s r hquote hslash hctl ih
    rw [strWeigh_cons]
    refine ⟨ih.1.trans (List.suffix_cons c t), fun ht => ?_⟩
    have hself : asciify (escapeChar c) = [c] := by
      have hne : ∀ d : Char, d.toNat < 32 → c ≠ d := by
        rintro d hd rfl
        omega
      rw [escapeChar, if_neg hquote, if_neg hslash, if_neg (hne _ (by decide)),
        if_neg (hne _ (by decide)), if_neg (hne _ (by decide)), if_neg (by omega),
        if_neg (by omega), if_neg (by omega), asciify_cons (ht c List.mem_cons_self).2]
      rfl
    rw [hself]
    exact ((Spends.cons c).trans ih).2 ht

/-- The members that `dict` keeps weigh no more than all of them. -/
private theorem membersWeigh_ofPairs (ms : List (Str × Json)) :
    membersWeigh (ofPairs ms) ≤ membersWeigh ms := by
  have hset : ∀ (k : Str) (v : Json) (d : List (Str × Json)),
      membersWeigh (setItem k v d) ≤ strWeigh k + v.weigh + membersWeigh d := by
    intro k v d
    induction d with
    | nil => exact Nat.le_refl _
    | cons m d ih =>
      obtain ⟨k', v'⟩ := m
      rw [setItem]
      split_ifs <;> rw [membersWeigh, membersWeigh] <;> omega
  have hfold : ∀ (ms d : List (Str × Json)),
      membersWeigh (ms.foldl (fun d m => setItem m.1 m.2 d) d)
        ≤ membersWeigh d + membersWeigh ms := by
    intro ms
    induction ms with
    | nil => exact fun d => Nat.le_refl _
    | cons m ms ih =>
      intro d
      obtain ⟨k, v⟩ := m
      have hstep := hset k v d
      have hrest := ih (setItem k v d)
      rw [List.foldl_cons, membersWeigh]
      dsimp only
      omega
  have hnil := hfold ms []
  rw [membersWeigh, Nat.zero_add] at hnil
  exact hnil

/-- What is read of a text is paid for by the text, and an object is read from a brace to a
brace. -/
private theorem scanRules_spends :
    ScanRules (fun _ t v r => Spends v.weigh t r ∧
        ∀ ms, v = .obj ms → (∃ r', t = '{' :: r') ∧ '}' :: r <:+ t)
      (fun _ t vs r => Spends (itemsWeigh vs) t r)
      (fun _ t m r => Spends (strWeigh m.1 + m.2.weigh) t r)
      fun _ t ms r => Spends (membersWeigh ms) t ('}' :: r) where
  str {n t s r} h := by
    have hquote : weight ['"'] = 0 := by decide
    refine ⟨((Spends.cons '"').trans (spends_string h)).mono ?_, by simp⟩
    rw [Json.weigh]
    omega
  objNil {n t r} h := by
    have hopen := (Spends.cons '{').trans (Spends.skip h)
    refine ⟨(hopen.trans (Spends.cons '}')).mono (by decide), fun _ _ => ⟨⟨t, rfl⟩, hopen.1⟩⟩
  objCons {n t m r ms r'} hm hms := by
    have hopen := ((Spends.cons '{').trans hm.skipped).trans hms
    refine ⟨(hopen.trans (Spends.cons '}')).mono ?_, fun _ _ => ⟨⟨t, rfl⟩, hopen.1⟩⟩
    have hkept := membersWeigh_ofPairs (m :: ms)
    obtain ⟨k, v⟩ := m
    rw [membersWeigh] at hkept
    have hbraces : weight ['{'] = 1 ∧ weight ['}'] = 1 := by decide
    rw [Json.weigh, hbraces.1, hbraces.2]
    dsimp only
    omega
  arrNil {n t r} h := by
    have hopen := (Spends.cons '[').trans (Spends.skip h)
    exact ⟨(hopen.trans (Spends.cons ']')).mono (by decide), by simp⟩
  arrCons hv hvs := by
    refine ⟨(((Spends.cons '[').trans hv.1.skipped).trans hvs).mono ?_, by simp⟩
    rw [Json.weigh, itemsWeigh]
    omega
  keyword {n r word} h := by
    have hword : ∀ word ∈ keywords, word.2.weigh = weight word.1 ∧ decodeObj word.2 = none := by
      decide
    obtain ⟨hweigh, hobj⟩ := hword word h
    refine ⟨⟨List.suffix_append _ _, fun _ => ?_⟩, fun ms hms => ?_⟩
    · rw [hweigh, weight_append]
    · rw [hms] at hobj
      exact absurd hobj (by simp [decodeObj])
  number h := ⟨Spends.of_suffix (suffix_of_scanNumber h), by simp⟩
  itemsNil h := (Spends.skip h).trans (Spends.of_suffix (List.suffix_cons _ _))
  itemsCons h hv hvs := by
    have hcomma := (Spends.skip h).trans (Spends.of_suffix (List.suffix_cons _ _))
    refine ((hcomma.trans hv.1.skipped).trans hvs).mono ?_
    rw [itemsWeigh]
    omega
  member {n t k r r' v r''} hk h hv := by
    have hcolon := (Spends.skip h).trans (Spends.of_suffix (List.suffix_cons _ _))
    have hquote := Spends.of_suffix (List.suffix_cons '"' t)
    refine (((hquote.trans (spends_string hk)).trans hcolon).trans hv.1.skipped).mono ?_
    dsimp only
    omega
  membersNil h := Spends.skip h
  membersCons {n t r m r' ms r''} h hm hms := by
    have hcomma := (Spends.skip h).trans (Spends.of_suffix (List.suffix_cons _ _))
    refine ((hcomma.trans hm.skipped).trans hms).mono ?_
    obtain ⟨k, v⟩ := m
    rw [membersWeigh]
    dsimp only
    omega

/-- What is read of a text of printable ASCII weighs no more than the text. -/
theorem weigh_le_of_loads {t : Str} {v : Json} (ht : Printable t) (h : loads t = some v) :
    v.weigh ≤ weight t := by
  obtain ⟨r, hscan, -⟩ := loads_eq_some.mp h
  have hspent := ((scanRules_spends.scan _).1 _ _ _ hscan).1.skipped.2 ht
  omega

/-- The text of an object begins and ends with a brace, but for blanks. -/
theorem braces_of_loads {t : Str} {ms : List (Str × Json)} (h : loads t = some (.obj ms)) :
    (∃ r, skipWs t = '{' :: r) ∧ ∃ r, '}' :: r <:+ t ∧ ∀ c ∈ r, isWs c = true := by
  obtain ⟨r, hscan, hr⟩ := loads_eq_some.mp h
  obtain ⟨hopen, hclose⟩ := ((scanRules_spends.scan _).1 _ _ _ hscan).2 ms rfl
  exact ⟨hopen, r, hclose.trans (List.dropWhile_suffix isWs), List.dropWhile_eq_nil_iff.mp hr⟩

/-- An object cannot be read from a proper part of its own text. -/
theorem eq_of_loads_infix {ms : List (Str × Json)} {g : Str} (hg : g <:+: asciiDumps (.obj ms))
    (h : loads g = some (.obj ms)) : g = asciiDumps (.obj ms) := by
  obtain ⟨x, y, htext⟩ := hg
  obtain ⟨inner, hbraces, -⟩ := asciiDumps_obj ms
  have hprint : Printable g := fun c hc => printable_asciiDumps (.obj ms) c (htext ▸ by simp [hc])
  have hweight := weigh_le_of_loads hprint h
  rw [← weight_asciiDumps, ← htext, weight_append, weight_append] at hweight
  -- the parts left out have no brace
  have hx : weight x = 0 := by omega
  have hy : weight y = 0 := by omega
  have hlight : ∀ {s : Str}, weight s = 0 → '{' ∉ s ∧ '}' ∉ s := by
    intro s hs
    have hnone := List.countP_eq_zero.mp hs
    exact ⟨fun hmem => hnone _ hmem (by decide), fun hmem => hnone _ hmem (by decide)⟩
  have hxnil : x = [] := by
    cases x with
    | nil => rfl
    | cons c x =>
      rw [hbraces, List.cons_append, List.cons_append, List.cons.injEq] at htext
      exact absurd (htext.1 ▸ List.mem_cons_self) (hlight hx).1
  have hynil : y = [] := by
    rcases List.eq_nil_or_concat y with rfl | ⟨y, d, rfl⟩
    · rfl
    · have hlast := congrArg List.getLast? (htext.trans hbraces)
      rw [List.concat_eq_append, ← List.append_assoc, ← List.cons_append] at hlast
      simp only [List.getLast?_append, List.getLast?_singleton, Option.some_or,
        Option.some.injEq] at hlast
      subst hlast
      exact absurd (by simp) (hlight hy).2
  rw [← htext, hxnil, hynil, List.nil_append, List.append_nil]

end PyJson

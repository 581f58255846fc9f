import Mathlib.Data.List.Basic
import Mathlib.Tactic.Ring

/-!
# Python's string operations on lists of characters

A string is the list of its characters, so that what the operations do can be read off by
recursion. The operations are those of Python's `str`: `strip`, `split` without an argument
(`words`), `split` at a character (Mathlib's `List.splitOn`), `split` at the first occurrence
(`splitOnce`), `partition` by a predicate, and `int` (`parseInt`), which allows surrounding
blanks, a sign and single underscores between digits.

A `Numeral` is a nonempty string of decimal digits, leading zeros included;
`parseInt_numeral` says that `int` reads its value.
-/

namespace PyText

/-- A Python string. -/
abbrev Str := List Char

/-- A literal stands for the list of its characters. -/
instance : Coe String Str := ⟨String.toList⟩

instance : LawfulBEq Str := inferInstance

/-- What is in a list with one more element at the end. -/
theorem mem_snoc {α : Type*} {x a : α} {l : List α} : x ∈ l ++ [a] ↔ x ∈ l ∨ x = a := by
  rw [List.mem_append, List.mem_singleton]

/-- The characters that `strip` and `split` treat as blanks. -/
def isSpace (c : Char) : Bool :=
  let n := c.toNat
  (0x09 ≤ n && n ≤ 0x0D) || (0x1C ≤ n && n ≤ 0x20) || n == 0x85 || n == 0xA0 || n == 0x1680 ||
    (0x2000 ≤ n && n ≤ 0x200A) || n == 0x2028 || n == 0x2029 || n == 0x202F || n == 0x205F ||
    n == 0x3000

/-- `s.lstrip()`. -/
def lstrip (s : Str) : Str := s.dropWhile isSpace

/-- `s.strip()`. -/
def strip (s : Str) : Str := (lstrip (lstrip s).reverse).reverse

/-- `s.split()`: the maximal blank-free pieces. -/
def words (s : Str) : List Str := (s.splitOnP isSpace).filter (· ≠ [])

/-- `s.split(c, 1)` for a string that contains `c`. -/
def splitOnce (c : Char) (s : Str) : Str × Str :=
  (s.takeWhile (· ≠ c), (s.dropWhile (· ≠ c)).tail)

/-- The order of texts, by the numbers of their characters. -/
def textLE : Str → Str → Bool
  | [], _ => true
  | _ :: _, [] => false
  | x :: s, y :: t => decide (x.toNat < y.toNat) || (x = y && textLE s t)

theorem textLE_total (s t : Str) : textLE s t = true ∨ textLE t s = true := by
  induction s generalizing t with
  | nil => exact Or.inl rfl
  | cons x s ih =>
    cases t with
    | nil => exact Or.inr rfl
    | cons y t =>
      simp only [textLE, Bool.or_eq_true, decide_eq_true_eq, Bool.and_eq_true]
      rcases lt_trichotomy x.toNat y.toNat with hlt | heq | hgt
      · exact Or.inl (Or.inl hlt)
      · have hxy : x = y := Char.toNat_inj.mp heq
        exact (ih t).imp (fun h => Or.inr ⟨hxy, h⟩) fun h => Or.inr ⟨hxy.symm, h⟩
      · exact Or.inr (Or.inl hgt)

theorem textLE_antisymm {s t : Str} (hst : textLE s t = true) (hts : textLE t s = true) :
    s = t := by
  induction s generalizing t with
  | nil =>
    cases t with
    | nil => rfl
    | cons y t => exact absurd hts Bool.false_ne_true
  | cons x s ih =>
    cases t with
    | nil => exact absurd hst Bool.false_ne_true
    | cons y t =>
      simp only [textLE, Bool.or_eq_true, decide_eq_true_eq, Bool.and_eq_true] at hst hts
      have hlt : ¬ x.toNat < y.toNat := by
        rintro h
        rcases hts with h' | ⟨rfl, -⟩ <;> omega
      obtain ⟨rfl, htail⟩ := hst.resolve_left hlt
      rw [ih htail (hts.resolve_left (lt_irrefl _)).2]

theorem textLE_trans {s t u : Str} (hst : textLE s t = true) (htu : textLE t u = true) :
    textLE s u = true := by
  induction s generalizing t u with
  | nil => rfl
  | cons x s ih =>
    cases t with
    | nil => exact absurd hst Bool.false_ne_true
    | cons y t =>
      cases u with
      | nil => exact absurd htu Bool.false_ne_true
      | cons z u =>
        simp only [textLE, Bool.or_eq_true, decide_eq_true_eq, Bool.and_eq_true] at hst htu ⊢
        rcases hst with hxy | ⟨rfl, hst⟩
        · rcases htu with hyz | ⟨rfl, -⟩
          · exact Or.inl (hxy.trans hyz)
          · exact Or.inl hxy
        · exact htu.imp_right fun h => ⟨h.1, ih hst h.2⟩

theorem lstrip_eq_self {s : Str} (h : ∀ c ∈ s, isSpace c = false) : lstrip s = s := by
  cases s with
  | nil => rfl
  | cons c s => simp [lstrip, h c (by simp)]

theorem strip_eq_self {s : Str} (h : ∀ c ∈ s, isSpace c = false) : strip s = s := by
  have hrev : lstrip s.reverse = s.reverse :=
    lstrip_eq_self fun c hc => h c (List.mem_reverse.mp hc)
  rw [strip, lstrip_eq_self h, hrev, List.reverse_reverse]

theorem splitOnce_append {c : Char} {s t : Str} (h : c ∉ s) :
    splitOnce c (s ++ c :: t) = (s, t) := by
  have hs : ∀ d ∈ s, decide (d ≠ c) = true := fun d hd =>
    decide_eq_true fun heq => h (heq ▸ hd)
  rw [splitOnce, List.takeWhile_append_of_pos hs, List.dropWhile_append_of_pos hs]
  simp

/-! ### Reading integers -/

/-- The digits after the first one of an integer literal, single underscores between digits
allowed. -/
def parseDigits (acc : ℕ) : Str → Option ℕ
  | [] => some acc
  | '_' :: c :: s => if c.isDigit then parseDigits (acc * 10 + (c.toNat - 48)) s else none
  | c :: s => if c.isDigit then parseDigits (acc * 10 + (c.toNat - 48)) s else none

/-- An unsigned integer literal. -/
def parseNat : Str → Option ℕ
  | [] => none
  | c :: s => if c.isDigit then parseDigits (c.toNat - 48) s else none

/-- `int(s)` on ASCII text; `none` is a `ValueError`. -/
def parseInt (s : Str) : Option ℤ :=
  match strip s with
  | '-' :: t => (parseNat t).map fun n => -(n : ℤ)
  | '+' :: t => (parseNat t).map fun n => (n : ℤ)
  | t => (parseNat t).map fun n => (n : ℤ)

/-- The character of a digit. -/
def digitChar (d : Fin 10) : Char := Char.ofNat (48 + d)

theorem digitChar_isDigit : ∀ d : Fin 10, (digitChar d).isDigit = true := by decide

theorem digitChar_toNat : ∀ d : Fin 10, (digitChar d).toNat - 48 = d := by decide

theorem digitChar_isSpace : ∀ d : Fin 10, isSpace (digitChar d) = false := by decide

/-- A nonempty string of decimal digits. -/
structure Numeral where
  digits : List (Fin 10)
  ne_nil : digits ≠ []
deriving DecidableEq

namespace Numeral

/-- The text of a numeral. -/
def toStr (n : Numeral) : Str := n.digits.map digitChar

/-- The value of a string of digits. -/
def valueFrom (acc : ℕ) (ds : List (Fin 10)) : ℕ :=
  ds.foldl (fun a (d : Fin 10) => a * 10 + (d : ℕ)) acc

/-- The value of a numeral. -/
def value (n : Numeral) : ℕ := valueFrom 0 n.digits

theorem mem_toStr {n : Numeral} {c : Char} (h : c ∈ n.toStr) : ∃ d : Fin 10, digitChar d = c := by
  obtain ⟨d, -, hd⟩ := List.mem_map.mp h
  exact ⟨d, hd⟩

theorem notMem_toStr {n : Numeral} {c : Char} (h : ∀ d : Fin 10, digitChar d ≠ c) :
    c ∉ n.toStr := fun hc => by
  obtain ⟨d, hd⟩ := mem_toStr hc
  exact h d hd

end Numeral

theorem parseDigits_digits (acc : ℕ) (ds : List (Fin 10)) :
    parseDigits acc (ds.map digitChar) = some (Numeral.valueFrom acc ds) := by
  induction ds generalizing acc with
  | nil => rfl
  | cons d ds ih =>
    have hu : digitChar d ≠ '_' := by revert d; decide
    rw [List.map_cons, parseDigits, if_pos (digitChar_isDigit d), digitChar_toNat, ih]
    · rfl
    · rintro c s h -
      exact hu h

theorem parseNat_numeral (n : Numeral) : parseNat n.toStr = some n.value := by
  obtain ⟨ds, hne⟩ := n
  obtain ⟨d, ds, rfl⟩ := List.exists_cons_of_ne_nil hne
  have hv : Numeral.value ⟨d :: ds, hne⟩ = Numeral.valueFrom d ds := by
    simp [Numeral.value, Numeral.valueFrom]
  rw [hv, Numeral.toStr, List.map_cons, parseNat, if_pos (digitChar_isDigit d),
    digitChar_toNat, parseDigits_digits]

/-- `int` reads the value of a numeral. -/
theorem parseInt_numeral (n : Numeral) : parseInt n.toStr = some (n.value : ℤ) := by
  have hsp : strip n.toStr = n.toStr := strip_eq_self fun c hc => by
    obtain ⟨d, rfl⟩ := Numeral.mem_toStr hc
    exact digitChar_isSpace d
  have hminus : '-' ∉ n.toStr := Numeral.notMem_toStr (by decide)
  have hplus : '+' ∉ n.toStr := Numeral.notMem_toStr (by decide)
  have hnat := parseNat_numeral n
  rw [parseInt, hsp]
  split
  · next t heq => exact absurd (heq ▸ List.mem_cons_self) hminus
  · next t heq => exact absurd (heq ▸ List.mem_cons_self) hplus
  · simp [hnat]

end PyText

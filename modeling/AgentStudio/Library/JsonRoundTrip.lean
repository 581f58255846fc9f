import AgentStudio.Library.Json

/-!
# Reading back a JSON text

`loads_dumps`: what `dumps` writes, with any indent, `loads` reads back, for every value whose
objects have distinct keys. The scanners are followed token by token: `scanNumber_toStr` and
`scanString_quote` for the two kinds of token with a body, and `scanValue_dumpsAt`, by
recursion on the value, for the rest. A number ends where its digits end, so it is read back
in front of any text that does not continue it (`EndsNumber`).
-/

namespace PyJson

open PyText PyDict

/-! ### Numbers -/

/-- The text does not continue a number. -/
def EndsNumber (r : Str) : Prop :=
  ∀ c ∈ r.head?, c.isDigit = false ∧ c ≠ '.' ∧ c ≠ 'e' ∧ c ≠ 'E'

private theorem endsNumber_nil : EndsNumber [] := by simp [EndsNumber]

variable {r : Str} {n : Number}

private theorem endsNumber_cons {c : Char} (h : c.isDigit = false ∧ c ≠ '.' ∧ c ≠ 'e' ∧ c ≠ 'E') :
    EndsNumber (c :: r) := by
  rintro d hd
  obtain rfl := Option.mem_some_iff.mp hd
  exact h

private theorem spanDigits_append {ds : Str} (hds : ∀ c ∈ ds, c.isDigit = true)
    (hr : ∀ c ∈ r.head?, c.isDigit = false) : spanDigits (ds ++ r) = (ds, r) := by
  have htake : r.takeWhile Char.isDigit = [] := by
    cases r with
    | nil => rfl
    | cons c r => simp [hr c rfl]
  have hdrop : r.dropWhile Char.isDigit = r := by
    cases r with
    | nil => rfl
    | cons c r => simp [hr c rfl]
  rw [spanDigits, List.takeWhile_append_of_pos hds, List.dropWhile_append_of_pos hds, htake, hdrop,
    List.append_nil]

private theorem isDigit_of_mem_toDigits {n : ℕ} : ∀ c ∈ Nat.toDigits 10 n, c.isDigit = true :=
  fun _ hc => Nat.isDigit_of_mem_toDigits (by norm_num) (by norm_num) hc

/-- Only the digits of zero start with `0`. -/
private theorem eq_zero_of_toDigits_eq {n : ℕ} {ds : Str} (h : Nat.toDigits 10 n = '0' :: ds) :
    n = 0 := by
  induction n using Nat.strong_induction_on generalizing ds with
  | _ n ih =>
    rw [Nat.toDigits_eq_if (by norm_num)] at h
    split_ifs at h with hn
    · simpa using (List.cons.inj h).1
    · obtain ⟨c, cs, hcs⟩ := List.exists_cons_of_ne_nil
        (Nat.toDigits_ne_nil (n := n / 10) (b := 10))
      rw [hcs, List.cons_append, List.cons.injEq] at h
      rw [h.1] at hcs
      have := ih (n / 10) (by omega) hcs
      omega

private theorem scanInt_toDigits {n : ℕ} (hr : ∀ c ∈ r.head?, c.isDigit = false) :
    scanInt (Nat.toDigits 10 n ++ r) = some (Nat.toDigits 10 n, r) := by
  have hspan : spanDigits (Nat.toDigits 10 n ++ r) = (Nat.toDigits 10 n, r) :=
    spanDigits_append isDigit_of_mem_toDigits hr
  obtain ⟨c, cs, hcs⟩ := List.exists_cons_of_ne_nil (Nat.toDigits_ne_nil (n := n) (b := 10))
  by_cases hc : c = '0'
  · subst hc
    obtain rfl := eq_zero_of_toDigits_eq hcs
    rfl
  · rw [hcs, List.cons_append, scanInt, ← List.cons_append, ← hcs, hspan]
    · simp
    · intro t ht
      exact hc (List.cons.inj ht).1

private theorem length_fracDigits (h : n.scale ≠ 0) : n.fracDigits.length = n.scale := by
  have hle : (Nat.toDigits 10 (n.mantissa.natAbs % 10 ^ n.scale)).length ≤ n.scale :=
    (Nat.length_toDigits_le_iff (by norm_num) (Nat.pos_of_ne_zero h)).mpr
      (Nat.mod_lt _ (Nat.pow_pos (by norm_num)))
  simp only [Number.fracDigits, List.length_append, List.length_replicate]
  omega

private theorem isDigit_of_mem_fracDigits : ∀ c ∈ n.fracDigits, c.isDigit = true := by
  intro c hc
  rcases List.mem_append.mp hc with hc | hc
  · rw [List.eq_of_mem_replicate hc]
    rfl
  · exact isDigit_of_mem_toDigits c hc

/-- The characters of the text of a number. -/
theorem mem_toStr {c : Char} (h : c ∈ n.toStr) : c = '-' ∨ c = '.' ∨ c.isDigit = true := by
  rw [Number.toStr] at h
  rcases List.mem_append.mp h with h | h
  · split_ifs at h
    · exact Or.inl (List.mem_singleton.mp h)
    · exact absurd h List.not_mem_nil
  · rcases List.mem_append.mp h with h | h
    · exact Or.inr (Or.inr (isDigit_of_mem_toDigits c h))
    · split_ifs at h
      · exact absurd h List.not_mem_nil
      · rcases List.mem_cons.mp h with rfl | h
        · exact Or.inr (Or.inl rfl)
        · exact Or.inr (Or.inr (isDigit_of_mem_fracDigits c h))

/-- The digits before and after the point make up the mantissa. -/
private theorem ofDigitChars_toStr (n : Number) (h : n.scale ≠ 0) :
    Nat.ofDigitChars 10 (Nat.toDigits 10 (n.mantissa.natAbs / 10 ^ n.scale) ++ n.fracDigits) 0
      = n.mantissa.natAbs := by
  have hfrac : Nat.ofDigitChars 10 n.fracDigits 0 = n.mantissa.natAbs % 10 ^ n.scale := by
    rw [Number.fracDigits, Nat.ofDigitChars_append, Nat.ofDigitChars_replicate_zero, Nat.mul_zero,
      Nat.ofDigitChars_ten_toDigits]
  rw [Nat.ofDigitChars_append, Nat.ofDigitChars_ten_toDigits, Nat.ofDigitChars_eq_ofDigitChars_zero,
    hfrac, length_fracDigits h, Nat.div_add_mod]

private theorem ofDecimal_self {neg : Bool} {digits : Str} (hneg : neg = decide (n.mantissa < 0))
    (h : Nat.ofDigitChars 10 digits 0 = n.mantissa.natAbs) :
    Number.ofDecimal neg digits n.scale 0 = n := by
  have hm : (if neg = true then -(n.mantissa.natAbs : ℤ) else n.mantissa.natAbs) = n.mantissa := by
    subst hneg
    simp only [decide_eq_true_eq]
    split_ifs <;> omega
  rw [Number.ofDecimal, h, hm, if_pos (Int.natCast_nonneg _), Int.sub_zero, Int.toNat_natCast,
    Number.ofScaled_self]

private theorem scanExp_of_endsNumber (hr : EndsNumber r) : scanExp r = (0, r) := by
  cases r with
  | nil => rfl
  | cons c r =>
    obtain ⟨-, -, he, hE⟩ := hr c rfl
    simp [scanExp, he, hE]

private theorem scanFrac_of_endsNumber (hr : EndsNumber r) : scanFrac r = ([], r) := by
  rw [scanFrac]
  rintro t rfl
  exact (hr '.' rfl).2.1 rfl

private theorem scanFrac_fracDigits (h : n.scale ≠ 0) (hr : EndsNumber r) :
    scanFrac ('.' :: (n.fracDigits ++ r)) = (n.fracDigits, r) := by
  have hne : n.fracDigits ≠ [] := fun hnil => h (by rw [← length_fracDigits h, hnil]; rfl)
  rw [scanFrac, spanDigits_append isDigit_of_mem_fracDigits fun c hc => (hr c hc).1, if_neg hne]

/-- The digits of a number are read back with its sign. -/
private theorem scanUnsigned_toStr (n : Number) (hr : EndsNumber r) {neg : Bool}
    (hneg : neg = decide (n.mantissa < 0)) :
    (scanInt (Nat.toDigits 10 (n.mantissa.natAbs / 10 ^ n.scale) ++
      ((if n.scale = 0 then [] else '.' :: n.fracDigits) ++ r))).map (fun (ip, r) =>
        let (fp, r) := scanFrac r
        let (e, r) := scanExp r
        (Number.ofDecimal neg (ip ++ fp) fp.length e, r)) = some (n, r) := by
  by_cases hs : n.scale = 0
  · have hself : Number.ofDecimal neg (Nat.toDigits 10 n.mantissa.natAbs) n.scale 0 = n :=
      ofDecimal_self hneg Nat.ofDigitChars_ten_toDigits
    rw [hs] at hself
    simp [hs, scanInt_toDigits fun c hc => (hr c hc).1, scanFrac_of_endsNumber hr,
      scanExp_of_endsNumber hr, hself]
  · have hself := ofDecimal_self hneg (ofDigitChars_toStr n hs)
    rw [if_neg hs, List.cons_append, scanInt_toDigits (by simp), Option.map_some]
    simp only [scanFrac_fracDigits hs hr, scanExp_of_endsNumber hr, length_fracDigits hs, hself]

/-- A number is read back in front of any text that does not continue it. -/
theorem scanNumber_toStr (n : Number) (hr : EndsNumber r) :
    scanNumber (n.toStr ++ r) = some (n, r) := by
  rw [Number.toStr]
  by_cases hneg : n.mantissa < 0
  · simpa [hneg, scanNumber] using scanUnsigned_toStr n hr (eq_comm.mp (decide_eq_true hneg))
  · have hkey := scanUnsigned_toStr n hr (eq_comm.mp (decide_eq_false hneg))
    rw [if_neg hneg, List.nil_append, List.append_assoc, scanNumber]
    · exact hkey
    · intro t ht
      obtain ⟨c, cs, hcs⟩ :=
        List.exists_cons_of_ne_nil (Nat.toDigits_ne_nil (n := n.mantissa.natAbs / 10 ^ n.scale)
          (b := 10))
      have hdigit := isDigit_of_mem_toDigits c (hcs ▸ List.mem_cons_self)
      rw [hcs, List.cons_append, List.cons.injEq] at ht
      rw [ht.1] at hdigit
      exact absurd hdigit (by decide)

/-! ### Strings -/

private theorem hex4_of_lt {n : ℕ} (h : n < 32) :
    hex4 '0' '0' (Nat.digitChar (n / 16)) (Nat.digitChar (n % 16)) = some n := by
  have hall : ∀ n : Fin 32, hex4 '0' '0' (Nat.digitChar (n / 16)) (Nat.digitChar (n % 16))
      = some n.val := by decide
  exact hall ⟨n, h⟩

private theorem scanString_escapeChar (c : Char) (t : Str) :
    scanString (escapeChar c ++ t) = (scanString t).map fun (s, r) => (c :: s, r) := by
  -- the escapes of two characters
  have hlit : ∀ {d : Char}, c = d → ∀ e, unescape e = some d →
      scanString ('\\' :: e :: t) = (scanString t).map fun (s, r) => (c :: s, r) := by
    rintro d rfl e he
    have hu : e ≠ 'u' := by
      rintro rfl
      exact absurd he (by simp [unescape])
    rw [scanString]
    · simp [he, Option.map_eq_bind]
    · rintro a b c d r h -
      exact hu h
  unfold escapeChar
  split_ifs with hq hb hn hr ht h8 h12 hctl
  · exact hlit hq '"' rfl
  · exact hlit hb '\\' rfl
  · exact hlit hn 'n' rfl
  · exact hlit hr 'r' rfl
  · exact hlit ht 't' rfl
  · exact hlit (d := Char.ofNat 8) (by rw [← h8, Char.ofNat_toNat]) 'b' rfl
  · exact hlit (d := Char.ofNat 12) (by rw [← h12, Char.ofNat_toNat]) 'f' rfl
  · have h1 : ¬ (0xD800 ≤ c.toNat ∧ c.toNat < 0xDC00) := by omega
    have h2 : ¬ (0xDC00 ≤ c.toNat ∧ c.toNat < 0xE000) := by omega
    simp [scanString, hex4_of_lt hctl, h1, h2, Option.map_eq_bind]
  · rw [List.singleton_append, scanString]
    · simp [hctl, Option.map_eq_bind]
    · exact hq
    · rintro _ _ _ _ _ h -
      exact hb h
    · rintro _ _ h -
      exact hb h

/-- A string literal is read back. -/
theorem scanString_quote (s r : Str) :
    scanString (s.flatMap escapeChar ++ '"' :: r) = some (s, r) := by
  induction s with
  | nil => rfl
  | cons c s ih =>
    rw [List.flatMap_cons, List.append_assoc, scanString_escapeChar, ih, Option.map_some]

/-! ### The depth of a value -/

mutual

/-- The steps that reading a value takes. -/
private def cost : Json → ℕ
  | .arr (v :: vs) => 1 + cost v + costItems vs
  | .obj ((_, v) :: ms) => 2 + cost v + costMembers ms
  | _ => 1

private def costItems : List Json → ℕ
  | [] => 1
  | v :: vs => 1 + cost v + costItems vs

private def costMembers : List (Str × Json) → ℕ
  | [] => 1
  | (_, v) :: ms => 2 + cost v + costMembers ms

end

private theorem cost_pos (j : Json) : 0 < cost j := by
  unfold cost
  split <;> omega

private theorem toStr_eq_cons (n : Number) :
    ∃ c t, n.toStr = c :: t ∧ (c = '-' ∨ c.isDigit = true) := by
  obtain ⟨c, cs, hcs⟩ := List.exists_cons_of_ne_nil
    (Nat.toDigits_ne_nil (n := n.mantissa.natAbs / 10 ^ n.scale) (b := 10))
  have hdigit := isDigit_of_mem_toDigits c (hcs ▸ List.mem_cons_self)
  rw [Number.toStr, hcs]
  by_cases hneg : n.mantissa < 0
  · exact ⟨'-', _, by simp [hneg]; rfl, Or.inl rfl⟩
  · exact ⟨c, _, by simp [hneg]; rfl, Or.inr hdigit⟩

section

variable (indent : Option ℕ)

mutual

private theorem cost_le : ∀ (j : Json) (depth : ℕ),
    cost j + 1 ≤ 2 * (dumpsAt indent depth j).length
  | .null, _ => by simp [cost, dumpsAt]
  | .bool true, _ => by simp [cost, dumpsAt]
  | .bool false, _ => by simp [cost, dumpsAt]
  | .num n, depth => by
    obtain ⟨c, t, h, -⟩ := toStr_eq_cons n
    simp [cost, dumpsAt, h]
  | .str s, _ => by simp [cost, dumpsAt, quote]
  | .arr [], _ => by simp [cost, dumpsAt]
  | .arr (v :: vs), depth => by
    have := cost_le v (depth + 1)
    have := costItems_le vs (depth + 1)
    simp only [cost, dumpsAt, List.length_cons, List.length_append]
    omega
  | .obj [], _ => by simp [cost, dumpsAt]
  | .obj ((k, v) :: ms), depth => by
    have := cost_le v (depth + 1)
    have := costMembers_le ms (depth + 1)
    simp only [cost, dumpsAt, List.length_cons, List.length_append]
    omega

private theorem costItems_le : ∀ (vs : List Json) (depth : ℕ),
    costItems vs ≤ 2 * (dumpsItems indent depth vs).length + 1
  | [], _ => by simp [costItems]
  | v :: vs, depth => by
    have := cost_le v depth
    have := costItems_le vs depth
    simp only [costItems, dumpsItems, List.length_cons, List.length_append]
    omega

private theorem costMembers_le : ∀ (ms : List (Str × Json)) (depth : ℕ),
    costMembers ms ≤ 2 * (dumpsMembers indent depth ms).length + 1
  | [], _ => by simp [costMembers]
  | (k, v) :: ms, depth => by
    have := cost_le v depth
    have := costMembers_le ms depth
    simp only [costMembers, dumpsMembers, List.length_cons, List.length_append]
    omega

end

/-! ### Values -/

private theorem isWs_of_isDigit {c : Char} (h : c.isDigit = true) : isWs c = false := by
  rw [Bool.eq_false_iff]
  intro hws
  simp only [isWs, Bool.or_eq_true, decide_eq_true_eq] at hws
  rcases hws with ((rfl | rfl) | rfl) | rfl <;> exact absurd h (by decide)

private theorem skipWs_cons {c : Char} {r : Str} (h : isWs c = false) :
    skipWs (c :: r) = c :: r := by
  simp [skipWs, h]

private theorem skipWs_append {s r : Str} (h : ∀ c ∈ s, isWs c = true) :
    skipWs (s ++ r) = skipWs r := by
  rw [skipWs, List.dropWhile_append_of_pos h]
  rfl

private theorem skipWs_newline (depth : ℕ) (r : Str) :
    skipWs (newline indent depth ++ r) = skipWs r := by
  refine skipWs_append fun c hc => ?_
  cases indent with
  | none => simp [newline] at hc
  | some n =>
    rcases List.mem_cons.mp hc with rfl | hc
    · rfl
    · rw [List.eq_of_mem_replicate hc]
      rfl

private theorem skipWs_separator (depth : ℕ) (r : Str) :
    skipWs (separator indent depth ++ r) = skipWs r := by
  unfold separator
  split_ifs
  · exact skipWs_append (by simp [isWs])
  · exact skipWs_newline indent depth r

/-- A text that begins with a line break or a closing bracket does not continue a number. -/
private theorem endsNumber_newline (depth : ℕ) {c : Char} (r : Str)
    (h : c.isDigit = false ∧ c ≠ '.' ∧ c ≠ 'e' ∧ c ≠ 'E') :
    EndsNumber (newline indent depth ++ c :: r) := by
  cases indent with
  | none => exact endsNumber_cons h
  | some n => exact endsNumber_cons (by decide)

/-- The text of a value begins with a character that is neither a blank nor a closing
bracket. -/
private theorem dumpsAt_eq_cons (j : Json) (depth : ℕ) :
    ∃ c t, dumpsAt indent depth j = c :: t ∧ isWs c = false ∧ c ≠ ']' := by
  cases j with
  | null => exact ⟨_, _, by rw [dumpsAt], by decide, by decide⟩
  | bool b => cases b <;> exact ⟨_, _, by rw [dumpsAt], by decide, by decide⟩
  | num n =>
    obtain ⟨c, t, h, hc⟩ := toStr_eq_cons n
    refine ⟨c, t, by rw [dumpsAt, h], ?_, ?_⟩
    · rcases hc with rfl | hc
      · decide
      · exact isWs_of_isDigit hc
    · rintro rfl
      exact absurd hc (by decide)
  | str s => exact ⟨'"', _, by rw [dumpsAt, quote], by decide, by decide⟩
  | arr vs => cases vs <;> exact ⟨'[', _, by rw [dumpsAt], by decide, by decide⟩
  | obj ms => cases ms <;> exact ⟨'{', _, by rw [dumpsAt], by decide, by decide⟩

private theorem endsNumber_items (vs : List Json) (depth depth' : ℕ) (r : Str) :
    EndsNumber (dumpsItems indent depth vs ++ (newline indent depth' ++ ']' :: r)) := by
  cases vs with
  | nil => exact endsNumber_newline indent depth' r (by decide)
  | cons v vs => exact endsNumber_cons (by decide)

private theorem endsNumber_members (ms : List (Str × Json)) (depth depth' : ℕ) (r : Str) :
    EndsNumber (dumpsMembers indent depth ms ++ (newline indent depth' ++ '}' :: r)) := by
  cases ms with
  | nil => exact endsNumber_newline indent depth' r (by decide)
  | cons m ms => obtain ⟨k, v⟩ := m; exact endsNumber_cons (by decide)

private theorem scanValue_num (n : Number) (fuel : ℕ) {r : Str} (hr : EndsNumber r) :
    scanValue (fuel + 1) (n.toStr ++ r) = some (.num n, r) := by
  obtain ⟨c, t, h, hc⟩ := toStr_eq_cons n
  have hne : ∀ d, d ≠ '-' → d.isDigit = false → c ≠ d := by
    rintro d hd hdigit rfl
    rcases hc with rfl | hc
    · exact hd rfl
    · rw [hdigit] at hc
      exact Bool.noConfusion hc
  have hscan := scanNumber_toStr n hr
  rw [h, List.cons_append] at hscan ⊢
  rw [scanValue, if_neg (hne _ (by decide) (by decide)), if_neg (hne _ (by decide) (by decide)),
    if_neg (hne _ (by decide) (by decide)), if_neg (hne _ (by decide) (by decide)),
    if_neg (hne _ (by decide) (by decide)), if_neg (hne _ (by decide) (by decide)), hscan]
  rfl

/-- The blanks before a value are skipped. -/
private theorem skipWs_dumpsAt (j : Json) (depth : ℕ) (r : Str) :
    skipWs (dumpsAt indent depth j ++ r) = dumpsAt indent depth j ++ r := by
  obtain ⟨c, t, h, hws, -⟩ := dumpsAt_eq_cons indent j depth
  rw [h, List.cons_append, skipWs_cons hws]

/-- A member is read back if its value is. -/
private theorem scanMember_of_scanValue {k : Str} {v : Json} {depth fuel : ℕ} {r : Str}
    (hv : scanValue fuel (dumpsAt indent depth v ++ r) = some (v, r)) :
    scanMember (fuel + 1) (quote k ++ ':' :: ' ' :: dumpsAt indent depth v ++ r)
      = some ((k, v), r) := by
  have htext : quote k ++ ':' :: ' ' :: dumpsAt indent depth v ++ r
      = '"' :: (k.flatMap escapeChar ++ '"' :: ':' :: ' ' :: (dumpsAt indent depth v ++ r)) := by
    simp [quote]
  have hskip : skipWs (' ' :: (dumpsAt indent depth v ++ r)) = dumpsAt indent depth v ++ r :=
    (skipWs_append (s := [' ']) (by simp [isWs])).trans (skipWs_dumpsAt indent v depth r)
  rw [htext, scanMember]
  simp only [scanString_quote, skipWs_cons (c := ':') (by decide), hskip, hv,
    Option.bind_eq_bind, Option.bind_some]

mutual

/-- The text of a value is read back in front of any text that does not continue a number. -/
private theorem scanValue_dumpsAt : ∀ (j : Json) (depth fuel : ℕ) (r : Str), j.WF →
    cost j ≤ fuel → EndsNumber r → scanValue fuel (dumpsAt indent depth j ++ r) = some (j, r)
  | j, _, 0, _, _, hcost, _ => absurd hcost (by have := cost_pos j; omega)
  | .null, depth, fuel + 1, r, _, _, _ => by
    simp [dumpsAt, scanValue, scanKeyword]
  | .bool true, depth, fuel + 1, r, _, _, _ => by
    simp [dumpsAt, scanValue, scanKeyword]
  | .bool false, depth, fuel + 1, r, _, _, _ => by
    simp [dumpsAt, scanValue, scanKeyword]
  | .num n, depth, fuel + 1, r, _, _, hr => by
    rw [dumpsAt, scanValue_num n fuel hr]
  | .str s, depth, fuel + 1, r, _, _, _ => by
    rw [dumpsAt, quote, List.cons_append, List.append_assoc, List.singleton_append, scanValue,
      if_pos rfl, scanString_quote]
    rfl
  | .arr [], depth, fuel + 1, r, _, _, _ => by
    simp [dumpsAt, scanValue, skipWs_cons (c := ']') (by decide)]
  | .arr (v :: vs), depth, fuel + 1, r, hwf, hcost, _ => by
    obtain ⟨hv, hvs⟩ := hwf
    rw [cost] at hcost
    have hv' := scanValue_dumpsAt v (depth + 1) fuel _ hv (by omega)
      (endsNumber_items indent vs (depth + 1) depth r)
    have hvs' := scanItems_dumpsItems vs (depth + 1) depth fuel r hvs (by omega)
    have hskip := skipWs_newline indent (depth + 1) (dumpsAt indent (depth + 1) v ++
      (dumpsItems indent (depth + 1) vs ++ (newline indent depth ++ ']' :: r)))
    rw [skipWs_dumpsAt] at hskip
    simp only [dumpsAt, List.cons_append, List.append_assoc, List.nil_append, scanValue, hskip]
    obtain ⟨c, t, hc, -, hbr⟩ := dumpsAt_eq_cons indent v (depth + 1)
    rw [if_neg (by decide), if_neg (by decide), if_pos trivial]
    split
    · next heq =>
      rw [hc, List.cons_append] at heq
      exact absurd (List.cons.inj heq).1 hbr
    · simp only [hv', hvs', Option.bind_eq_bind, Option.bind_some]
  | .obj [], depth, fuel + 1, r, _, _, _ => by
    simp [dumpsAt, scanValue, skipWs_cons (c := '}') (by decide)]
  | .obj ((k, v) :: ms), depth, 1, r, hwf, hcost, _ => absurd hcost (by rw [cost]; omega)
  | .obj ((k, v) :: ms), depth, fuel + 2, r, hwf, hcost, _ => by
    obtain ⟨hnodup, hv, hms⟩ := hwf
    rw [cost] at hcost
    have hv' := scanValue_dumpsAt v (depth + 1) fuel _ hv (by omega)
      (endsNumber_members indent ms (depth + 1) depth r)
    have hm' := scanMember_of_scanValue indent (k := k) hv'
    have hms' := scanMembers_dumpsMembers ms (depth + 1) depth (fuel + 1) r hms (by omega)
    simp only [dumpsAt, List.cons_append, List.append_assoc, List.nil_append] at hm' ⊢
    rw [scanValue, if_neg (by decide), if_pos rfl, skipWs_newline]
    have hskip : skipWs (quote k ++ ':' :: ' ' :: (dumpsAt indent (depth + 1) v ++
        (dumpsMembers indent (depth + 1) ms ++ (newline indent depth ++ '}' :: r))))
        = quote k ++ ':' :: ' ' :: (dumpsAt indent (depth + 1) v ++
        (dumpsMembers indent (depth + 1) ms ++ (newline indent depth ++ '}' :: r))) :=
      skipWs_cons (by decide)
    rw [hskip]
    split
    · next heq =>
      rw [quote, List.cons_append] at heq
      exact absurd (List.cons.inj heq).1 (by decide)
    · simp only [hm', hms', ofPairs_of_nodup hnodup, Option.bind_eq_bind, Option.bind_some]

/-- The further items of an array are read back. -/
private theorem scanItems_dumpsItems : ∀ (vs : List Json) (depth depth' fuel : ℕ) (r : Str),
    itemsWF vs → costItems vs ≤ fuel →
    scanItems fuel (dumpsItems indent depth vs ++ (newline indent depth' ++ ']' :: r))
      = some (vs, r)
  | [], depth, depth', 0, r, _, hcost => absurd hcost (by simp [costItems])
  | [], depth, depth', fuel + 1, r, _, _ => by
    simp [dumpsItems, scanItems, skipWs_newline, skipWs_cons (c := ']') (by decide)]
  | v :: vs, depth, depth', 0, r, _, hcost => absurd hcost (by simp [costItems])
  | v :: vs, depth, depth', fuel + 1, r, hwf, hcost => by
    obtain ⟨hv, hvs⟩ := hwf
    rw [costItems] at hcost
    have hv' := scanValue_dumpsAt v depth fuel _ hv (by omega)
      (endsNumber_items indent vs depth depth' r)
    have hvs' := scanItems_dumpsItems vs depth depth' fuel r hvs (by omega)
    simp only [dumpsItems, List.cons_append, List.append_assoc, scanItems,
      skipWs_cons (c := ',') (by decide), skipWs_separator, skipWs_dumpsAt, hv', hvs',
      Option.bind_eq_bind, Option.bind_some]

/-- The further members of an object are read back. -/
private theorem scanMembers_dumpsMembers : ∀ (ms : List (Str × Json)) (depth depth' fuel : ℕ)
    (r : Str), membersWF ms → costMembers ms ≤ fuel →
    scanMembers fuel (dumpsMembers indent depth ms ++ (newline indent depth' ++ '}' :: r))
      = some (ms, r)
  | [], depth, depth', 0, r, _, hcost => absurd hcost (by simp [costMembers])
  | [], depth, depth', fuel + 1, r, _, _ => by
    simp [dumpsMembers, scanMembers, skipWs_newline, skipWs_cons (c := '}') (by decide)]
  | (k, v) :: ms, depth, depth', 0, r, _, hcost => absurd hcost (by simp [costMembers])
  | (k, v) :: ms, depth, depth', 1, r, _, hcost => absurd hcost (by rw [costMembers]; omega)
  | (k, v) :: ms, depth, depth', fuel + 2, r, hwf, hcost => by
    obtain ⟨hv, hms⟩ := hwf
    rw [costMembers] at hcost
    have hv' := scanValue_dumpsAt v depth fuel _ hv (by omega)
      (endsNumber_members indent ms depth depth' r)
    have hm' := scanMember_of_scanValue indent (k := k) hv'
    have hms' := scanMembers_dumpsMembers ms depth depth' (fuel + 1) r hms (by omega)
    simp only [List.cons_append, List.append_assoc] at hm'
    have hskip : ∀ t, skipWs (quote k ++ t) = quote k ++ t := fun t => skipWs_cons (by decide)
    rw [dumpsMembers, scanMembers]
    simp only [List.cons_append, List.append_assoc, skipWs_cons (c := ',') (by decide),
      skipWs_separator, hskip, hm', hms', Option.bind_eq_bind, Option.bind_some]

end

/-- `loads` reads back what `dumps` writes, between blanks. -/
theorem loads_dumps_blank {j : Json} (h : j.WF) {x y : Str} (hx : ∀ c ∈ x, isWs c = true)
    (hy : ∀ c ∈ y, isWs c = true) : loads (x ++ dumps indent j ++ y) = some j := by
  have hends : EndsNumber y := by
    cases y with
    | nil => exact endsNumber_nil
    | cons c y =>
      have hc := hy c List.mem_cons_self
      refine endsNumber_cons ⟨?_, ?_⟩
      · by_contra hdigit
        rw [isWs_of_isDigit (Bool.eq_true_of_not_eq_false hdigit)] at hc
        exact Bool.noConfusion hc
      · refine ⟨?_, ?_, ?_⟩ <;> rintro rfl <;> exact absurd hc (by decide)
  have hread := scanValue_dumpsAt indent j 0 (2 * (x ++ dumps indent j ++ y).length + 1) y h
    (by
      have := cost_le indent j 0
      rw [List.length_append, List.length_append, dumps]
      omega) hends
  have hskip := skipWs_dumpsAt indent j 0 y
  rw [← dumps] at hread hskip
  have hnil : skipWs (y ++ []) = [] := skipWs_append hy
  rw [List.append_nil] at hnil
  rw [loads, List.append_assoc, skipWs_append hx, hskip, ← List.append_assoc, hread]
  exact if_pos hnil

/-- **Round trip.** `loads` reads back what `dumps` writes. -/
theorem loads_dumps {j : Json} (h : j.WF) : loads (dumps indent j) = some j := by
  simpa using loads_dumps_blank indent h (x := []) (y := []) (by simp) (by simp)

end

end PyJson

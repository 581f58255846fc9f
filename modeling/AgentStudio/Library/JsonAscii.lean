import AgentStudio.Library.JsonScan

/-!
# JSON texts in ASCII

`asciiDumps` is `json.dumps(value)`: the text of `dumps` with every character above `~` written as
an escape `\uXXXX`, or as the escapes of its surrogate pair. Replacing the characters of a text so
(`asciify`) does not change what is read of it (`loads_asciify`), so `loads` reads back what
`asciiDumps` writes (`loads_asciiDumps`).

The proofs go through the rules of `JsonScan`, scanner by scanner: a character that a scanner looks
at is an ASCII character, which stays, or else it is in a string, where its escape is read as
the character itself.
-/

namespace PyJson

open PyText PyDict

/-! ### Escapes -/

/-- The escape of a code unit. -/
def escapeUnit (n : ℕ) : Str :=
  ['\\', 'u', Nat.digitChar (n / 4096), Nat.digitChar (n / 256 % 16),
    Nat.digitChar (n / 16 % 16), Nat.digitChar (n % 16)]

/-- A character in ASCII. -/
def asciiChar (c : Char) : Str :=
  if c.toNat < 127 then [c]
  else if c.toNat < 0x10000 then escapeUnit c.toNat
  else escapeUnit (0xD800 + (c.toNat - 0x10000) / 0x400) ++
    escapeUnit (0xDC00 + (c.toNat - 0x10000) % 0x400)

/-- A text in ASCII. -/
def asciify (s : Str) : Str := s.flatMap asciiChar

/-- `json.dumps(value)`. -/
def asciiDumps (value : Json) : Str := asciify (dumps none value)

@[simp] theorem asciify_nil : asciify [] = [] := rfl

@[simp] theorem asciify_append (s t : Str) : asciify (s ++ t) = asciify s ++ asciify t :=
  List.flatMap_append

variable {c : Char} {s : Str}

theorem asciify_cons (hc : c.toNat < 127) (s : Str) : asciify (c :: s) = c :: asciify s := by
  rw [asciify, List.flatMap_cons, asciiChar, if_pos hc]
  rfl

theorem asciify_eq_self (h : ∀ c ∈ s, c.toNat < 127) : asciify s = s := by
  induction s with
  | nil => rfl
  | cons c s ih =>
    rw [asciify_cons (h c List.mem_cons_self), ih fun d hd => h d (List.mem_cons_of_mem _ hd)]

/-- What a text in ASCII begins with. -/
private theorem asciify_head (c : Char) (s : Str) :
    (c.toNat < 127 ∧ asciify (c :: s) = c :: asciify s) ∨
      (127 ≤ c.toNat ∧ ∃ t, asciify (c :: s) = '\\' :: t) := by
  by_cases hc : c.toNat < 127
  · exact Or.inl ⟨hc, asciify_cons hc s⟩
  · refine Or.inr ⟨by omega, ?_⟩
    rw [asciify, List.flatMap_cons, asciiChar, if_neg hc]
    split_ifs <;> exact ⟨_, rfl⟩

/-- A run of ASCII characters other than backslashes stays where it is. -/
private theorem span_asciify {p : Char → Bool} (hp : ∀ c, p c = true → c.toNat < 127)
    (hslash : p '\\' = false) (s : Str) :
    (asciify s).takeWhile p = s.takeWhile p ∧
      (asciify s).dropWhile p = asciify (s.dropWhile p) := by
  induction s with
  | nil => exact ⟨rfl, rfl⟩
  | cons c s ih =>
    rcases asciify_head c s with ⟨hc, heq⟩ | ⟨hc, t, heq⟩
    · by_cases hpc : p c = true
      · rw [heq, List.takeWhile_cons_of_pos hpc, List.takeWhile_cons_of_pos hpc,
          List.dropWhile_cons_of_pos hpc, List.dropWhile_cons_of_pos hpc, ih.1, ih.2]
        exact ⟨rfl, rfl⟩
      · rw [heq, List.takeWhile_cons_of_neg hpc, List.takeWhile_cons_of_neg hpc,
          List.dropWhile_cons_of_neg hpc, List.dropWhile_cons_of_neg hpc, heq]
        exact ⟨rfl, rfl⟩
    · have hpc : ¬ p c = true := fun h => by have := hp c h; omega
      have hps : ¬ p '\\' = true := by simp [hslash]
      rw [heq, List.takeWhile_cons_of_neg hpc, List.takeWhile_cons_of_neg hps,
        List.dropWhile_cons_of_neg hpc, List.dropWhile_cons_of_neg hps, heq]
      exact ⟨rfl, rfl⟩

theorem lt_of_isWs (h : isWs c = true) : c.toNat < 127 := by
  simp only [isWs, Bool.or_eq_true, decide_eq_true_eq] at h
  rcases h with ((rfl | rfl) | rfl) | rfl <;> decide

theorem lt_of_isDigit (h : c.isDigit = true) : c.toNat < 127 := by
  have hdigit := Char.isDigit_iff_toNat.mp h
  have hnine : '9'.toNat = 57 := rfl
  omega

theorem skipWs_asciify (s : Str) : skipWs (asciify s) = asciify (skipWs s) :=
  (span_asciify (fun _ => lt_of_isWs) rfl s).2

private theorem spanDigits_asciify (s : Str) :
    spanDigits (asciify s) = ((spanDigits s).1, asciify (spanDigits s).2) := by
  obtain ⟨htake, hdrop⟩ := span_asciify (p := Char.isDigit) (fun _ => lt_of_isDigit) rfl s
  rw [spanDigits, htake, hdrop]
  rfl

/-- A token that a character begins does not begin when the character is another. -/
private theorem asciify_ne_cons {d : Char} (hd : d ≠ '\\') (h : ∀ r, s ≠ d :: r) (r : Str) :
    asciify s ≠ d :: r := by
  cases s with
  | nil => exact List.cons_ne_nil d r ∘ Eq.symm
  | cons c s =>
    rcases asciify_head c s with ⟨-, heq⟩ | ⟨-, t, heq⟩
    · rw [heq]
      intro hcons
      exact h s (by rw [(List.cons.inj hcons).1])
    · rw [heq]
      intro hcons
      exact hd (List.cons.inj hcons).1.symm

/-! ### Numbers -/

private theorem scanInt_asciify {x : Str × Str} (h : scanInt s = some x) :
    scanInt (asciify s) = some (x.1, asciify x.2) := by
  by_cases hs : ∃ r, s = '0' :: r
  · obtain ⟨r, rfl⟩ := hs
    obtain rfl := Option.some.inj h
    rw [asciify_cons (by decide)]
    rfl
  · rw [scanInt] at h
    · split_ifs at h with hnil
      obtain rfl := Option.some.inj h
      rw [scanInt]
      · rw [spanDigits_asciify, if_neg hnil]
      · intro r hr
        exact asciify_ne_cons (by decide) (fun r hr => hs ⟨r, hr⟩) r hr
    · intro r hr
      exact hs ⟨r, hr⟩

private theorem scanFrac_asciify (s : Str) :
    scanFrac (asciify s) = ((scanFrac s).1, asciify (scanFrac s).2) := by
  by_cases hs : ∃ r, s = '.' :: r
  · obtain ⟨r, rfl⟩ := hs
    rw [asciify_cons (by decide), scanFrac, scanFrac, spanDigits_asciify]
    split_ifs
    · rw [asciify_cons (by decide)]
    · rfl
  · have hs' : ∀ r, s ≠ '.' :: r := fun r hr => hs ⟨r, hr⟩
    rw [scanFrac, scanFrac]
    · exact hs'
    · exact asciify_ne_cons (by decide) hs'

private theorem expDigits_asciify (s r : Str) (neg : Bool) :
    expDigits (asciify s) neg (asciify r)
      = ((expDigits s neg r).1, asciify (expDigits s neg r).2) := by
  rw [expDigits, expDigits, spanDigits_asciify]
  split_ifs <;> rfl

private theorem scanExp_asciify (s : Str) :
    scanExp (asciify s) = ((scanExp s).1, asciify (scanExp s).2) := by
  cases s with
  | nil => rfl
  | cons c r =>
    by_cases he : c = 'e' ∨ c = 'E'
    · have hc : c.toNat < 127 := by rcases he with rfl | rfl <;> decide
      by_cases hm : ∃ t, r = '-' :: t
      · obtain ⟨t, rfl⟩ := hm
        have hcons : asciify (c :: '-' :: t) = c :: '-' :: asciify t := by
          rw [asciify_cons hc, asciify_cons (by decide)]
        rw [hcons, scanExp_minus he, scanExp_minus he, ← hcons, expDigits_asciify]
      by_cases hp : ∃ t, r = '+' :: t
      · obtain ⟨t, rfl⟩ := hp
        have hcons : asciify (c :: '+' :: t) = c :: '+' :: asciify t := by
          rw [asciify_cons hc, asciify_cons (by decide)]
        rw [hcons, scanExp_plus he, scanExp_plus he, ← hcons, expDigits_asciify]
      · have hm' : ∀ t, r ≠ '-' :: t := fun t ht => hm ⟨t, ht⟩
        have hp' : ∀ t, r ≠ '+' :: t := fun t ht => hp ⟨t, ht⟩
        rw [scanExp_other he hm' hp', ← expDigits_asciify, asciify_cons hc,
          scanExp_other he (asciify_ne_cons (by decide) hm')
            (asciify_ne_cons (by decide) hp')]
    · rw [scanExp_self he]
      rcases asciify_head c r with ⟨-, heq⟩ | ⟨-, t, heq⟩
      · rw [heq, scanExp_self he]
      · rw [heq, scanExp_self (by decide)]

theorem scanNumber_asciify {x : Number × Str} (h : scanNumber s = some x) :
    scanNumber (asciify s) = some (x.1, asciify x.2) := by
  -- the digits after the sign
  have hunsigned : ∀ (neg : Bool) {t : Str}, scanUnsigned neg t = some x →
      scanUnsigned neg (asciify t) = some (x.1, asciify x.2) := by
    intro neg t ht
    obtain ⟨y, hy, rfl⟩ := Option.map_eq_some_iff.mp ht
    rw [scanUnsigned, scanInt_asciify hy, Option.map_some]
    dsimp only
    rw [scanFrac_asciify, scanExp_asciify]
  by_cases hm : ∃ t, s = '-' :: t
  · obtain ⟨t, rfl⟩ := hm
    rw [asciify_cons (by decide), scanNumber_minus]
    exact hunsigned true h
  · have hm' : ∀ t, s ≠ '-' :: t := fun t ht => hm ⟨t, ht⟩
    rw [scanNumber_other hm'] at h
    rw [scanNumber_other (asciify_ne_cons (by decide) hm')]
    exact hunsigned false h

/-! ### Strings -/

/-- A hexadecimal digit is an ASCII character. -/
private theorem lt_of_hexValue {n : ℕ} (h : hexValue c = some n) : c.toNat < 127 := by
  rw [hexValue] at h
  split_ifs at h with hdigit hlower hupper
  · exact lt_of_isDigit hdigit
  · exact (Nat.lt_succ_of_le hlower.2).trans (by decide)
  · exact (Nat.lt_succ_of_le hupper.2).trans (by decide)

private theorem asciify_hex4 {a b d : Char} {n : ℕ} (h : hex4 a b c d = some n) (t : Str) :
    asciify (a :: b :: c :: d :: t) = a :: b :: c :: d :: asciify t := by
  obtain ⟨_, ha, h⟩ := Option.bind_eq_some_iff.mp h
  obtain ⟨_, hb, h⟩ := Option.bind_eq_some_iff.mp h
  obtain ⟨_, hc, h⟩ := Option.bind_eq_some_iff.mp h
  obtain ⟨_, hd, -⟩ := Option.bind_eq_some_iff.mp h
  rw [asciify_cons (lt_of_hexValue ha), asciify_cons (lt_of_hexValue hb),
    asciify_cons (lt_of_hexValue hc), asciify_cons (lt_of_hexValue hd)]

/-- The characters that may follow a backslash, apart from `u`. -/
theorem mem_of_unescape {e : Char} (h : unescape e = some c) :
    (e, c) ∈ [('"', '"'), ('\\', '\\'), ('/', '/'), ('n', '\n'), ('r', '\r'), ('t', '\t'),
      ('b', Char.ofNat 8), ('f', Char.ofNat 12)] := by
  rw [unescape] at h
  split_ifs at h with hself hn hr ht hb hf
  · obtain rfl := Option.some.inj h
    rcases hself with rfl | rfl | rfl <;> decide
  all_goals
    subst_vars
    obtain rfl := Option.some.inj h
    decide

private theorem hex4_escapeUnit {n : ℕ} (hn : n < 0x10000) :
    hex4 (Nat.digitChar (n / 4096)) (Nat.digitChar (n / 256 % 16)) (Nat.digitChar (n / 16 % 16))
      (Nat.digitChar (n % 16)) = some n := by
  have hall : ∀ d : Fin 16, hexValue (Nat.digitChar d) = some d.val := by decide
  have hdigit : ∀ d, d < 16 → hexValue (Nat.digitChar d) = some d := fun d hd => hall ⟨d, hd⟩
  rw [hex4, hdigit _ (by omega), hdigit _ (by omega), hdigit _ (by omega), hdigit _ (by omega)]
  simp only [Option.bind_eq_bind, Option.bind_some, Option.some.injEq]
  omega

/-- A character outside of printable ASCII is read from its escape. -/
private theorem scanString_asciiChar (hc : 127 ≤ c.toNat) {t r : Str}
    (h : scanString t = some (s, r)) : scanString (asciiChar c ++ t) = some (c :: s, r) := by
  have hvalid : c.toNat < 0xD800 ∨ 0xDFFF < c.toNat ∧ c.toNat < 0x110000 := c.valid
  rw [asciiChar, if_neg (by omega)]
  by_cases hunit : c.toNat < 0x10000
  · have hread := stringRules_self.unit (hex4_escapeUnit hunit) (fun hhigh => by
      have := hhigh.1
      have := hhigh.2
      omega) (fun hlow => by
      have := hlow.1
      have := hlow.2
      omega) h
    rw [Char.ofNat_toNat] at hread
    rw [if_pos hunit]
    exact hread
  · -- the code units of the surrogate pair
    have hhigh : IsHigh (0xD800 + (c.toNat - 0x10000) / 0x400) := ⟨by omega, by omega⟩
    have hlow : IsLow (0xDC00 + (c.toNat - 0x10000) % 0x400) := ⟨by omega, by omega⟩
    have hread := stringRules_self.pair (hex4_escapeUnit (hhigh.2.trans (by decide))) hhigh
      (hex4_escapeUnit (hlow.2.trans (by decide))) hlow h
    have hself : 0x10000 + (0xD800 + (c.toNat - 0x10000) / 0x400 - 0xD800) * 0x400
        + (0xDC00 + (c.toNat - 0x10000) % 0x400 - 0xDC00) = c.toNat := by omega
    rw [hself, Char.ofNat_toNat] at hread
    rw [if_neg hunit]
    exact hread

/-- A string is read from its text in ASCII. -/
theorem scanString_asciify {t r : Str} (h : scanString t = some (s, r)) :
    scanString (asciify t) = some (s, asciify r) := by
  refine StringRules.scan (P := fun t s r => scanString (asciify t) = some (s, asciify r))
    { close := ?_, escape := ?_, unit := ?_, pair := ?_, literal := ?_ } h
  · intro r
    rw [asciify_cons (by decide)]
    exact stringRules_self.close
  · intro e c t s r hc ih
    have he : e.toNat < 127 := by
      have hall : ∀ x ∈ [('"', '"'), ('\\', '\\'), ('/', '/'), ('n', '\n'), ('r', '\r'),
        ('t', '\t'), ('b', Char.ofNat 8), ('f', Char.ofNat 12)], x.1.toNat < 127 := by decide
      exact hall _ (mem_of_unescape hc)
    rw [asciify_cons (by decide), asciify_cons he]
    exact stringRules_self.escape hc ih
  · intro a b c d n t s r hn hhigh hlow ih
    rw [asciify_cons (by decide), asciify_cons (by decide), asciify_hex4 hn]
    exact stringRules_self.unit hn hhigh hlow ih
  · intro a b c d n a' b' c' d' n' t s r hn hhigh hn' hlow ih
    rw [asciify_cons (by decide), asciify_cons (by decide), asciify_hex4 hn,
      asciify_cons (by decide), asciify_cons (by decide), asciify_hex4 hn']
    exact stringRules_self.pair hn hhigh hn' hlow ih
  · intro c t s r hquote hslash hctl ih
    by_cases hc : c.toNat < 127
    · rw [asciify_cons hc]
      exact stringRules_self.literal hquote hslash hctl ih
    · exact scanString_asciiChar (by omega) ih

/-! ### Values -/

/-- The scanners read the same from a text in ASCII. -/
private theorem scanRules_asciify :
    ScanRules (fun n t v r => scanValue n (asciify t) = some (v, asciify r))
      (fun n t vs r => scanItems n (asciify t) = some (vs, asciify r))
      (fun n t m r => scanMember n (asciify t) = some (m, asciify r))
      fun n t ms r => scanMembers n (asciify t) = some (ms, asciify r) := by
  -- a bracket or a comma after blanks is where it was
  have hskip : ∀ {c t r}, c.toNat < 127 → skipWs t = c :: r →
      skipWs (asciify t) = c :: asciify r := by
    intro c t r hc h
    rw [skipWs_asciify, h, asciify_cons hc]
  exact {
    str := fun h => by
      rw [asciify_cons (by decide)]
      exact scanRules_self.str (scanString_asciify h)
    objNil := fun h => by
      rw [asciify_cons (by decide)]
      exact scanRules_self.objNil (hskip (by decide) h)
    objCons := fun hm hms => by
      rw [asciify_cons (by decide)]
      rw [← skipWs_asciify] at hm
      exact scanRules_self.objCons hm hms
    arrNil := fun h => by
      rw [asciify_cons (by decide)]
      exact scanRules_self.arrNil (hskip (by decide) h)
    arrCons := fun hv hvs => by
      rw [asciify_cons (by decide)]
      rw [← skipWs_asciify] at hv
      exact scanRules_self.arrCons hv hvs
    keyword := fun {n r word} h => by
      have hself : asciify word.1 = word.1 := by
        have hword := h
        simp only [keywords, List.mem_cons, List.not_mem_nil, or_false] at hword
        rcases hword with rfl | rfl | rfl <;> decide
      rw [asciify_append, hself]
      exact scanRules_self.keyword h
    number := fun h => scanRules_self.number (scanNumber_asciify h)
    itemsNil := fun h => scanRules_self.itemsNil (hskip (by decide) h)
    itemsCons := fun h hv hvs => by
      rw [← skipWs_asciify] at hv
      exact scanRules_self.itemsCons (hskip (by decide) h) hv hvs
    member := fun hk h hv => by
      rw [asciify_cons (by decide)]
      rw [← skipWs_asciify] at hv
      exact scanRules_self.member (scanString_asciify hk) (hskip (by decide) h) hv
    membersNil := fun h => scanRules_self.membersNil (hskip (by decide) h)
    membersCons := fun h hm hms => by
      rw [← skipWs_asciify] at hm
      exact scanRules_self.membersCons (hskip (by decide) h) hm hms }

theorem length_le_length_asciify (s : Str) : s.length ≤ (asciify s).length := by
  induction s with
  | nil => exact Nat.le_refl _
  | cons c s ih =>
    have hchar : 1 ≤ (asciiChar c).length := by
      rw [asciiChar]
      split_ifs <;> simp [escapeUnit]
    rw [asciify, List.flatMap_cons, List.length_append, List.length_cons]
    change s.length ≤ (s.flatMap asciiChar).length at ih
    omega

/-- What is read of a text is read of it in ASCII. -/
theorem loads_asciify {v : Json} (h : loads s = some v) : loads (asciify s) = some v := by
  obtain ⟨r, hscan, hr⟩ := loads_eq_some.mp h
  have hread := (scanRules_asciify.scan _).1 _ _ _ hscan
  rw [← skipWs_asciify] at hread
  have hlength := length_le_length_asciify s
  refine loads_eq_some.mpr ⟨asciify r, scanValue_mono hread (by omega), ?_⟩
  rw [skipWs_asciify, hr]
  rfl

/-- **Round trip.** `loads` reads back what `asciiDumps` writes, between blanks. -/
theorem loads_asciiDumps {j : Json} (hj : j.WF) {x y : Str} (hx : ∀ c ∈ x, isWs c = true)
    (hy : ∀ c ∈ y, isWs c = true) : loads (x ++ asciiDumps j ++ y) = some j := by
  have hblank : ∀ {b : Str}, (∀ c ∈ b, isWs c = true) → asciify b = b := fun hb =>
    asciify_eq_self fun c hc => lt_of_isWs (hb c hc)
  have hread := loads_asciify (loads_dumps_blank none hj hx hy)
  rwa [asciify_append, asciify_append, hblank hx, hblank hy] at hread

end PyJson

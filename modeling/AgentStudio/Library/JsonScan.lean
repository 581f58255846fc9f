import AgentStudio.Library.JsonRoundTrip

/-!
# What the reader of JSON texts does

`StringRules` lists what a scanner of a string that succeeds has read, one rule for each kind of
character, and `ScanRules` lists it for the four scanners of values, one rule for each kind of
token and bracket. `StringRules.scan` and `ScanRules.scan` are the inductions on the steps that the
scanners take: relations that the rules preserve hold of whatever is read. `stringRules_self` and
`scanRules_self` say that the scanners obey the rules themselves, so that a text can be read by
following them.
-/

namespace PyJson

open PyText PyDict

/-! ### Strings -/

/-- The code unit is a part of a surrogate pair: the first, or the second. -/
def IsHigh (n : ℕ) : Prop := 0xD800 ≤ n ∧ n < 0xDC00

/-- The code unit is the second part of a surrogate pair. -/
def IsLow (n : ℕ) : Prop := 0xDC00 ≤ n ∧ n < 0xE000

/-- Relations between a text inside a string literal, what is read up to the closing quote, and
what is left. -/
structure StringRules (P : Str → Str → Str → Prop) : Prop where
  close : ∀ {r}, P ('"' :: r) [] r
  escape : ∀ {e c t s r}, unescape e = some c → P t s r → P ('\\' :: e :: t) (c :: s) r
  unit : ∀ {a b c d n t s r}, hex4 a b c d = some n → ¬ IsHigh n → ¬ IsLow n → P t s r →
    P ('\\' :: 'u' :: a :: b :: c :: d :: t) (Char.ofNat n :: s) r
  pair : ∀ {a b c d n a' b' c' d' n' t s r}, hex4 a b c d = some n → IsHigh n →
    hex4 a' b' c' d' = some n' → IsLow n' → P t s r →
    P ('\\' :: 'u' :: a :: b :: c :: d :: '\\' :: 'u' :: a' :: b' :: c' :: d' :: t)
      (Char.ofNat (0x10000 + (n - 0xD800) * 0x400 + (n' - 0xDC00)) :: s) r
  literal : ∀ {c t s r}, c ≠ '"' → c ≠ '\\' → 32 ≤ c.toNat → P t s r → P (c :: t) (c :: s) r

/-- What is read of a string obeys every relation that the rules preserve. -/
theorem StringRules.scan {P : Str → Str → Str → Prop} (h : StringRules P) {t s r : Str}
    (hscan : scanString t = some (s, r)) : P t s r := by
  induction t using scanString.induct generalizing s r with
  | case1 => exact absurd hscan (by simp [scanString])
  | case2 t =>
    obtain ⟨rfl, rfl⟩ := Prod.mk.inj (Option.some.inj hscan)
    exact h.close
  | case3 a b c d t hpair hunit =>
    rw [scanString] at hscan
    obtain ⟨n, hn, hscan⟩ := Option.bind_eq_some_iff.mp hscan
    split_ifs at hscan with hhigh hlow
    · split at hscan
      · next a' b' c' d' t' =>
        obtain ⟨n', hn', hscan⟩ := Option.bind_eq_some_iff.mp hscan
        split_ifs at hscan with hlow
        obtain ⟨⟨s', r'⟩, hs, heq⟩ := Option.bind_eq_some_iff.mp hscan
        obtain ⟨rfl, rfl⟩ := Prod.mk.inj (Option.some.inj heq)
        exact h.pair hn hhigh hn' hlow (hpair hs)
      · exact absurd hscan (by simp)
    · obtain ⟨⟨s', r'⟩, hs, heq⟩ := Option.bind_eq_some_iff.mp hscan
      obtain ⟨rfl, rfl⟩ := Prod.mk.inj (Option.some.inj heq)
      exact h.unit hn hhigh hlow (hunit hs)
  | case4 e t hu ih =>
    rw [scanString] at hscan
    · obtain ⟨c, hc, hscan⟩ := Option.bind_eq_some_iff.mp hscan
      obtain ⟨⟨s', r'⟩, hs, heq⟩ := Option.bind_eq_some_iff.mp hscan
      obtain ⟨rfl, rfl⟩ := Prod.mk.inj (Option.some.inj heq)
      exact h.escape hc (ih hs)
    · exact hu
  | case5 c t hquote hu hslash hctl =>
    rw [scanString, if_pos hctl] at hscan
    · exact absurd hscan (by simp)
    · exact hquote
    · exact hu
    · exact hslash
  | case6 c t hquote hu hslash hctl ih =>
    rw [scanString, if_neg hctl] at hscan
    · obtain ⟨⟨s', r'⟩, hs, heq⟩ := Option.bind_eq_some_iff.mp hscan
      obtain ⟨rfl, rfl⟩ := Prod.mk.inj (Option.some.inj heq)
      refine h.literal hquote ?_ (by omega) (ih hs)
      -- a backslash at the end of the text leaves the string open
      rintro rfl
      cases t with
      | nil => exact absurd hs (by simp [scanString])
      | cons d t => exact hslash d t rfl rfl
    · exact hquote
    · exact hu
    · exact hslash

/-- The scanner of strings obeys the rules. -/
theorem stringRules_self : StringRules fun t s r => scanString t = some (s, r) where
  close := rfl
  escape {e c t s r} hc hs := by
    have hu : e ≠ 'u' := by
      rintro rfl
      exact absurd hc (by simp [unescape])
    rw [scanString]
    · simp only [hc, hs, Option.bind_eq_bind, Option.bind_some]
    · rintro _ _ _ _ _ heq -
      exact hu heq
  unit hn hhigh hlow hs := by
    rw [IsHigh] at hhigh
    rw [IsLow] at hlow
    rw [scanString, hn]
    simp only [Option.bind_eq_bind, Option.bind_some]
    rw [if_neg hhigh, if_neg hlow, hs]
    rfl
  pair hn hhigh hn' hlow hs := by
    rw [IsHigh] at hhigh
    rw [IsLow] at hlow
    rw [scanString, hn]
    simp only [Option.bind_eq_bind, Option.bind_some]
    rw [if_pos hhigh, hn']
    simp only [Option.bind_some]
    rw [if_pos hlow, hs]
    rfl
  literal {c t s r} hquote hslash hctl hs := by
    rw [scanString, if_neg (by omega), hs]
    · rfl
    · exact hquote
    · rintro _ _ _ _ _ heq -
      exact hslash heq
    · rintro _ _ heq -
      exact hslash heq

/-! ### Numbers -/

/-- The digits of an exponent and its sign. -/
def expDigits (s : Str) (neg : Bool) (r : Str) : ℤ × Str :=
  if (spanDigits r).1 = [] then (0, s)
  else
    let n : ℤ := Nat.ofDigitChars 10 (spanDigits r).1 0
    (if neg then -n else n, (spanDigits r).2)

section

variable {c : Char} (he : c = 'e' ∨ c = 'E')

include he

theorem scanExp_minus (r : Str) : scanExp (c :: '-' :: r) = expDigits (c :: '-' :: r) true r := by
  simp only [scanExp, if_pos he]
  rfl

theorem scanExp_plus (r : Str) : scanExp (c :: '+' :: r) = expDigits (c :: '+' :: r) false r := by
  simp only [scanExp, if_pos he]
  rfl

theorem scanExp_other {r : Str}
    (hminus : ∀ r', r ≠ '-' :: r') (hplus : ∀ r', r ≠ '+' :: r') :
    scanExp (c :: r) = expDigits (c :: r) false r := by
  rw [scanExp]
  simp only [if_pos he]
  · rfl
  · exact hminus
  · exact hplus

end

theorem scanExp_self {c : Char} (he : ¬ (c = 'e' ∨ c = 'E')) (r : Str) :
    scanExp (c :: r) = (0, c :: r) := by
  simp only [scanExp, if_neg he]

/-- A number without its sign. -/
def scanUnsigned (neg : Bool) (s : Str) : Option (Number × Str) :=
  (scanInt s).map fun y =>
    let frac := scanFrac y.2
    let e := scanExp frac.2
    (Number.ofDecimal neg (y.1 ++ frac.1) frac.1.length e.1, e.2)

theorem scanNumber_minus (r : Str) : scanNumber ('-' :: r) = scanUnsigned true r := rfl

theorem scanNumber_other {s : Str} (h : ∀ t, s ≠ '-' :: t) :
    scanNumber s = scanUnsigned false s := by
  rw [scanNumber]
  · rfl
  · exact h

/-- What is left after a number is an end of the text. -/
theorem suffix_of_scanNumber {t r : Str} {n : Number} (h : scanNumber t = some (n, r)) :
    r <:+ t := by
  have hspan : ∀ s : Str, (spanDigits s).2 <:+ s := fun s => List.dropWhile_suffix _
  have hint : ∀ {s : Str} {y : Str × Str}, scanInt s = some y → y.2 <:+ s := by
    intro s y hs
    rw [scanInt.eq_def] at hs
    split at hs
    · next r =>
      obtain rfl := Option.some.inj hs
      exact List.suffix_cons _ r
    · split_ifs at hs
      obtain rfl := Option.some.inj hs
      exact hspan s
  have hfrac : ∀ s : Str, (scanFrac s).2 <:+ s := by
    intro s
    rw [scanFrac.eq_def]
    split
    · next r =>
      split_ifs
      · exact List.suffix_refl _
      · exact (hspan r).trans (List.suffix_cons _ r)
    · exact List.suffix_refl _
  have hexp : ∀ s : Str, (scanExp s).2 <:+ s := by
    intro s
    have hdigits : ∀ (t : Str) (neg : Bool) {r : Str}, r <:+ t → (expDigits t neg r).2 <:+ t := by
      intro t neg r hr
      by_cases hnil : (spanDigits r).1 = []
      · exact ⟨[], congrArg Prod.snd (if_pos hnil)⟩
      · rw [expDigits, if_neg hnil]
        exact (hspan r).trans hr
    cases s with
    | nil => exact List.suffix_refl _
    | cons c r =>
      by_cases he : c = 'e' ∨ c = 'E'
      · by_cases hm : ∃ t, r = '-' :: t
        · obtain ⟨t, rfl⟩ := hm
          rw [scanExp_minus he]
          exact hdigits _ true ⟨[c, '-'], rfl⟩
        by_cases hp : ∃ t, r = '+' :: t
        · obtain ⟨t, rfl⟩ := hp
          rw [scanExp_plus he]
          exact hdigits _ false ⟨[c, '+'], rfl⟩
        · rw [scanExp_other he (fun t ht => hm ⟨t, ht⟩) fun t ht => hp ⟨t, ht⟩]
          exact hdigits _ false (List.suffix_cons c r)
      · exact ⟨[], congrArg Prod.snd (scanExp_self he r)⟩
  have hunsigned : ∀ (neg : Bool) {s : Str}, scanUnsigned neg s = some (n, r) → r <:+ s := by
    intro neg s hs
    obtain ⟨y, hy, heq⟩ := Option.map_eq_some_iff.mp hs
    obtain ⟨-, rfl⟩ := Prod.mk.inj heq
    exact ((hexp _).trans (hfrac _)).trans (hint hy)
  by_cases hm : ∃ s, t = '-' :: s
  · obtain ⟨s, rfl⟩ := hm
    rw [scanNumber_minus] at h
    exact (hunsigned true h).trans (List.suffix_cons _ s)
  · rw [scanNumber_other fun s hs => hm ⟨s, hs⟩] at h
    exact hunsigned false h

/-! ### Values -/

/-- The words that stand for a value. -/
def keywords : List (Str × Json) :=
  [(['n', 'u', 'l', 'l'], .null), (['t', 'r', 'u', 'e'], .bool true),
    (['f', 'a', 'l', 's', 'e'], .bool false)]

/-- Relations between the steps allowed, the text, what is read of it, and what is left, for
values, the further items of an array, members, and the further members of an object. -/
structure ScanRules (V : ℕ → Str → Json → Str → Prop) (I : ℕ → Str → List Json → Str → Prop)
    (M : ℕ → Str → Str × Json → Str → Prop) (Ms : ℕ → Str → List (Str × Json) → Str → Prop) :
    Prop where
  str : ∀ {n t s r}, scanString t = some (s, r) → V (n + 1) ('"' :: t) (.str s) r
  objNil : ∀ {n t r}, skipWs t = '}' :: r → V (n + 1) ('{' :: t) (.obj []) r
  objCons : ∀ {n t m r ms r'}, M n (skipWs t) m r → Ms n r ms r' →
    V (n + 1) ('{' :: t) (.obj (ofPairs (m :: ms))) r'
  arrNil : ∀ {n t r}, skipWs t = ']' :: r → V (n + 1) ('[' :: t) (.arr []) r
  arrCons : ∀ {n t v r vs r'}, V n (skipWs t) v r → I n r vs r' →
    V (n + 1) ('[' :: t) (.arr (v :: vs)) r'
  keyword : ∀ {n r} {w : Str × Json}, w ∈ keywords → V (n + 1) (w.1 ++ r) w.2 r
  number : ∀ {n t x r}, scanNumber t = some (x, r) → V (n + 1) t (.num x) r
  itemsNil : ∀ {n t r}, skipWs t = ']' :: r → I (n + 1) t [] r
  itemsCons : ∀ {n t r v r' vs r''}, skipWs t = ',' :: r → V n (skipWs r) v r' → I n r' vs r'' →
    I (n + 1) t (v :: vs) r''
  member : ∀ {n t k r r' v r''}, scanString t = some (k, r) → skipWs r = ':' :: r' →
    V n (skipWs r') v r'' → M (n + 1) ('"' :: t) (k, v) r''
  membersNil : ∀ {n t r}, skipWs t = '}' :: r → Ms (n + 1) t [] r
  membersCons : ∀ {n t r m r' ms r''}, skipWs t = ',' :: r → M n (skipWs r) m r' →
    Ms n r' ms r'' → Ms (n + 1) t (m :: ms) r''

private theorem scanKeyword_eq_some {word : Str} {value v : Json} {s r : Str}
    (h : scanKeyword word value s = some (v, r)) : s = word ++ r ∧ v = value := by
  rw [scanKeyword] at h
  split_ifs at h with hword
  obtain ⟨rfl, rfl⟩ := Prod.mk.inj (Option.some.inj h)
  obtain ⟨rest, rfl⟩ := List.isPrefixOf_iff_prefix.mp hword
  exact ⟨by rw [List.drop_left], rfl⟩

/-- What is read obeys every relation that the rules preserve. -/
theorem ScanRules.scan {V : ℕ → Str → Json → Str → Prop} {I : ℕ → Str → List Json → Str → Prop}
    {M : ℕ → Str → Str × Json → Str → Prop} {Ms : ℕ → Str → List (Str × Json) → Str → Prop}
    (h : ScanRules V I M Ms) (n : ℕ) :
    (∀ t v r, scanValue n t = some (v, r) → V n t v r) ∧
      (∀ t vs r, scanItems n t = some (vs, r) → I n t vs r) ∧
      (∀ t m r, scanMember n t = some (m, r) → M n t m r) ∧
      ∀ t ms r, scanMembers n t = some (ms, r) → Ms n t ms r := by
  induction n with
  | zero =>
    refine ⟨?_, ?_, ?_, ?_⟩ <;> intro t x r hscan
    · exact absurd hscan (by simp [scanValue])
    · exact absurd hscan (by simp [scanItems])
    · exact absurd hscan (by simp [scanMember])
    · exact absurd hscan (by simp [scanMembers])
  | succ n ih =>
    obtain ⟨hvalue, hitems, hmember, hmembers⟩ := ih
    refine ⟨fun t v r hscan => ?_, fun t vs r hscan => ?_, fun t m r hscan => ?_,
      fun t ms r hscan => ?_⟩
    · cases t with
      | nil => exact absurd hscan (by simp [scanValue])
      | cons c t =>
        rw [scanValue] at hscan
        split_ifs at hscan with hquote hbrace hbracket hn ht hf
        · subst hquote
          obtain ⟨⟨s, r'⟩, hs, heq⟩ := Option.map_eq_some_iff.mp hscan
          obtain ⟨rfl, rfl⟩ := Prod.mk.inj heq
          exact h.str hs
        · subst hbrace
          split at hscan
          · next r' hskip =>
            obtain ⟨rfl, rfl⟩ := Prod.mk.inj (Option.some.inj hscan)
            exact h.objNil hskip
          · obtain ⟨⟨m, r₁⟩, hm, hscan⟩ := Option.bind_eq_some_iff.mp hscan
            obtain ⟨⟨ms, r₂⟩, hms, heq⟩ := Option.bind_eq_some_iff.mp hscan
            obtain ⟨rfl, rfl⟩ := Prod.mk.inj (Option.some.inj heq)
            exact h.objCons (hmember _ _ _ hm) (hmembers _ _ _ hms)
        · subst hbracket
          split at hscan
          · next r' hskip =>
            obtain ⟨rfl, rfl⟩ := Prod.mk.inj (Option.some.inj hscan)
            exact h.arrNil hskip
          · obtain ⟨⟨v', r₁⟩, hv, hscan⟩ := Option.bind_eq_some_iff.mp hscan
            obtain ⟨⟨vs, r₂⟩, hvs, heq⟩ := Option.bind_eq_some_iff.mp hscan
            obtain ⟨rfl, rfl⟩ := Prod.mk.inj (Option.some.inj heq)
            exact h.arrCons (hvalue _ _ _ hv) (hitems _ _ _ hvs)
        · subst hn
          obtain ⟨rfl, rfl⟩ := scanKeyword_eq_some hscan
          exact h.keyword (w := (['n', 'u', 'l', 'l'], .null)) (by simp [keywords])
        · subst ht
          obtain ⟨rfl, rfl⟩ := scanKeyword_eq_some hscan
          exact h.keyword (w := (['t', 'r', 'u', 'e'], .bool true)) (by simp [keywords])
        · subst hf
          obtain ⟨rfl, rfl⟩ := scanKeyword_eq_some hscan
          exact h.keyword (w := (['f', 'a', 'l', 's', 'e'], .bool false)) (by simp [keywords])
        · obtain ⟨⟨x, r'⟩, hx, heq⟩ := Option.map_eq_some_iff.mp hscan
          obtain ⟨rfl, rfl⟩ := Prod.mk.inj heq
          exact h.number hx
    · rw [scanItems] at hscan
      split at hscan
      · next r' hskip =>
        obtain ⟨rfl, rfl⟩ := Prod.mk.inj (Option.some.inj hscan)
        exact h.itemsNil hskip
      · next r' hskip =>
        obtain ⟨⟨v, r₁⟩, hv, hscan⟩ := Option.bind_eq_some_iff.mp hscan
        obtain ⟨⟨ws, r₂⟩, hvs, heq⟩ := Option.bind_eq_some_iff.mp hscan
        obtain ⟨rfl, rfl⟩ := Prod.mk.inj (Option.some.inj heq)
        exact h.itemsCons hskip (hvalue _ _ _ hv) (hitems _ _ _ hvs)
      · exact absurd hscan (by simp)
    · unfold scanMember at hscan
      split at hscan
      · obtain ⟨⟨k, r₁⟩, hk, hscan⟩ := Option.bind_eq_some_iff.mp hscan
        dsimp only at hscan
        split at hscan
        · next r₂ hskip =>
          obtain ⟨⟨v, r₃⟩, hv, heq⟩ := Option.bind_eq_some_iff.mp hscan
          obtain ⟨rfl, rfl⟩ := Prod.mk.inj (Option.some.inj heq)
          exact h.member hk hskip (hvalue _ _ _ hv)
        · exact absurd hscan (by simp)
      · exact absurd hscan (by simp)
    · rw [scanMembers] at hscan
      split at hscan
      · next r' hskip =>
        obtain ⟨rfl, rfl⟩ := Prod.mk.inj (Option.some.inj hscan)
        exact h.membersNil hskip
      · next r' hskip =>
        obtain ⟨⟨m, r₁⟩, hm, hscan⟩ := Option.bind_eq_some_iff.mp hscan
        obtain ⟨⟨ns, r₂⟩, hms, heq⟩ := Option.bind_eq_some_iff.mp hscan
        obtain ⟨rfl, rfl⟩ := Prod.mk.inj (Option.some.inj heq)
        exact h.membersCons hskip (hmember _ _ _ hm) (hmembers _ _ _ hms)
      · exact absurd hscan (by simp)

/-! ### The rules hold of the scanners -/

/-- A number begins with a minus sign or a digit. -/
theorem head_of_scanNumber {t : Str} {x : Number × Str} (h : scanNumber t = some x) :
    ∃ c r, t = c :: r ∧ (c = '-' ∨ c.isDigit = true) := by
  have hint : ∀ {s : Str} {y : Str × Str}, scanInt s = some y →
      ∃ c r, s = c :: r ∧ c.isDigit = true := by
    intro s y hs
    rw [scanInt.eq_def] at hs
    split at hs
    · next r => exact ⟨'0', r, rfl, rfl⟩
    · split_ifs at hs with hnil
      cases s with
      | nil => exact absurd rfl hnil
      | cons c r =>
        refine ⟨c, r, rfl, ?_⟩
        by_contra hc
        exact hnil (by simp [spanDigits, hc])
  rw [scanNumber.eq_def] at h
  split at h
  · next r => exact ⟨'-', r, rfl, Or.inl rfl⟩
  · obtain ⟨y, hy, -⟩ := Option.map_eq_some_iff.mp h
    obtain ⟨c, r, rfl, hc⟩ := hint hy
    exact ⟨c, r, rfl, Or.inr hc⟩

/-- A value does not begin with a closing bracket. -/
private theorem head_of_scanValue {n : ℕ} {t r : Str} {v : Json}
    (h : scanValue n t = some (v, r)) (r' : Str) : t ≠ ']' :: r' := by
  rintro rfl
  cases n with
  | zero => exact absurd h (by simp [scanValue])
  | succ n =>
    rw [scanValue, if_neg (by decide), if_neg (by decide), if_neg (by decide), if_neg (by decide),
      if_neg (by decide), if_neg (by decide)] at h
    obtain ⟨x, hx, -⟩ := Option.map_eq_some_iff.mp h
    obtain ⟨c, r, hcons, hc⟩ := head_of_scanNumber hx
    obtain ⟨rfl, -⟩ := List.cons.inj hcons
    exact absurd hc (by decide)

private theorem head_of_scanMember {n : ℕ} {t r : Str} {m : Str × Json}
    (h : scanMember n t = some (m, r)) (r' : Str) : t ≠ '}' :: r' := by
  rintro rfl
  cases n with
  | zero | succ => exact absurd h (by simp [scanMember])

/-- The scanners obey the rules. -/
theorem scanRules_self : ScanRules (fun n t v r => scanValue n t = some (v, r))
    (fun n t vs r => scanItems n t = some (vs, r)) (fun n t m r => scanMember n t = some (m, r))
    fun n t ms r => scanMembers n t = some (ms, r) where
  str h := by rw [scanValue, if_pos rfl, h, Option.map_some]
  objNil h := by
    rw [scanValue, if_neg (by decide), if_pos rfl, h]
    rfl
  objCons hm hms := by
    rw [scanValue, if_neg (by decide), if_pos rfl]
    split
    · next hskip => exact absurd hskip (head_of_scanMember hm _)
    · simp only [hm, hms, Option.bind_eq_bind, Option.bind_some]
  arrNil h := by
    rw [scanValue, if_neg (by decide), if_neg (by decide), if_pos rfl, h]
    rfl
  arrCons hv hvs := by
    rw [scanValue, if_neg (by decide), if_neg (by decide), if_pos rfl]
    split
    · next hskip => exact absurd hskip (head_of_scanValue hv _)
    · simp only [hv, hvs, Option.bind_eq_bind, Option.bind_some]
  keyword h := by
    simp only [keywords, List.mem_cons, List.not_mem_nil, or_false] at h
    rcases h with rfl | rfl | rfl <;> simp [scanValue, scanKeyword]
  number {n t x r} h := by
    obtain ⟨c, t', rfl, hc⟩ := head_of_scanNumber h
    have hne : ∀ d, d ≠ '-' → d.isDigit = false → c ≠ d := by
      rintro d hd hdigit rfl
      exact hc.elim hd fun htrue => Bool.noConfusion (htrue.symm.trans hdigit)
    rw [scanValue, if_neg (hne _ (by decide) (by decide)), if_neg (hne _ (by decide) (by decide)),
      if_neg (hne _ (by decide) (by decide)), if_neg (hne _ (by decide) (by decide)),
      if_neg (hne _ (by decide) (by decide)), if_neg (hne _ (by decide) (by decide)), h,
      Option.map_some]
  itemsNil h := by
    rw [scanItems, h]
    rfl
  itemsCons h hv hvs := by
    rw [scanItems, h]
    simp only [hv, hvs, Option.bind_eq_bind, Option.bind_some]
  member hk h hv := by
    rw [scanMember]
    simp only [hk, h, hv, Option.bind_eq_bind, Option.bind_some]
  membersNil h := by
    rw [scanMembers, h]
    rfl
  membersCons h hm hms := by
    rw [scanMembers, h]
    simp only [hm, hms, Option.bind_eq_bind, Option.bind_some]

/-! ### Texts -/

/-- More steps read the same. -/
theorem scanValue_mono {n m : ℕ} {t r : Str} {v : Json} (h : scanValue n t = some (v, r))
    (hle : n ≤ m) : scanValue m t = some (v, r) := by
  have hsucc : ∀ {n m}, n + 1 ≤ m → ∃ k, m = k + 1 ∧ n ≤ k := fun {n m} hle =>
    ⟨m - 1, by omega, by omega⟩
  have hrules : ScanRules (fun n t v r => ∀ m, n ≤ m → scanValue m t = some (v, r))
      (fun n t vs r => ∀ m, n ≤ m → scanItems m t = some (vs, r))
      (fun n t x r => ∀ m, n ≤ m → scanMember m t = some (x, r))
      fun n t ms r => ∀ m, n ≤ m → scanMembers m t = some (ms, r) :=
    { str := fun h m hle => by
        obtain ⟨k, rfl, -⟩ := hsucc hle
        exact scanRules_self.str h
      objNil := fun h m hle => by
        obtain ⟨k, rfl, -⟩ := hsucc hle
        exact scanRules_self.objNil h
      objCons := fun hm hms m hle => by
        obtain ⟨k, rfl, hk⟩ := hsucc hle
        exact scanRules_self.objCons (hm k hk) (hms k hk)
      arrNil := fun h m hle => by
        obtain ⟨k, rfl, -⟩ := hsucc hle
        exact scanRules_self.arrNil h
      arrCons := fun hv hvs m hle => by
        obtain ⟨k, rfl, hk⟩ := hsucc hle
        exact scanRules_self.arrCons (hv k hk) (hvs k hk)
      keyword := fun h m hle => by
        obtain ⟨k, rfl, -⟩ := hsucc hle
        exact scanRules_self.keyword h
      number := fun h m hle => by
        obtain ⟨k, rfl, -⟩ := hsucc hle
        exact scanRules_self.number h
      itemsNil := fun h m hle => by
        obtain ⟨k, rfl, -⟩ := hsucc hle
        exact scanRules_self.itemsNil h
      itemsCons := fun h hv hvs m hle => by
        obtain ⟨k, rfl, hk⟩ := hsucc hle
        exact scanRules_self.itemsCons h (hv k hk) (hvs k hk)
      member := fun hkey h hv m hle => by
        obtain ⟨k, rfl, hk⟩ := hsucc hle
        exact scanRules_self.member hkey h (hv k hk)
      membersNil := fun h m hle => by
        obtain ⟨k, rfl, -⟩ := hsucc hle
        exact scanRules_self.membersNil h
      membersCons := fun h hm hms m hle => by
        obtain ⟨k, rfl, hk⟩ := hsucc hle
        exact scanRules_self.membersCons h (hm k hk) (hms k hk) }
  exact (hrules.scan n).1 t v r h m hle

/-- A text is that of a value if the value is read after the leading blanks and blanks are
left. -/
theorem loads_eq_some {s : Str} {v : Json} :
    loads s = some v ↔
      ∃ r, scanValue (2 * s.length + 1) (skipWs s) = some (v, r) ∧ skipWs r = [] := by
  rw [loads]
  constructor
  · intro h
    split at h
    · next v' r hscan =>
      split_ifs at h with hr
      obtain rfl := Option.some.inj h
      exact ⟨r, hscan, hr⟩
    · exact absurd h (by simp)
  · rintro ⟨r, hscan, hr⟩
    rw [hscan]
    exact if_pos hr

end PyJson

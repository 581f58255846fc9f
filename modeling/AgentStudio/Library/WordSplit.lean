import AgentStudio.Library.Text
import Mathlib.Algebra.BigOperators.Group.List.Basic
import Mathlib.Algebra.Order.BigOperators.Group.List
import Mathlib.Data.List.TakeWhile

/-!
# Splitting a text at a word

`splitAtWord w s` is Python's `re.split(r"\s+w\s+", s)` that ignores the case of the word `w`: a
separator is the word between blanks (`IsSeparator`), and it takes all blanks around it.

A text is either left as it is, or cut into shorter parts (`splitAtWord_eq_self`,
`length_lt_of_mem_splitAtWord`). `splitAtWord_append` is the way back: a text without a separator
that does not end in a blank is the first part of what it is put before, with a separator between.
`letters` counts what is not blank, which a split keeps but for the words (`letters_splitAtWord`).
-/

namespace PyText

/-! ### Blanks -/

/-- The text is blank. -/
def IsBlank (s : Str) : Prop := ∀ c ∈ s, isSpace c = true

instance (s : Str) : Decidable (IsBlank s) := List.decidableBAll _ s

variable {s : Str} {c : Char}

/-- What holds of all characters, one by one. -/
theorem forall_mem_of_all {p : Char → Prop} [DecidablePred p]
    (h : (s.all fun c => decide (p c)) = true) : ∀ c ∈ s, p c :=
  fun c hc => of_decide_eq_true (List.all_eq_true.mp h c hc)

/-- The text starts with a blank. -/
def startsBlank (s : Str) : Bool := s.head?.any isSpace

/-- How many characters of a text are not blank. -/
def letters (s : Str) : ℕ := s.countP fun c => !isSpace c

@[simp] theorem letters_nil : letters [] = 0 := rfl

@[simp] theorem letters_append (s t : Str) : letters (s ++ t) = letters s + letters t :=
  List.countP_append

theorem letters_cons (c : Char) (s : Str) : letters (c :: s) = letters [c] + letters s :=
  letters_append [c] s

theorem letters_eq_zero : letters s = 0 ↔ IsBlank s := by
  simp [letters, IsBlank, List.countP_eq_zero]

theorem IsBlank.append {t : Str} (hs : IsBlank s) (ht : IsBlank t) : IsBlank (s ++ t) := by
  intro c hc
  exact (List.mem_append.mp hc).elim (hs c) (ht c)

theorem dropWhile_isSpace_append {b : Str} (hb : IsBlank b) (hs : startsBlank s = false) :
    (b ++ s).dropWhile isSpace = s := by
  rw [List.dropWhile_append_of_pos hb]
  cases s with
  | nil => rfl
  | cons c s => exact List.dropWhile_cons_of_neg (by simpa [startsBlank] using hs)

theorem startsBlank_dropWhile (s : Str) : startsBlank (s.dropWhile isSpace) = false := by
  induction s with
  | nil => rfl
  | cons c s ih =>
    cases hc : isSpace c with
    | true => rwa [List.dropWhile_cons_of_pos hc]
    | false =>
      rw [List.dropWhile_cons_of_neg (by simp [hc])]
      simp [startsBlank, hc]

/-- The blanks at the start of a text, and what follows. -/
theorem exists_blank_append (s : Str) :
    ∃ b, IsBlank b ∧ s = b ++ s.dropWhile isSpace := by
  refine ⟨s.takeWhile isSpace, fun c hc => List.mem_takeWhile_imp hc, ?_⟩
  exact List.takeWhile_append_dropWhile.symm

/-- The text ends in a blank. -/
def endsBlank (s : Str) : Bool := startsBlank s.reverse

theorem IsBlank.reverse (h : IsBlank s) : IsBlank s.reverse :=
  fun c hc => h c (List.mem_reverse.mp hc)

/-- What `strip` takes away on the right. -/
theorem exists_lstrip (s : Str) : ∃ b, IsBlank b ∧ lstrip s = strip s ++ b := by
  obtain ⟨b, hb, hs⟩ := exists_blank_append (lstrip s).reverse
  refine ⟨b.reverse, hb.reverse, ?_⟩
  rw [← List.reverse_inj, List.reverse_append, List.reverse_reverse, strip, List.reverse_reverse]
  exact hs

/-- What `strip` takes away. -/
theorem exists_strip (s : Str) : ∃ b b', IsBlank b ∧ IsBlank b' ∧ s = b ++ strip s ++ b' := by
  obtain ⟨b, hb, hs⟩ := exists_blank_append s
  obtain ⟨b', hb', hs'⟩ := exists_lstrip s
  refine ⟨b, b', hb, hb', ?_⟩
  rw [List.append_assoc, ← hs']
  exact hs

theorem startsBlank_append_left {t : Str} (hs : startsBlank (s ++ t) = false) :
    startsBlank s = false := by
  cases s with
  | nil => rfl
  | cons c s => exact hs

theorem endsBlank_strip (s : Str) : endsBlank (strip s) = false := by
  rw [endsBlank, strip, List.reverse_reverse]
  exact startsBlank_dropWhile _

theorem startsBlank_strip (s : Str) : startsBlank (strip s) = false := by
  obtain ⟨b, -, hs⟩ := exists_lstrip s
  refine startsBlank_append_left (t := b) ?_
  rw [← hs]
  exact startsBlank_dropWhile s

/-- `strip` takes away the blanks on both sides. -/
theorem strip_append {b b' : Str} (hb : IsBlank b) (hb' : IsBlank b')
    (hstart : startsBlank s = false) (hend : endsBlank s = false) : strip (b ++ s ++ b') = s := by
  cases s with
  | nil =>
    have hnil : lstrip (b ++ [] ++ b') = [] := by
      rw [List.append_nil]
      exact List.dropWhile_eq_nil_iff.mpr (hb.append hb')
    rw [strip, hnil]
    rfl
  | cons c t =>
    have hleft : lstrip (b ++ (c :: t) ++ b') = c :: t ++ b' := by
      rw [List.append_assoc]
      exact dropWhile_isSpace_append hb hstart
    rw [strip, hleft, List.reverse_append, lstrip, dropWhile_isSpace_append hb'.reverse hend,
      List.reverse_reverse]

theorem strip_eq_self_of (hstart : startsBlank s = false) (hend : endsBlank s = false) :
    strip s = s := by
  have hstrip : strip ([] ++ s ++ []) = s :=
    strip_append (by simp [IsBlank]) (by simp [IsBlank]) hstart hend
  simpa using hstrip

@[simp] theorem strip_strip (s : Str) : strip (strip s) = strip s :=
  strip_eq_self_of (startsBlank_strip s) (endsBlank_strip s)

theorem length_strip_le (s : Str) : (strip s).length ≤ s.length := by
  obtain ⟨b, b', -, -, hs⟩ := exists_strip s
  conv_rhs => rw [hs]
  simp
  omega

@[simp] theorem letters_strip (s : Str) : letters (strip s) = letters s := by
  obtain ⟨b, b', hb, hb', hs⟩ := exists_strip s
  conv_rhs => rw [hs]
  rw [letters_append, letters_append, letters_eq_zero.mpr hb, letters_eq_zero.mpr hb']
  omega

/-! ### Separators -/

/-- The word, in any case, between blanks. -/
structure IsSeparator (w sep : Str) : Prop where
  exists_parts : ∃ b word b', sep = b ++ word ++ b' ∧ IsBlank b ∧ b ≠ [] ∧
    word.map Char.toLower = w ∧ IsBlank b' ∧ b' ≠ []

/-- The length of the separator at the start of a text, `0` if there is none. -/
def separatorLength (w s : Str) : ℕ :=
  let rest := (s.dropWhile isSpace).drop w.length
  if startsBlank s && ((s.dropWhile isSpace).take w.length).map Char.toLower == w &&
      startsBlank rest then
    s.length - (rest.dropWhile isSpace).length
  else 0

/-- The parts of a text, after some characters that are passed over. -/
def splitFrom (w : Str) : ℕ → Str → List Str
  | _, [] => [[]]
  | n + 1, _ :: s => splitFrom w n s
  | 0, c :: s =>
    if separatorLength w (c :: s) = 0 then (splitFrom w 0 s).modifyHead (c :: ·)
    else [] :: splitFrom w (separatorLength w (c :: s) - 1) s

/-- `re.split(r"\s+w\s+", s, flags=re.IGNORECASE)`. -/
def splitAtWord (w s : Str) : List Str := splitFrom w 0 s

variable {w : Str}

theorem splitFrom_cons_of_eq_zero (h : separatorLength w (c :: s) = 0) :
    splitFrom w 0 (c :: s) = (splitFrom w 0 s).modifyHead (c :: ·) := by
  rw [splitFrom, if_pos h]

theorem splitFrom_cons_of_eq_succ {n : ℕ} (h : separatorLength w (c :: s) = n + 1) :
    splitFrom w 0 (c :: s) = [] :: splitFrom w n s := by
  rw [splitFrom, if_neg (by omega), h, Nat.add_sub_cancel]

theorem splitFrom_ne_nil (n : ℕ) (s : Str) : splitFrom w n s ≠ [] := by
  induction s generalizing n with
  | nil => simp [splitFrom]
  | cons c s ih =>
    cases n with
    | succ n => exact ih n
    | zero =>
      cases h : separatorLength w (c :: s) with
      | zero =>
        rw [splitFrom_cons_of_eq_zero h]
        obtain ⟨p, ps, hps⟩ := List.exists_cons_of_ne_nil (ih 0)
        simp [hps]
      | succ n => simp [splitFrom_cons_of_eq_succ h]

theorem splitFrom_eq_drop (n : ℕ) (s : Str) : splitFrom w n s = splitFrom w 0 (s.drop n) := by
  induction s generalizing n with
  | nil => simp [splitFrom]
  | cons c s ih =>
    cases n with
    | zero => rfl
    | succ n => exact ih n

/-! ### The parts are shorter -/

theorem sum_length_splitFrom (n : ℕ) (s : Str) :
    ((splitFrom w n s).map List.length).sum + (splitFrom w n s).length ≤ s.length + 1 := by
  induction s generalizing n with
  | nil => simp [splitFrom]
  | cons c s ih =>
    cases n with
    | succ n => exact (ih n).trans (Nat.le_succ _)
    | zero =>
      cases h : separatorLength w (c :: s) with
      | zero =>
        rw [splitFrom_cons_of_eq_zero h]
        obtain ⟨p, ps, hps⟩ := List.exists_cons_of_ne_nil (splitFrom_ne_nil (w := w) 0 s)
        have hih := ih 0
        rw [hps] at hih ⊢
        simp at hih ⊢
        omega
      | succ n =>
        rw [splitFrom_cons_of_eq_succ h]
        have hih := ih n
        simp at hih ⊢
        omega

/-- If a text is cut at all, its parts are shorter. -/
theorem length_lt_of_mem_splitAtWord {p : Str} (hcut : (splitAtWord w s).length ≠ 1)
    (hp : p ∈ splitAtWord w s) : p.length < s.length := by
  have hsum := sum_length_splitFrom (w := w) 0 s
  have hle : p.length ≤ ((splitAtWord w s).map List.length).sum :=
    List.single_le_sum (fun _ _ => Nat.zero_le _) _ (List.mem_map_of_mem hp)
  have hpos : 0 < (splitAtWord w s).length := List.length_pos_of_mem hp
  rw [splitAtWord] at *
  omega

/-- A text that is not cut is left as it is. -/
theorem splitAtWord_eq_self (h : (splitAtWord w s).length = 1) : splitAtWord w s = [s] := by
  induction s with
  | nil => rfl
  | cons c s ih =>
    rw [splitAtWord] at *
    cases hsep : separatorLength w (c :: s) with
    | zero =>
      rw [splitFrom_cons_of_eq_zero hsep] at h ⊢
      rw [List.length_modifyHead] at h
      rw [ih h]
      rfl
    | succ n =>
      rw [splitFrom_cons_of_eq_succ hsep] at h
      exact absurd (List.length_eq_zero_iff.mp (Nat.succ.inj h)) (splitFrom_ne_nil n s)

/-! ### Separators and case -/

/-- Only `A` to `Z` have another lower case. -/
theorem toLower_of_not_upper (h : ¬ (c.val ≥ 'A'.val ∧ c.val ≤ 'Z'.val)) :
    c.toLower = c := dif_neg h

theorem toLower_of_isSpace (h : isSpace c = true) : c.toLower = c := by
  simp only [isSpace, Bool.or_eq_true, Bool.and_eq_true, decide_eq_true_eq, beq_iff_eq] at h
  refine toLower_of_not_upper ?_
  simp only [ge_iff_le, UInt32.le_iff_toNat_le, Char.toNat_val, Char.reduceVal,
    UInt32.reduceToNat]
  omega

/-- The case of a letter does not make it a blank. -/
theorem isSpace_toLower (c : Char) : isSpace c.toLower = isSpace c := by
  cases hc : isSpace c with
  | true => rw [toLower_of_isSpace hc, hc]
  | false =>
    by_cases hupper : c.val ≥ 'A'.val ∧ c.val ≤ 'Z'.val
    · have hnat : c.toLower.toNat = c.toNat + 32 := by
        have hle := hupper.2
        simp only [UInt32.le_iff_toNat_le, Char.toNat_val, Char.reduceVal,
          UInt32.reduceToNat] at hle
        have hval : c.toLower.val = c.val + 32 := congrArg Char.val (dif_pos hupper)
        change c.toLower.val.toNat = c.val.toNat + 32
        rw [hval, UInt32.toNat_add]
        exact Nat.mod_eq_of_lt (by simp [Char.toNat_val]; omega)
      obtain ⟨hge, hle⟩ := hupper
      simp only [ge_iff_le, UInt32.le_iff_toNat_le, Char.toNat_val, Char.reduceVal,
        UInt32.reduceToNat] at hge hle
      simp only [isSpace, hnat, Bool.or_eq_false_iff, Bool.and_eq_false_iff,
        decide_eq_false_iff_not, beq_eq_false_iff_ne]
      omega
    · rw [toLower_of_not_upper hupper, hc]

theorem letters_map_toLower (s : Str) : letters (s.map Char.toLower) = letters s := by
  simp only [letters, List.countP_map, Function.comp_def, isSpace_toLower]

theorem IsSeparator.letters_eq {sep : Str} (h : IsSeparator w sep) : letters sep = letters w := by
  obtain ⟨b, word, b', rfl, hb, -, hword, hb', -⟩ := h.exists_parts
  rw [letters_append, letters_append, letters_eq_zero.mpr hb, letters_eq_zero.mpr hb',
    ← letters_map_toLower word, hword]
  omega

/-! ### What a split keeps -/

/-- A separator at the start of a text. -/
theorem isSeparator_of_separatorLength {n : ℕ} (h : separatorLength w s = n) (hn : n ≠ 0) :
    IsSeparator w (s.take n) := by
  rw [separatorLength] at h
  split_ifs at h with hsep
  · simp only [Bool.and_eq_true, beq_iff_eq] at hsep
    obtain ⟨⟨hstart, hword⟩, hafter⟩ := hsep
    obtain ⟨b, hb, hs⟩ := exists_blank_append s
    obtain ⟨b', hb', hrest⟩ := exists_blank_append ((s.dropWhile isSpace).drop w.length)
    have hsplit : s = (b ++ (s.dropWhile isSpace).take w.length ++ b') ++
        ((s.dropWhile isSpace).drop w.length).dropWhile isSpace := by
      rw [List.append_assoc, ← hrest, List.append_assoc, List.take_append_drop]
      exact hs
    have hlength : (b ++ (s.dropWhile isSpace).take w.length ++ b').length = n := by
      have := congrArg List.length hsplit
      rw [List.length_append] at this
      omega
    refine ⟨b, (s.dropWhile isSpace).take w.length, b', ?_, hb, ?_, hword, hb', ?_⟩
    · conv_lhs => rw [hsplit]
      exact List.take_left' hlength
    · rintro rfl
      rw [hs, List.nil_append, startsBlank_dropWhile] at hstart
      exact absurd hstart Bool.false_ne_true
    · rintro rfl
      rw [hrest, List.nil_append, startsBlank_dropWhile] at hafter
      exact absurd hafter Bool.false_ne_true
  · exact absurd h.symm hn

/-- The parts have the characters of the text that are not blank, but for the words. -/
theorem letters_splitFrom (n : ℕ) (s : Str) :
    letters (s.drop n) =
      ((splitFrom w n s).map letters).sum + letters w * ((splitFrom w n s).length - 1) := by
  induction s generalizing n with
  | nil => simp [splitFrom]
  | cons c s ih =>
    cases n with
    | succ n => exact ih n
    | zero =>
      obtain ⟨p, ps, hps⟩ := List.exists_cons_of_ne_nil (splitFrom_ne_nil (w := w) 0 s)
      cases h : separatorLength w (c :: s) with
      | zero =>
        have hih := ih 0
        rw [splitFrom_cons_of_eq_zero h, List.drop_zero, letters_cons]
        rw [hps, List.drop_zero] at hih
        rw [hps, hih]
        simp only [List.modifyHead_cons, List.map_cons, List.sum_cons, List.length_cons,
          letters_cons c p]
        omega
      | succ n =>
        have hsep := (isSeparator_of_separatorLength h (Nat.succ_ne_zero n)).letters_eq
        have hpos : 0 < (splitFrom w n s).length := List.length_pos_of_ne_nil (splitFrom_ne_nil n s)
        rw [splitFrom_cons_of_eq_succ h, List.drop_zero]
        calc letters (c :: s)
            = letters ((c :: s).take (n + 1) ++ (c :: s).drop (n + 1)) := by
              rw [List.take_append_drop]
          _ = letters w + letters (s.drop n) := by rw [letters_append, hsep]; rfl
          _ = ((splitFrom w n s).map letters).sum + letters w * (splitFrom w n s).length := by
              obtain ⟨k, hk⟩ := Nat.exists_eq_succ_of_ne_zero hpos.ne'
              rw [ih n, hk, Nat.succ_sub_one, Nat.mul_succ]
              omega
          _ = _ := by simp

/-- What a split keeps. -/
theorem letters_splitAtWord (s : Str) :
    letters s =
      ((splitAtWord w s).map letters).sum + letters w * ((splitAtWord w s).length - 1) :=
  letters_splitFrom 0 s

/-! ### The way back -/

/-- The word does not stand in the text between a blank and a blank or the end. -/
def FreeOf (w s : Str) : Prop :=
  ∀ a c word rest, s = a ++ c :: (word ++ rest) → isSpace c = true →
    word.map Char.toLower = w → rest ≠ [] ∧ startsBlank rest = false

theorem FreeOf.tail (h : FreeOf w (c :: s)) : FreeOf w s :=
  fun a d word rest hs hd hword => h (c :: a) d word rest (congrArg (c :: ·) hs) hd hword

/-- No separator starts in a text that is free of the word, whatever follows after a blank. -/
theorem separatorLength_append {q t : Str} (hw : ∀ c ∈ w, isSpace c = false) (hfree : FreeOf w q)
    (hq : q ≠ []) (hend : endsBlank q = false) (ht : t = [] ∨ startsBlank t = true) :
    separatorLength w (q ++ t) = 0 := by
  rw [separatorLength]
  refine if_neg fun hsep => ?_
  simp only [Bool.and_eq_true, beq_iff_eq] at hsep
  obtain ⟨⟨hstart, hword⟩, hafter⟩ := hsep
  obtain ⟨b, hb, hbq⟩ := exists_blank_append q
  generalize hq1 : q.dropWhile isSpace = q1 at hbq
  have hq1start : startsBlank q1 = false := hq1 ▸ startsBlank_dropWhile q
  have hq1nil : q1 ≠ [] := by
    rintro rfl
    rw [List.append_nil] at hbq
    obtain ⟨c, cs, hcs⟩ := List.exists_cons_of_ne_nil (mt List.reverse_eq_nil_iff.mp hq)
    have hc : isSpace c = true :=
      (hbq ▸ hb) c (List.mem_reverse.mp (hcs ▸ List.mem_cons_self))
    rw [endsBlank, hcs] at hend
    exact absurd hend (by simp [startsBlank, hc])
  have hdrop : (q ++ t).dropWhile isSpace = q1 ++ t := by
    rw [hbq, List.append_assoc]
    refine dropWhile_isSpace_append hb ?_
    obtain ⟨c, cs, rfl⟩ := List.exists_cons_of_ne_nil hq1nil
    exact hq1start
  rw [hdrop] at hword hafter
  -- the blanks before the word are in the text
  obtain ⟨a, c, rfl⟩ : ∃ a c, b = a ++ [c] := by
    rcases b.eq_nil_or_concat with rfl | ⟨a, c, hac⟩
    · obtain ⟨c, cs, rfl⟩ := List.exists_cons_of_ne_nil hq1nil
      rw [hbq] at hstart
      exact absurd (hq1start.symm.trans hstart) Bool.false_ne_true
    · exact ⟨a, c, by rw [hac, List.concat_eq_append]⟩
  rcases Nat.lt_or_ge q1.length w.length with hlt | hge
  · -- the word would go beyond the text, and have a blank in it
    have hlength : w.length ≤ (q1 ++ t).length := by
      have := congrArg List.length hword
      rw [List.length_map, List.length_take] at this
      omega
    rcases ht with rfl | ht
    · rw [List.append_nil] at hlength
      omega
    · obtain ⟨d, ds, rfl⟩ : ∃ d ds, t = d :: ds := by
        cases t with
        | nil => exact absurd ht (by simp [startsBlank])
        | cons d ds => exact ⟨d, ds, rfl⟩
      have hd : isSpace d = true := by simpa [startsBlank] using ht
      have hmem : d ∈ (q1 ++ d :: ds).take w.length := by
        rw [List.take_append, List.mem_append]
        right
        obtain ⟨k, hk⟩ := Nat.exists_eq_add_of_lt hlt
        rw [show w.length - q1.length = k + 1 by omega, List.take_succ_cons]
        exact List.mem_cons_self
      have hdw : d.toLower ∈ w := by
        rw [← hword]
        exact List.mem_map_of_mem hmem
      rw [toLower_of_isSpace hd] at hdw
      exact absurd (hd.symm.trans (hw d hdw)) (by simp)
  · rw [List.take_append_of_le_length hge] at hword
    rw [List.drop_append_of_le_length hge] at hafter
    obtain ⟨hrest, hblank⟩ := hfree a c (q1.take w.length) (q1.drop w.length)
      (by rw [List.take_append_drop, hbq]; simp) (hb c (by simp)) hword
    obtain ⟨d, ds, hds⟩ := List.exists_cons_of_ne_nil hrest
    rw [hds] at hblank hafter
    exact absurd (hblank.symm.trans hafter) Bool.false_ne_true

theorem endsBlank_tail (h : endsBlank (c :: s) = false) : endsBlank s = false := by
  rw [endsBlank, List.reverse_cons] at h
  exact startsBlank_append_left h

/-- A text that is free of the word is not cut. -/
theorem splitAtWord_of_freeOf {q : Str} (hw : ∀ c ∈ w, isSpace c = false) (hfree : FreeOf w q)
    (hend : endsBlank q = false) : splitAtWord w q = [q] := by
  induction q with
  | nil => rfl
  | cons c q ih =>
    have hzero := separatorLength_append (t := []) hw hfree (List.cons_ne_nil c q) hend (.inl rfl)
    rw [List.append_nil] at hzero
    rw [splitAtWord, splitFrom_cons_of_eq_zero hzero, ← splitAtWord,
      ih hfree.tail (endsBlank_tail hend)]
    rfl

/-- The length of a separator. -/
theorem separatorLength_of_isSeparator {sep rest : Str} (hw : ∀ c ∈ w, isSpace c = false)
    (hnil : w ≠ []) (hsep : IsSeparator w sep) (hrest : startsBlank rest = false) :
    separatorLength w (sep ++ rest) = sep.length := by
  obtain ⟨b, word, b', rfl, hb, hbnil, rfl, hb', hbnil'⟩ := hsep.exists_parts
  obtain ⟨c, cs, rfl⟩ := List.exists_cons_of_ne_nil hbnil
  obtain ⟨d, ds, rfl⟩ := List.exists_cons_of_ne_nil hbnil'
  obtain ⟨x, xs, rfl⟩ : ∃ x xs, word = x :: xs :=
    List.exists_cons_of_ne_nil fun h => hnil (by rw [h]; rfl)
  have hx : isSpace x = false := by
    rw [← isSpace_toLower]
    exact hw _ List.mem_cons_self
  have hdrop : (c :: cs ++ (x :: xs) ++ (d :: ds) ++ rest).dropWhile isSpace =
      x :: xs ++ (d :: ds ++ rest) := by
    rw [List.append_assoc, List.append_assoc]
    exact dropWhile_isSpace_append hb (by simpa [startsBlank] using hx)
  have hafter : ((x :: xs) ++ (d :: ds ++ rest)).drop ((x :: xs).map Char.toLower).length =
      d :: ds ++ rest := by
    rw [List.length_map, List.drop_left]
  have hblank : (d :: ds ++ rest).dropWhile isSpace = rest := dropWhile_isSpace_append hb' hrest
  rw [separatorLength, hdrop, hafter, hblank, if_pos]
  · simp
    omega
  · have hc : isSpace c = true := hb c List.mem_cons_self
    have hd : isSpace d = true := hb' d List.mem_cons_self
    rw [List.length_map, List.take_left]
    simp [startsBlank, hc, hd]

/-- **The way back.** A text that is free of the word is the first part of what it is put before. -/
theorem splitAtWord_append {q sep rest : Str} (hw : ∀ c ∈ w, isSpace c = false) (hnil : w ≠ [])
    (hfree : FreeOf w q) (hend : endsBlank q = false) (hsep : IsSeparator w sep)
    (hrest : startsBlank rest = false) :
    splitAtWord w (q ++ (sep ++ rest)) = q :: splitAtWord w rest := by
  have hsepBlank : startsBlank (sep ++ rest) = true := by
    obtain ⟨b, word, b', rfl, hb, hbnil, -⟩ := hsep.exists_parts
    obtain ⟨c, cs, rfl⟩ := List.exists_cons_of_ne_nil hbnil
    simpa [startsBlank] using hb c List.mem_cons_self
  induction q with
  | nil =>
    have hlength := separatorLength_of_isSeparator hw hnil hsep hrest
    obtain ⟨c, cs, rfl⟩ : ∃ c cs, sep = c :: cs := by
      obtain ⟨b, word, b', rfl, -, hbnil, -⟩ := hsep.exists_parts
      obtain ⟨c, cs, rfl⟩ := List.exists_cons_of_ne_nil hbnil
      exact ⟨c, _, rfl⟩
    rw [List.cons_append] at hlength
    rw [List.nil_append, splitAtWord, List.cons_append, splitFrom_cons_of_eq_succ hlength,
      splitFrom_eq_drop, List.drop_left, splitAtWord]
  | cons c q ih =>
    have hzero := separatorLength_append hw hfree (List.cons_ne_nil c q) hend (.inr hsepBlank)
    rw [List.cons_append] at hzero
    rw [splitAtWord, List.cons_append, splitFrom_cons_of_eq_zero hzero, ← splitAtWord,
      ih hfree.tail (endsBlank_tail hend)]
    rfl

end PyText

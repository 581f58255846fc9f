import AgentStudio.Conditions.Engine

/-!
# The words of an expression

`hasWord` is a search for a word at word boundaries. It finds a word exactly if this is one of the
maximal pieces of word characters in the text (`hasWord_iff`), so that what is put together around a
character that is none has the words of its parts (`has_append_cons`). A text without the word
cannot be cut at it (`freeOf_of_not_has`).
-/

namespace AgentStudio.Conditions

open PyText
open AgentStudio.Runtime (lowerAll isWord)

/-! ### Maximal pieces -/

variable {isAlnum : Char → Bool}

/-- The maximal pieces of word characters. -/
def runs (isAlnum : Char → Bool) (s : Str) : List Str := s.splitOnP fun c => !isWord isAlnum c

variable {s : Str} {c : Char}

theorem runs_cons_of_isWord (hc : isWord isAlnum c = true) :
    runs isAlnum (c :: s) = (runs isAlnum s).modifyHead (c :: ·) := by
  rw [runs, List.splitOnP_cons_eq_if_modifyHead, if_neg (by simp [hc]), runs]

theorem runs_cons_of_not_isWord (hc : isWord isAlnum c = false) :
    runs isAlnum (c :: s) = [] :: runs isAlnum s := by
  rw [runs, List.splitOnP_cons_eq_if_modifyHead, if_pos (by simp [hc]), runs]

theorem runs_append_cons {t : Str} (hc : isWord isAlnum c = false) :
    runs isAlnum (s ++ c :: t) = runs isAlnum s ++ runs isAlnum t :=
  List.splitOnP_append_cons s t (by simp [hc])

theorem head_runs (s : Str) : (runs isAlnum s).head? = some (s.takeWhile (isWord isAlnum)) := by
  induction s with
  | nil => rfl
  | cons c s ih =>
    cases hc : isWord isAlnum c with
    | true =>
      rw [runs_cons_of_isWord hc, List.takeWhile_cons_of_pos hc, List.head?_modifyHead, ih]
      rfl
    | false => rw [runs_cons_of_not_isWord hc, List.takeWhile_cons_of_neg (by simp [hc])]; rfl

/-- A text of word characters is the word at the start of another one if this goes on with another
character. -/
theorem eq_takeWhile_iff {p : Char → Bool} {w : Str} (hw : ∀ c ∈ w, p c = true) :
    w = s.takeWhile p ↔ w <+: s ∧ (s.drop w.length).head?.any p = false := by
  constructor
  · rintro rfl
    refine ⟨List.takeWhile_prefix p, ?_⟩
    have hdrop : s.drop (s.takeWhile p).length = s.dropWhile p := by
      conv_lhs => rw [← List.takeWhile_append_dropWhile (p := p) (l := s)]
      exact List.drop_left' (by rw [List.takeWhile_append_dropWhile])
    rw [hdrop]
    cases hrest : s.dropWhile p with
    | nil => rfl
    | cons c cs =>
      have hc := List.head_dropWhile_not p (by rw [hrest]; exact List.cons_ne_nil c cs)
      simpa [hrest] using hc
  · rintro ⟨⟨t, rfl⟩, hnext⟩
    rw [List.drop_left] at hnext
    rw [List.takeWhile_append_of_pos hw]
    cases t with
    | nil => simp
    | cons c t => rw [List.takeWhile_cons_of_neg (by simpa using hnext), List.append_nil]

theorem matchAt_word {w : Str} (hw : ∀ c ∈ w, isWord isAlnum c = true) (hnil : w ≠ [])
    {prev : Option Char} (hprev : prev.any (isWord isAlnum) = false) :
    Runtime.matchAt isAlnum prev [.boundary, .text [w], .boundary] s = true ↔
      w = s.takeWhile (isWord isAlnum) := by
  rw [eq_takeWhile_iff hw]
  obtain ⟨c, cs, rfl⟩ := List.exists_cons_of_ne_nil hnil
  have hlast : ((c :: cs).getLast?.or prev).any (isWord isAlnum) = true := by
    rw [List.getLast?_eq_some_getLast hnil, Option.some_or, Option.any_some]
    exact hw _ (List.getLast_mem hnil)
  simp only [Runtime.matchAt, List.any_cons, List.any_nil, Bool.or_false, Bool.and_true, hprev,
    hlast, Bool.true_bne, Bool.false_bne, Bool.and_eq_true, Bool.not_eq_true',
    List.isPrefixOf_iff_prefix]
  constructor
  · exact fun h => h.2
  · rintro ⟨⟨t, rfl⟩, hnext⟩
    refine ⟨?_, ⟨t, rfl⟩, hnext⟩
    exact hw c List.mem_cons_self

/-- **Words.** A search from some character on finds a word if it is a maximal piece, and does not
belong to the characters before. -/
theorem search_iff {w : Str} (hw : ∀ c ∈ w, isWord isAlnum c = true) (hnil : w ≠ [])
    (prev : Option Char) (s : Str) :
    Runtime.search isAlnum [.boundary, .text [w], .boundary] prev s = true ↔
      w ∈ if prev.any (isWord isAlnum) then (runs isAlnum s).tail else runs isAlnum s := by
  induction s generalizing prev with
  | nil =>
    have hne : ¬ w = ([] : Str).takeWhile (isWord isAlnum) := hnil
    cases hprev : prev.any (isWord isAlnum) with
    | true =>
      obtain ⟨c, cs, rfl⟩ := List.exists_cons_of_ne_nil hnil
      simp [Runtime.search, Runtime.matchAt, runs]
    | false =>
      rw [Runtime.search, matchAt_word hw hnil hprev]
      exact iff_of_false hne (by simp [runs, hnil])
  | cons c s ih =>
    have hhead : (runs isAlnum s).head? = some (s.takeWhile (isWord isAlnum)) := head_runs s
    obtain ⟨f, fs, hf⟩ : ∃ f fs, runs isAlnum s = f :: fs :=
      List.exists_cons_of_ne_nil (List.splitOnP_ne_nil _ s)
    rw [Runtime.search, Bool.or_eq_true, ih]
    cases hc : isWord isAlnum c with
    | true =>
      rw [runs_cons_of_isWord hc, hf]
      have hfirst : (c :: s).takeWhile (isWord isAlnum) = c :: f := by
        rw [hf, List.head?_cons] at hhead
        rw [List.takeWhile_cons_of_pos hc, ← Option.some.inj hhead]
      cases hprev : prev.any (isWord isAlnum) with
      | true =>
        have hno :
            Runtime.matchAt isAlnum prev [.boundary, .text [w], .boundary] (c :: s) = false := by
          simp [Runtime.matchAt, hprev, hc]
        simp [hno, hc]
      | false =>
        rw [matchAt_word hw hnil hprev, hfirst]
        simp [hc]
    | false =>
      rw [runs_cons_of_not_isWord hc]
      have hno :
          Runtime.matchAt isAlnum prev [.boundary, .text [w], .boundary] (c :: s) = false := by
        cases hprev : prev.any (isWord isAlnum) with
        | false =>
          refine eq_false_of_ne_true fun h => hnil ?_
          rw [matchAt_word hw hnil hprev, List.takeWhile_cons_of_neg (by simp [hc])] at h
          exact h
        | true =>
          obtain ⟨d, ds, rfl⟩ := List.exists_cons_of_ne_nil hnil
          have hd : d ≠ c := by
            rintro rfl
            exact absurd (hc.symm.trans (hw d List.mem_cons_self)) Bool.false_ne_true
          simp [Runtime.matchAt, hd]
      cases hprev : prev.any (isWord isAlnum) with
      | true => simp [hno, hc]
      | false => simp [hno, hc, hnil]

theorem hasWord_iff {w : Str} (hw : ∀ c ∈ w, isWord isAlnum c = true) (hnil : w ≠ []) :
    hasWord isAlnum w s = true ↔ w ∈ runs isAlnum s :=
  search_iff hw hnil none s

/-! ### Lower case -/

@[simp] theorem lowerAll_append (s t : Str) : lowerAll (s ++ t) = lowerAll s ++ lowerAll t :=
  List.flatMap_append

theorem lowerAll_cons (c : Char) (s : Str) : lowerAll (c :: s) = lowerAll [c] ++ lowerAll s :=
  lowerAll_append [c] s

theorem lowerAll_singleton (h : c.toNat ≠ 0x130) (h' : c.toNat ≠ 0x212A) :
    lowerAll [c] = [c.toLower] := by
  simp [lowerAll, h, h']

theorem lowerAll_of_isSpace (h : isSpace c = true) : lowerAll [c] = [c] := by
  have hlower := toLower_of_isSpace h
  simp only [isSpace, Bool.or_eq_true, Bool.and_eq_true, decide_eq_true_eq, beq_iff_eq] at h
  rw [lowerAll_singleton (by omega) (by omega), hlower]

theorem lowerAll_eq {word w : Str} (hw : ∀ c ∈ w, c.toNat < 128)
    (h : word.map Char.toLower = w) : lowerAll word = w := by
  induction word generalizing w with
  | nil => exact h
  | cons c word ih =>
    subst h
    have hc : c.toLower.toNat < 128 := hw _ List.mem_cons_self
    have hsmall : c.toNat < 128 := by
      by_contra hge
      have hupper : ¬ (c.val ≥ 'A'.val ∧ c.val ≤ 'Z'.val) := by
        simp only [ge_iff_le, UInt32.le_iff_toNat_le, Char.toNat_val, Char.reduceVal,
          UInt32.reduceToNat]
        omega
      rw [toLower_of_not_upper hupper] at hc
      exact hge hc
    rw [lowerAll_cons, lowerAll_singleton (by omega) (by omega),
      ih (fun d hd => hw d (List.mem_cons_of_mem _ hd)) rfl]
    rfl

theorem exists_of_lowerAll {p : Str} (hi : c ≠ 'i') (hk : c ≠ 'k') (h : c :: p <+: lowerAll s) :
    ∃ d t, s = d :: t ∧ d.toLower = c ∧ p <+: lowerAll t := by
  cases s with
  | nil => exact absurd (List.prefix_nil.mp h) (List.cons_ne_nil c p)
  | cons d t =>
    refine ⟨d, t, rfl, ?_⟩
    rw [lowerAll_cons] at h
    by_cases hdot : d.toNat = 0x130
    · simp only [lowerAll, List.flatMap_singleton, hdot, if_true] at h
      exact absurd (List.cons_prefix_cons.mp h).1 hi
    by_cases hkelvin : d.toNat = 0x212A
    · simp only [lowerAll, List.flatMap_singleton, hkelvin, if_true] at h
      exact absurd (List.cons_prefix_cons.mp h).1 hk
    rw [lowerAll_singleton hdot hkelvin, List.singleton_append, List.cons_prefix_cons] at h
    exact ⟨h.1.symm, h.2⟩

theorem map_toLower_take {p : Str} (hp : ∀ c ∈ p, c ≠ 'i' ∧ c ≠ 'k') (h : p <+: lowerAll s) :
    (s.take p.length).map Char.toLower = p := by
  induction p generalizing s with
  | nil => simp
  | cons c p ih =>
    obtain ⟨d, t, rfl, hd, ht⟩ :=
      exists_of_lowerAll (hp c List.mem_cons_self).1 (hp c List.mem_cons_self).2 h
    rw [List.length_cons, List.take_succ_cons, List.map_cons, hd,
      ih (fun x hx => hp x (List.mem_cons_of_mem c hx)) ht]

/-! ### Keywords -/

variable {N : Type} (b : Builtins N)

def Has (w expr : Str) : Prop := hasWord b.isAlnum w (lowerAll expr) = true

instance (w expr : Str) : Decidable (Has b w expr) := inferInstanceAs (Decidable (_ = true))

/-- A word that `evaluate` looks for. -/
structure IsKeyword (w : Str) : Prop where
  ne_nil : w ≠ []
  ascii : ∀ c ∈ w, c.toNat < 128
  letter : ∀ c ∈ w, c.isAlphanum = true
  lower : w.map Char.toLower = w

theorem isKeyword_or : IsKeyword "or" :=
  ⟨by decide, forall_mem_of_all (by decide), forall_mem_of_all (by decide), by decide⟩

theorem isKeyword_and : IsKeyword "and" :=
  ⟨by decide, forall_mem_of_all (by decide), forall_mem_of_all (by decide), by decide⟩

variable {b} {w : Str}

theorem IsKeyword.isWord (hw : IsKeyword w) : ∀ c ∈ w, isWord b.isAlnum c = true :=
  fun c hc => by simp [Runtime.isWord, hw.letter c hc]

theorem isWord_of_isSpace (h : isSpace c = true) : isWord b.isAlnum c = false := by
  have hne : c ≠ '_' := by
    rintro rfl
    exact absurd h (by decide)
  simp [Runtime.isWord, isAlphanum_of_isSpace c h, b.isAlnum_of_isSpace c h, hne]

theorem IsKeyword.not_isSpace (hw : IsKeyword w) : ∀ c ∈ w, isSpace c = false := by
  intro c hc
  cases hspace : isSpace c with
  | false => rfl
  | true =>
    exact absurd ((isAlphanum_of_isSpace c hspace).symm.trans (hw.letter c hc))
      Bool.false_ne_true

theorem has_iff (hw : IsKeyword w) {expr : Str} :
    Has b w expr ↔ w ∈ runs b.isAlnum (lowerAll expr) :=
  hasWord_iff hw.isWord hw.ne_nil

theorem has_append_cons (hw : IsKeyword w) {t : Str} (hc : isWord b.isAlnum c = false)
    (hlower : lowerAll [c] = [c]) : Has b w (s ++ c :: t) ↔ Has b w s ∨ Has b w t := by
  rw [has_iff hw, has_iff hw, has_iff hw, lowerAll_append, lowerAll_cons, hlower,
    List.singleton_append, runs_append_cons hc, List.mem_append]

theorem has_append_blank (hw : IsKeyword w) {t : Str} (hc : isSpace c = true) :
    Has b w (s ++ c :: t) ↔ Has b w s ∨ Has b w t :=
  has_append_cons hw (isWord_of_isSpace hc) (lowerAll_of_isSpace hc)

theorem not_has_nil (hw : IsKeyword w) : ¬ Has b w [] := by
  rw [has_iff hw]
  simpa [lowerAll, runs] using hw.ne_nil

theorem not_has_of_isBlank (hw : IsKeyword w) (h : IsBlank s) : ¬ Has b w s := by
  induction s with
  | nil => exact not_has_nil hw
  | cons c s ih =>
    have hsplit := has_append_blank (b := b) (s := []) (t := s) hw (h c List.mem_cons_self)
    rw [List.nil_append] at hsplit
    rw [hsplit, not_or]
    exact ⟨not_has_nil hw, ih fun d hd => h d (List.mem_cons_of_mem c hd)⟩

theorem has_append_isBlank (hw : IsKeyword w) {blanks : Str} (h : IsBlank blanks) :
    Has b w (s ++ blanks) ↔ Has b w s := by
  cases blanks with
  | nil => rw [List.append_nil]
  | cons c cs =>
    rw [has_append_blank hw (h c List.mem_cons_self)]
    exact or_iff_left (not_has_of_isBlank hw fun d hd => h d (List.mem_cons_of_mem c hd))

theorem has_isBlank_append (hw : IsKeyword w) {blanks : Str} (h : IsBlank blanks) :
    Has b w (blanks ++ s) ↔ Has b w s := by
  induction blanks with
  | nil => rfl
  | cons c cs ih =>
    have hsplit := has_append_blank (b := b) (s := []) (t := cs ++ s) hw (h c List.mem_cons_self)
    rw [List.nil_append] at hsplit
    rw [List.cons_append, hsplit, ih fun d hd => h d (List.mem_cons_of_mem c hd)]
    exact or_iff_right (not_has_nil hw)

theorem has_append_isSeparator (hw : IsKeyword w) {w' sep t : Str} (hw' : IsKeyword w')
    (hsep : IsSeparator w' sep) : Has b w (s ++ (sep ++ t)) ↔ Has b w s ∨ w = w' ∨ Has b w t := by
  obtain ⟨blanks, word, blanks', rfl, hb, hbnil, hword, hb', hbnil'⟩ := hsep.exists_parts
  obtain ⟨c, cs, rfl⟩ := List.exists_cons_of_ne_nil hbnil
  obtain ⟨d, ds, rfl⟩ := List.exists_cons_of_ne_nil hbnil'
  have hcs : IsBlank cs := fun x hx => hb x (List.mem_cons_of_mem c hx)
  have hds : IsBlank ds := fun x hx => hb' x (List.mem_cons_of_mem d hx)
  have hhasWord : Has b w word ↔ w = w' := by
    have hruns : runs b.isAlnum (lowerAll word) = [w'] := by
      rw [lowerAll_eq hw'.ascii hword]
      exact List.splitOnP_eq_singleton fun x hx => by simp [hw'.isWord (b := b) x hx]
    rw [has_iff hw, hruns, List.mem_singleton]
  calc Has b w (s ++ (c :: cs ++ word ++ d :: ds ++ t))
      ↔ Has b w (s ++ c :: (cs ++ (word ++ d :: (ds ++ t)))) := by simp
    _ ↔ Has b w s ∨ Has b w (cs ++ (word ++ d :: (ds ++ t))) :=
        has_append_blank hw (hb c List.mem_cons_self)
    _ ↔ Has b w s ∨ Has b w word ∨ Has b w (ds ++ t) := by
        rw [has_isBlank_append hw hcs, has_append_blank hw (hb' d List.mem_cons_self)]
    _ ↔ Has b w s ∨ w = w' ∨ Has b w t := by rw [hhasWord, has_isBlank_append hw hds]

/-- **Cutting.** An expression without the word is not cut at it. -/
theorem freeOf_of_not_has (hw : IsKeyword w) {expr : Str} (h : ¬ Has b w expr) :
    FreeOf w expr := by
  rintro a c word rest rfl hc hword
  have hin : Has b w word := by
    rw [has_iff hw, lowerAll_eq hw.ascii hword, runs,
      List.splitOnP_eq_singleton fun x hx => by simp [hw.isWord (b := b) x hx]]
    exact List.mem_singleton_self w
  rw [has_append_blank hw hc, not_or] at h
  cases rest with
  | nil =>
    rw [List.append_nil] at h
    exact absurd hin h.2
  | cons d ds =>
    refine ⟨List.cons_ne_nil d ds, eq_false_of_ne_true fun hd => h.2 ?_⟩
    exact (has_append_blank hw (by simpa [startsBlank] using hd)).mpr (.inl hin)

end AgentStudio.Conditions

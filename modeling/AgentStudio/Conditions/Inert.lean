import AgentStudio.Conditions.Interpolation

/-!
# Inert values

The engine reads a condition only after the values of its variables have been put into it. It reads
what is written, with the values as texts, if and only if every value is `Inert`, a bare phrase in
one line that is no keyword, number, truth value, quotation or variable, and does not go on with an
operator (`asWritten_iff`).

The direct direction follows from `parse_text`. For the other one, the engine loses no character
that is not blank (`size_parseAt`), and takes at least what it reads a text from; so that if it
reads the text of every value, it has nothing left to read anything else from (`size_le_of_map_eq`,
`inert_of_readComparison`).
-/

namespace AgentStudio.Conditions

open PyText PyJson AgentStudio.Execution
open AgentStudio.Runtime (lowerAll isWord)

variable {N : Type} {b : Builtins N} {vars : Vars}

/-! ### Inert texts -/

/-- A text that is not read as anything else: a phrase without a keyword, in one line, that is no
variable, no quotation, no truth value and no number. -/
structure Inert (b : Builtins N) (s : Str) : Prop extends IsPhrase b s where
  one_line : '\n' ∉ s
  not_inBraces : inBraces s = false
  not_quoted : startsQuoted s = false
  ne_true : lowerAll s ≠ boolText true
  ne_false : lowerAll s ≠ boolText false
  not_int : b.int s = none
  not_float : b.float s = none

def readComparison (b : Builtins N) (s : Str) : Option (Str × Comparator × Literal N) :=
  (comparison b.isAlnum s).map fun m => (m.1, m.2.1, literal b (strip m.2.2))

variable {s : Str} {op : Comparator}

theorem Inert.takeWhile_line (h : Inert b s) : s.takeWhile (· ≠ '\n') = s := by
  refine List.takeWhile_eq_self_iff.mpr fun c hc => ?_
  have hne : c ≠ '\n' := by
    rintro rfl
    exact h.one_line hc
  simpa using hne

theorem literal_of_inert (h : Inert b s) : literal b s = .const (.str s) := by
  have htrue : ¬ lowerAll s = "true" := h.ne_true
  have hfalse : ¬ lowerAll s = "false" := h.ne_false
  rw [literal, h.strip_eq]
  simp only [h.not_inBraces, h.not_quoted, if_neg htrue, if_neg hfalse, h.not_int, h.not_float,
    Bool.false_eq_true, if_false]

theorem of_literal_eq {v : Str} (h : literal b s = .const (.str v)) :
    (startsQuoted (strip s) = true ∧ v = (strip s).tail.dropLast) ∨
      (v = strip s ∧ inBraces (strip s) = false ∧ startsQuoted (strip s) = false ∧
        lowerAll (strip s) ≠ boolText true ∧ lowerAll (strip s) ≠ boolText false ∧
          b.int (strip s) = none ∧ b.float (strip s) = none) := by
  rw [literal] at h
  by_cases hbraces : inBraces (strip s) = true
  · simp [hbraces] at h
  by_cases hquoted : startsQuoted (strip s) = true
  · simp only [hbraces, hquoted, if_true] at h
    exact .inl ⟨hquoted, (Value.str.inj (Literal.const.inj h)).symm⟩
  by_cases htrue : lowerAll (strip s) = "true"
  · simp [hbraces, hquoted, htrue] at h
  by_cases hfalse : lowerAll (strip s) = "false"
  · simp only [hbraces, hquoted, if_neg htrue, if_pos hfalse] at h
    exact absurd (Literal.const.inj h) (by simp)
  simp only [hbraces, hquoted, if_neg htrue, if_neg hfalse] at h
  cases hint : b.int (strip s) with
  | some i =>
    rw [hint] at h
    exact absurd (Literal.const.inj h) (by simp)
  | none =>
    rw [hint] at h
    cases hfloat : b.float (strip s) with
    | some x =>
      rw [hfloat] at h
      exact absurd (Literal.const.inj h) (by simp)
    | none =>
      rw [hfloat] at h
      refine .inr ⟨(Value.str.inj (Literal.const.inj h)).symm, ?_, ?_, htrue, hfalse, rfl, rfl⟩
      · exact eq_false_of_ne_true hbraces
      · exact eq_false_of_ne_true hquoted

/-! ### Reading a comparison -/

theorem findSome_all {β : Type} {f : Comparator → Option β} {x : β} (hown : f op = some x)
    (hother : ∀ op', op' ≠ op → op.text.length ≤ op'.text.length → f op' = none) :
    Comparator.all.findSome? f = some x := by
  cases op <;>
    simp [Comparator.all, hown, hother .ge, hother .le, hother .ne, hother .eq,
      hother .gt, Comparator.text]

theorem operatorLine_eq_none {op' : Comparator}
    (hs : op = .gt ∨ op = .lt → ∀ t, s = '=' :: t → t = []) (hne : op' ≠ op)
    (hlength : op.text.length ≤ op'.text.length) : operatorLine (op.text ++ s) op' = none := by
  cases s with
  | nil => cases op <;> cases op' <;> simp [operatorLine, Comparator.text] at hne hlength ⊢
  | cons c s =>
    by_cases hc : '=' = c
    · subst hc
      cases op <;> cases op' <;>
        simp_all [operatorLine, Comparator.text]
    · cases op <;> cases op' <;> simp [operatorLine, Comparator.text, hc] at hne hlength ⊢

theorem findSome_operatorLine (hs : op = .gt ∨ op = .lt → ∀ t, s = '=' :: t → t = [])
    (hline : (s.dropWhile isSpace).takeWhile (· ≠ '\n') ≠ []) :
    Comparator.all.findSome? (operatorLine (op.text ++ s)) =
      some (op, (s.dropWhile isSpace).takeWhile (· ≠ '\n')) := by
  have hown : operatorLine (op.text ++ s) op =
      some (op, (s.dropWhile isSpace).takeWhile (· ≠ '\n')) := by
    rw [operatorLine, if_pos (List.isPrefixOf_iff_prefix.mpr (List.prefix_append _ _)),
      List.drop_left]
    exact if_neg hline
  exact findSome_all hown fun op' hne hlength => operatorLine_eq_none hs hne hlength

/-- A text on the right of a comparison does not go on with the operator. -/
def Comparison.KeepsOp (q : Comparison b) (rhs : Str) : Prop :=
  q.gap = [] → q.op = .gt ∨ q.op = .lt → ∀ t, rhs = '=' :: t → t = []

theorem takeWhile_text (q : Comparison b) (rhs : Str) :
    (q.text rhs).takeWhile (isWord b.isAlnum) = q.name := by
  have hafter : (q.blanks ++ (q.op.text ++ (q.gap ++ rhs))).head?.any (isWord b.isAlnum) =
      false := by
    obtain ⟨rest, hop, -⟩ := q.op.exists_text
    rw [hop]
    cases hblanks : q.blanks with
    | nil => simp [q.op.isWord_head]
    | cons c cs =>
      have hc := isWord_of_isSpace (b := b) (q.isBlank_blanks c (hblanks ▸ List.mem_cons_self))
      simp [hc]
  exact ((eq_takeWhile_iff q.isWord_name).mpr ⟨⟨_, rfl⟩, by
    simpa [Comparison.text] using hafter⟩).symm

theorem dropWhile_text (q : Comparison b) (rhs : Str) :
    ((q.text rhs).dropWhile (isWord b.isAlnum)).dropWhile isSpace =
      q.op.text ++ (q.gap ++ rhs) := by
  have hdrop : (q.text rhs).dropWhile (isWord b.isAlnum) =
      q.blanks ++ (q.op.text ++ (q.gap ++ rhs)) := by
    have hsplit := List.takeWhile_append_dropWhile (p := isWord b.isAlnum) (l := q.text rhs)
    rw [takeWhile_text] at hsplit
    exact List.append_cancel_left hsplit
  obtain ⟨rest, hop, -⟩ := q.op.exists_text
  rw [hdrop, dropWhile_isSpace_append q.isBlank_blanks]
  simp [hop, startsBlank, q.op.isSpace_head]

theorem takeWhile_line_ne_nil (hnil : s ≠ []) (hstart : startsBlank s = false) :
    s.takeWhile (· ≠ '\n') ≠ [] := by
  obtain ⟨c, cs, rfl⟩ := List.exists_cons_of_ne_nil hnil
  have hc : c ≠ '\n' := by
    rintro rfl
    exact Bool.false_ne_true hstart.symm
  rw [List.takeWhile_cons_of_pos (by simpa using hc)]
  exact List.cons_ne_nil _ _

theorem comparison_text (q : Comparison b) {rhs : Str} (hnil : rhs ≠ [])
    (hstart : startsBlank rhs = false) (hkeeps : q.KeepsOp rhs) :
    comparison b.isAlnum (q.text rhs) = some (q.name, q.op, rhs.takeWhile (· ≠ '\n')) := by
  have hraw : (q.gap ++ rhs).dropWhile isSpace = rhs :=
    dropWhile_isSpace_append q.isBlank_gap hstart
  have hline := takeWhile_line_ne_nil hnil hstart
  have hgap : q.op = .gt ∨ q.op = .lt → ∀ t, q.gap ++ rhs = '=' :: t → t = [] := by
    intro hop t ht
    cases hq : q.gap with
    | nil => exact hkeeps hq hop t (by simpa [hq] using ht)
    | cons g gs =>
      rw [hq] at ht
      have hg := q.isBlank_gap g (hq ▸ List.mem_cons_self)
      rw [(List.cons.inj ht).1] at hg
      exact absurd hg (by decide)
  have hfind := findSome_operatorLine hgap (by rwa [hraw])
  rw [hraw] at hfind
  rw [comparison, takeWhile_text, dropWhile_text, hfind]
  exact if_neg q.name_ne_nil

theorem keepsOp_of_comparison (q : Comparison b) {rhs name raw : Str}
    (hend : endsBlank rhs = false)
    (h : comparison b.isAlnum (q.text rhs) = some (name, q.op, raw)) : q.KeepsOp rhs := by
  rintro hgap hop t rfl
  by_contra hnil
  rw [comparison, takeWhile_text, dropWhile_text, if_neg q.name_ne_nil, hgap, List.nil_append] at h
  have hline : (t.dropWhile isSpace).takeWhile (· ≠ '\n') ≠ [] := by
    refine takeWhile_line_ne_nil (fun hdrop => hnil ?_) (startsBlank_dropWhile t)
    exact eq_nil_of_isBlank (s := ['=']) (by simpa [IsBlank] using hdrop) hend
  -- the text is that of `>=` or `<=`
  obtain ⟨longer, hlonger, htext⟩ : ∃ longer : Comparator, (longer = .ge ∨ longer = .le) ∧
      q.op.text ++ '=' :: t = longer.text ++ t := by
    rcases hop with hop | hop
    · exact ⟨.ge, .inl rfl, by rw [hop]; rfl⟩
    · exact ⟨.le, .inr rfl, by rw [hop]; rfl⟩
  have hother : ¬ (longer = .gt ∨ longer = .lt) := by
    rcases hlonger with rfl | rfl <;> decide
  rw [htext, findSome_operatorLine (fun h => absurd h hother) hline, Option.map_some,
    Option.some_inj, Prod.mk.injEq, Prod.mk.injEq] at h
  exact hother (h.2.1 ▸ hop)

theorem of_comparison_eq {name raw : Str} (h : comparison b.isAlnum s = some (name, op, raw)) :
    ∃ blanks gap rest, s = (name ++ blanks) ++ (op.text ++ (gap ++ (raw ++ rest))) ∧
      IsBlank blanks ∧ IsBlank gap ∧ raw ≠ [] ∧ '\n' ∉ raw := by
  rw [comparison] at h
  split_ifs at h
  obtain ⟨⟨op', raw'⟩, hfind, heq⟩ := Option.map_eq_some_iff.mp h
  obtain ⟨rfl, rfl, rfl⟩ : s.takeWhile (isWord b.isAlnum) = name ∧ op' = op ∧ raw' = raw := by
    simpa using heq
  obtain ⟨op, -, hline⟩ := List.exists_of_findSome?_eq_some hfind
  rw [operatorLine] at hline
  split_ifs at hline with hop
  obtain ⟨rest, hrest⟩ := List.isPrefixOf_iff_prefix.mp hop
  rw [← hrest, List.drop_left] at hline
  dsimp only at hline
  split_ifs at hline with hraw
  obtain ⟨rfl, rfl⟩ : op = op' ∧ (rest.dropWhile isSpace).takeWhile (· ≠ '\n') = raw' := by
    simpa using hline
  obtain ⟨blanks, hblanks, hsplit⟩ :=
    exists_blank_append (s.dropWhile (isWord b.isAlnum))
  obtain ⟨gap, hgap, hgapSplit⟩ := exists_blank_append rest
  refine ⟨blanks, gap, (rest.dropWhile isSpace).dropWhile (· ≠ '\n'), ?_, hblanks, hgap, hraw, ?_⟩
  · rw [List.takeWhile_append_dropWhile, ← hgapSplit, hrest, List.append_assoc, ← hsplit,
      List.takeWhile_append_dropWhile]
  · intro hmem
    have hne := List.mem_takeWhile_imp hmem
    simp at hne

theorem readComparison_text (q : Comparison b) {rhs : Str} (h : Inert b rhs)
    (hkeeps : q.KeepsOp rhs) :
    readComparison b (q.text rhs) = some (q.name, q.op, .const (.str rhs)) := by
  have hstart : startsBlank rhs = false := h.strip_eq ▸ startsBlank_strip rhs
  rw [readComparison, comparison_text q h.ne_nil hstart hkeeps, h.takeWhile_line, Option.map_some,
    h.strip_eq, literal_of_inert h]

theorem letters_text (q : Comparison b) (rhs : Str) :
    letters (q.text rhs) = letters q.name + letters q.op.text + letters rhs := by
  simp only [Comparison.text, letters_append, letters_eq_zero.mpr q.isBlank_blanks,
    letters_eq_zero.mpr q.isBlank_gap]
  omega

/-- **Inert texts.** A text that the engine keeps together, and reads as a comparison with a text
that is not shorter than what it has itself, has an inert text on its right. -/
theorem inert_of_readComparison {name v : Str} (hstrip : strip s = s) (hor : ¬ Has b "or" s)
    (hand : ¬ Has b "and" s) (h : readComparison b s = some (name, op, .const (.str v))) :
    letters name + letters op.text + letters v ≤ letters s ∧
      (letters s ≤ letters name + letters op.text + letters v → Inert b v) := by
  obtain ⟨⟨name', op', raw⟩, hcomparison, heq⟩ := Option.map_eq_some_iff.mp h
  obtain ⟨rfl, rfl, hliteral⟩ : name' = name ∧ op' = op ∧
      literal b (strip raw) = .const (.str v) := by
    simpa using heq
  obtain ⟨blanks, gap, rest, hs, hblanks, hgap, hraw, hline⟩ := of_comparison_eq hcomparison
  have hletters : letters s =
      letters name' + letters op'.text + letters raw + letters rest := by
    rw [hs]
    simp only [letters_append, letters_eq_zero.mpr hblanks, letters_eq_zero.mpr hgap]
    omega
  have hcases := of_literal_eq hliteral
  rw [strip_strip] at hcases
  rcases hcases with ⟨hquoted, rfl⟩ | ⟨rfl, hbraces, hquoted, htrue, hfalse, hint, hfloat⟩
  · -- the quotation marks would be too many
    have hlt : letters (strip raw).tail.dropLast < letters raw := by
      obtain ⟨c, t, ht⟩ : ∃ c t, strip raw = c :: t := by
        cases hstripRaw : strip raw with
        | nil =>
          rw [hstripRaw] at hquoted
          exact absurd hquoted (by decide)
        | cons c t => exact ⟨c, t, rfl⟩
      have hc : letters [c] = 1 := by
        rw [ht] at hquoted
        have hmark : c = '"' ∨ c = '\'' := by simpa [startsQuoted] using hquoted
        rcases hmark with rfl | rfl <;> decide
      have hle : letters t.dropLast ≤ letters t := (List.dropLast_sublist t).countP_le
      rw [← letters_strip raw, ht, letters_cons, hc, List.tail_cons]
      omega
    exact ⟨by omega, fun hle => absurd hlt (by omega)⟩
  · rw [letters_strip]
    refine ⟨by omega, fun hle => ?_⟩
    have hrest : IsBlank rest := letters_eq_zero.mp (by omega)
    have hend : endsBlank s = false := hstrip ▸ endsBlank_strip s
    have hrestNil : rest = [] := by
      refine eq_nil_of_isBlank (s := name' ++ blanks ++ (op'.text ++ (gap ++ raw))) hrest ?_
      rw [hs] at hend
      simpa using hend
    rw [hrestNil, List.append_nil] at hs
    have hhas {w : Str} (hw : IsKeyword w) (hnot : ¬ Has b w s) : ¬ Has b w (strip raw) := by
      obtain ⟨before, after, hbefore, hafter, hrawSplit⟩ := exists_strip raw
      intro hv
      refine hnot ?_
      rw [hs, op'.has_append hw hgap]
      right
      rw [hrawSplit, has_append_isBlank hw hafter, has_isBlank_append hw hbefore]
      exact hv
    have hne : strip raw ≠ [] := by
      intro hnil
      have hzero : letters raw = 0 := by rw [← letters_strip, hnil, letters_nil]
      have hblankRaw : IsBlank raw := letters_eq_zero.mp hzero
      refine hraw (eq_nil_of_isBlank (s := name' ++ blanks ++ (op'.text ++ gap)) hblankRaw ?_)
      rw [hs] at hend
      simpa using hend
    have hone : '\n' ∉ strip raw := by
      obtain ⟨before, after, -, -, hrawSplit⟩ := exists_strip raw
      intro hmem
      refine hline ?_
      rw [hrawSplit]
      simp [hmem]
    exact {
      ne_nil := hne
      strip_eq := strip_strip raw
      not_or := hhas isKeyword_or hor
      not_and := hhas isKeyword_and hand
      one_line := hone
      not_inBraces := hbraces
      not_quoted := hquoted
      ne_true := htrue
      ne_false := hfalse
      not_int := hint
      not_float := hfloat }

/-! ### What the engine reads -/

theorem leaves_combine {op : Condition Str → Condition Str → Condition Str}
    (hop : ∀ c d, (op c d).leaves = c.leaves ++ d.leaves) (expr : Str)
    (cs : List (Condition Str)) {leaf : Str} (h : leaf ∈ (Condition.combine op expr cs).leaves) :
    ∃ c ∈ cs, leaf ∈ c.leaves := by
  rcases cs with _ | ⟨c, _ | ⟨d, ds⟩⟩
  · exact absurd h List.not_mem_nil
  · exact absurd h List.not_mem_nil
  · rw [Condition.combine, Condition.leaves_join hop] at h
    exact List.mem_flatMap.mp h

theorem leaves_parseAt (depth : ℕ) (s : Str) {leaf : Str}
    (h : leaf ∈ (parseAt b.isAlnum depth s).leaves) :
    strip leaf = leaf ∧ ¬ Has b "or" leaf ∧ ¬ Has b "and" leaf := by
  induction depth generalizing s with
  | zero => exact absurd h List.not_mem_nil
  | succ depth ih =>
    rw [parseAt_congr (strip_strip s).symm, parseAt_succ (strip_strip s)] at h
    split_ifs at h with hplain hor hand hnot
    · rw [List.mem_singleton.mp h]
      exact ⟨strip_strip s, not_has_of_isPlain (.inl rfl) hplain,
        not_has_of_isPlain (.inr rfl) hplain⟩
    · obtain ⟨c, hc, hleaf⟩ := leaves_combine (fun _ _ => rfl) _ _ h
      obtain ⟨part, -, rfl⟩ := List.mem_map.mp hc
      exact ih part hleaf
    · obtain ⟨c, hc, hleaf⟩ := leaves_combine (fun _ _ => rfl) _ _ h
      obtain ⟨part, -, rfl⟩ := List.mem_map.mp hc
      exact ih part hleaf
    · exact ih _ h
    · rw [List.mem_singleton.mp h]
      exact ⟨strip_strip s, hor, hand⟩

theorem size_combine {w : Str} {op : Condition Str → Condition Str → Condition Str}
    (hop : ∀ c d, (op c d).size letters = c.size letters + d.size letters + letters w) (s : Str)
    {tree : Str → Condition Str} (h : ∀ p, (tree p).size letters = letters p) :
    (Condition.combine op s ((splitAtWord w s).map tree)).size letters = letters s := by
  have hletters := letters_splitAtWord (w := w) s
  rcases hparts : splitAtWord w s with _ | ⟨p, _ | ⟨p', ps⟩⟩
  · exact absurd hparts (splitFrom_ne_nil 0 s)
  · rfl
  · rw [hparts] at hletters
    rw [List.map_cons, List.map_cons, Condition.combine, Condition.size_join hop, hletters]
    simp only [List.map_cons, List.map_map, Function.comp_def, h, List.sum_cons, List.length_cons,
      List.length_map, Nat.add_sub_cancel]

/-- **Size.** The tree of an expression has all its characters that are not blank. -/
theorem size_parseAt (depth : ℕ) (s : Str) :
    (parseAt b.isAlnum depth s).size letters = letters s := by
  induction depth generalizing s with
  | zero => rfl
  | succ depth ih =>
    rw [parseAt_congr (strip_strip s).symm, parseAt_succ (strip_strip s), ← letters_strip s]
    split_ifs with hplain hor hand hnot
    · rfl
    · exact size_combine (fun _ _ => rfl) _ ih
    · exact size_combine (fun _ _ => rfl) _ ih
    · have hfour : letters ((strip s).take 4) = 3 := by
        have hlower := map_toLower_take (forall_mem_of_all (by decide))
          (List.isPrefixOf_iff_prefix.mp hnot)
        rw [← letters_map_toLower]
        exact congrArg letters hlower
      have hsplit := List.take_append_drop 4 (strip s)
      rw [Condition.size, ih]
      conv_rhs => rw [← hsplit, letters_append, hfour]
      omega
    · rfl

/-! ### What is written -/

section Written

variable {rhs : Comparison b → Str}

theorem letters_joinText {w first : Str} {rest : List (Str × Str)}
    (h : ∀ p ∈ rest, IsSeparator w p.1) :
    letters (joinText first rest) =
      letters first + (rest.map fun p => letters p.2).sum + letters w * rest.length := by
  induction rest generalizing first with
  | nil => simp [joinText]
  | cons p rest ih =>
    have hsep := (h p List.mem_cons_self).letters_eq
    rw [joinText, letters_append, letters_append, ih fun q hq => h q (List.mem_cons_of_mem p hq),
      hsep]
    simp only [List.map_cons, List.sum_cons, List.length_cons, Nat.mul_succ]
    omega

theorem Chain.letters_text {w : Str} {α : Type} {g : Comparison b → ℕ}
    {op : Condition (Comparison b) → Condition (Comparison b) → Condition (Comparison b)}
    (hop : ∀ c d, (op c d).size g = c.size g + d.size g + letters w) (c : Chain w α)
    {text : α → Str} {tree : α → Condition (Comparison b)}
    (h : ∀ a, letters (text a) = (tree a).size g) :
    letters (c.text text) = (c.tree op tree).size g := by
  have hsep : ∀ p ∈ c.rest.map fun p => (p.1.1, text p.2), IsSeparator w p.1 := by
    intro p hp
    obtain ⟨q, -, rfl⟩ := List.mem_map.mp hp
    exact q.1.2
  rw [Chain.text, letters_joinText hsep, Chain.tree, Condition.size_join hop]
  simp [Function.comp_def, h]

theorem Operand.letters_text (o : Operand b) :
    letters (o.text rhs) = o.tree.size fun q => letters (leafText rhs q) := by
  rw [Operand.text, Operand.tree]
  induction o.negations with
  | nil => rfl
  | cons n ns ih =>
    have hword : letters n.word = 3 := by
      rw [← letters_map_toLower, n.lower]
      rfl
    have hblanks : letters (' ' :: n.blanks) = 0 :=
      letters_eq_zero.mpr (List.forall_mem_cons.mpr ⟨by decide, n.isBlank_blanks⟩)
    rw [List.foldr_cons, List.foldr_cons, Condition.size, letters_append, ih, Negation.text,
      letters_append, hword, hblanks]
    omega

theorem Written.letters_text (e : Written b) :
    letters (e.text rhs) = e.tree.size fun q => letters (leafText rhs q) := by
  rw [Written.text, letters_append, letters_append, letters_eq_zero.mpr e.isBlank_before,
    letters_eq_zero.mpr e.isBlank_after, Written.tree, Nat.zero_add, Nat.add_zero]
  exact e.chain.letters_text (fun _ _ => rfl) fun c =>
    c.letters_text (fun _ _ => rfl) Operand.letters_text

theorem Chain.leaves_tree {w : Str} {α β : Type}
    {op : Condition β → Condition β → Condition β}
    (hop : ∀ c d, (op c d).leaves = c.leaves ++ d.leaves) (c : Chain w α)
    (tree : α → Condition β) :
    (c.tree op tree).leaves = c.members.flatMap fun a => (tree a).leaves := by
  rw [Chain.tree, Condition.leaves_join hop]
  simp [Chain.members, List.flatMap_map]

theorem Operand.leaves_tree (o : Operand b) : o.tree.leaves = [o.comparison] := by
  rw [Operand.tree]
  induction o.negations with
  | nil => rfl
  | cons n ns ih => exact ih

theorem Written.leaves_tree (e : Written b) : e.tree.leaves = e.comparisons := by
  rw [Written.tree, Chain.leaves_tree fun _ _ => rfl, Written.comparisons]
  congr 1
  funext c
  rw [Chain.leaves_tree fun _ _ => rfl, List.map_eq_flatMap]
  congr 1
  funext o
  exact o.leaves_tree

theorem Chain.evaluable_tree {w : Str} {α β : Type} {leafTrue : β → Bool}
    {op : Condition β → Condition β → Condition β}
    (hop : ∀ c d, c.Evaluable leafTrue → d.Evaluable leafTrue → (op c d).Evaluable leafTrue)
    (c : Chain w α) {tree : α → Condition β} (h : ∀ a, (tree a).Evaluable leafTrue) :
    (c.tree op tree).Evaluable leafTrue := by
  refine Condition.evaluable_join hop (h _) fun d hd => ?_
  obtain ⟨p, -, rfl⟩ := List.mem_map.mp hd
  exact h p.2

theorem Operand.evaluable_tree {leafTrue : Comparison b → Bool} (o : Operand b) :
    o.tree.Evaluable leafTrue := by
  rw [Operand.tree]
  induction o.negations with
  | nil => trivial
  | cons n ns ih => exact ih

theorem Written.evaluable_tree {leafTrue : Comparison b → Bool} (e : Written b) :
    e.tree.Evaluable leafTrue := by
  rw [Written.tree]
  refine Chain.evaluable_tree ?_ _ fun c => Chain.evaluable_tree ?_ _ Operand.evaluable_tree
  · exact fun c d hc hd => ⟨hc, fun _ => hd⟩
  · exact fun c d hc hd => ⟨hc, fun _ => hd⟩

end Written

/-! ### Conditions on values -/

/-- What a comparison says of the values of its two variables. -/
def Comparison.isTrue (ctx : AgentContext) (vars : Vars) (q : Comparison b) : Bool :=
  compare b q.op (resolveValue b ctx vars q.name) ((Literal.var q.variable).value b vars)

def HoldsTexts (vars : Vars) (e : Written b) : Prop :=
  ∀ q ∈ e.comparisons, ∃ v, vars.get q.variable = some (.str v)

/-- What is executed is what is written: the values of the variables are read as texts and nothing
else, and the result is that of the comparisons of the values. -/
structure AsWritten (ctx : AgentContext) (vars : Vars) (e : Written b) : Prop where
  parsed : (parse b.isAlnum (interpolate b vars e.template)).map (readComparison b) =
    e.tree.map fun q => some (q.name, q.op, .const (.str (q.filled vars)))
  result : executeConditionNode b ctx vars e.template =
    boolText (e.tree.isTrue (Comparison.isTrue ctx vars))

/-- A value that is inert, and does not go on with the operator before it. -/
structure Comparison.Admits (q : Comparison b) (v : Str) : Prop extends Inert b v where
  keepsOp : q.KeepsOp v

theorem holds_text (q : Comparison b) {v : Str} (h : q.Admits v) (ctx : AgentContext) :
    holds b ctx vars (q.text v) = compare b q.op (resolveValue b ctx vars q.name) (.str v) := by
  obtain ⟨hnil, htrue, hfalse⟩ : q.text v ≠ [] ∧ lowerAll (q.text v) ≠ boolText true ∧
      lowerAll (q.text v) ≠ boolText false := by
    simpa [IsPlain, not_or] using q.not_isPlain_text v
  have hline : v.takeWhile (· ≠ '\n') = v := h.toInert.takeWhile_line
  have hstart : startsBlank v = false := h.strip_eq ▸ startsBlank_strip v
  have hcomparison := comparison_text q h.ne_nil hstart h.keepsOp
  rw [hline] at hcomparison
  rw [holds, if_neg hnil, if_neg htrue, if_neg hfalse, atom,
    if_neg (q.lowerAll_text_ne v fun op => by cases op <;> decide),
    if_neg (q.lowerAll_text_ne v fun op => by cases op <;> decide),
    if_neg (q.lowerAll_text_ne v fun op => by cases op <;> decide), hcomparison]
  dsimp only
  rw [h.strip_eq, resolveLiteral, literal_of_inert h.toInert]
  rfl

theorem asWritten_of_admits {ctx : AgentContext} {e : Written b} (htexts : HoldsTexts vars e)
    (h : ∀ q ∈ e.comparisons, q.Admits (q.filled vars)) : AsWritten ctx vars e := by
  have hparse : parse b.isAlnum (interpolate b vars e.template) =
      e.tree.map (leafText (Comparison.filled vars)) := by
    rw [interpolate_template]
    exact parse_text e fun q hq => (h q hq).toIsPhrase
  constructor
  · rw [hparse, Condition.map_map]
    refine Condition.map_congr fun q hq => ?_
    rw [e.leaves_tree] at hq
    exact readComparison_text q (h q hq).toInert (h q hq).keepsOp
  · have hleaf : ∀ q ∈ e.tree.leaves,
        holds b ctx vars (leafText (Comparison.filled vars) q) = q.isTrue ctx vars := by
      intro q hq
      rw [e.leaves_tree] at hq
      obtain ⟨v, hv⟩ := htexts q hq
      rw [leafText, holds_text q (h q hq), Comparison.isTrue, Comparison.filled, Literal.value, hv]
      rfl
    have hevaluable : (parse b.isAlnum (interpolate b vars e.template)).Evaluable
        (holds b ctx vars) := by
      rw [hparse, Condition.evaluable_map]
      exact e.evaluable_tree
    rw [executeConditionNode, evaluate_eq, ← parse, Condition.value_of_evaluable hevaluable, hparse,
      Condition.isTrue_map_congr hleaf]
    rfl

theorem inert_of_parsed {e : Written b}
    (h : (parse b.isAlnum (interpolate b vars e.template)).map (readComparison b) =
      e.tree.map fun q => some (q.name, q.op, .const (.str (q.filled vars)))) :
    ∀ q ∈ e.comparisons, Inert b (q.filled vars) := by
  rw [interpolate_template] at h
  have hleaf : ∀ leaf ∈ (parse b.isAlnum (e.text (Comparison.filled vars))).leaves,
      ∀ q : Comparison b,
        readComparison b leaf = some (q.name, q.op, .const (.str (q.filled vars))) →
          letters (leafText (Comparison.filled vars) q) ≤ letters leaf := by
    intro leaf hmem q hread
    obtain ⟨hstrip, hor, hand⟩ := leaves_parseAt _ _ hmem
    rw [leafText, letters_text]
    exact (inert_of_readComparison hstrip hor hand hread).1
  have hsize : (parse b.isAlnum (e.text (Comparison.filled vars))).size letters =
      e.tree.size fun q => letters (leafText (Comparison.filled vars) q) := by
    rw [parse, size_parseAt, e.letters_text]
  intro q hq
  rw [← e.leaves_tree] at hq
  obtain ⟨leaf, hmem, hread, hle⟩ := (Condition.size_le_of_map_eq hleaf h).2 hsize.le q hq
  obtain ⟨hstrip, hor, hand⟩ := leaves_parseAt _ _ hmem
  rw [leafText, letters_text] at hle
  exact (inert_of_readComparison hstrip hor hand hread).2 hle

/-- **Interpolation.** A condition is executed as it is written if and only if the value of every
variable in braces is inert, and does not go on with the operator before it. -/
theorem asWritten_iff (ctx : AgentContext) {e : Written b} (htexts : HoldsTexts vars e) :
    AsWritten ctx vars e ↔ ∀ q ∈ e.comparisons, q.Admits (q.filled vars) := by
  refine ⟨fun h q hq => ?_, asWritten_of_admits htexts⟩
  have hinert := inert_of_parsed h.parsed
  refine ⟨hinert q hq, ?_⟩
  have hparsed := h.parsed
  rw [interpolate_template, parse_text e fun q hq => (hinert q hq).toIsPhrase,
    Condition.map_map] at hparsed
  have hread := Condition.of_map_eq_map hparsed q (by rwa [e.leaves_tree])
  obtain ⟨⟨name, op, raw⟩, hcomparison, heq⟩ := Option.map_eq_some_iff.mp hread
  obtain ⟨rfl, rfl, -⟩ : name = q.name ∧ op = q.op ∧
      literal b (strip raw) = .const (.str (q.filled vars)) := by
    simpa using heq
  refine keepsOp_of_comparison q ?_ hcomparison
  exact (hinert q hq).strip_eq ▸ endsBlank_strip _

/-- The comparison `x == {{v}}`. -/
def isValue : Comparison decimalBuiltins where
  name := "x"
  blanks := " "
  op := .eq
  gap := " "
  inner := "v"
  name_ne_nil := by decide
  isWord_name := forall_mem_of_all (by decide)
  not_or := by decide
  not_and := by decide
  not_not := by decide
  isBlank_blanks := by decide
  isBlank_gap := by decide
  inner_ne_nil := by decide
  inner_plain := forall_mem_of_all (by decide)

/-- The condition `x == {{v}}`. -/
def isValueWritten : Written decimalBuiltins where
  before := []
  chain := ⟨⟨⟨[], isValue⟩, []⟩, []⟩
  after := []
  isBlank_before := by decide
  isBlank_after := by decide

theorem holdsTexts_isValueWritten (v : Str) :
    HoldsTexts [("v", .str v)] isValueWritten := by
  intro q hq
  rw [List.mem_singleton.mp hq]
  exact ⟨v, rfl⟩

theorem asWritten_isValueWritten :
    AsWritten {} [("v".toList, .str "high".toList)] isValueWritten ↔
      ∀ q ∈ isValueWritten.comparisons,
        q.Admits (q.filled [("v".toList, .str "high".toList)]) :=
  asWritten_iff {} (holdsTexts_isValueWritten "high")

/-- If `x` is `b` and `v` is `a or true`, then `x == {{v}}` is true. -/
theorem not_asWritten : ¬ ∀ (N : Type) (b : Builtins N) (ctx : AgentContext) (vars : Vars)
    (e : Written b), HoldsTexts vars e → AsWritten ctx vars e := by
  intro h
  have htexts : HoldsTexts [("v", .str "a or true"), ("x", .str "b")]
      isValueWritten := by
    intro q hq
    rw [List.mem_singleton.mp hq]
    exact ⟨_, rfl⟩
  have hresult := (h Number decimalBuiltins {} _ isValueWritten htexts).result
  revert hresult
  decide +kernel

end AgentStudio.Conditions

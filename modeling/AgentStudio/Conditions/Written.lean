import AgentStudio.Conditions.Engine
import AgentStudio.Conditions.Words

/-!
# Written conditions

A `Written` is a condition as an author writes it: comparisons `x op {{v}}`, with `not` before them,
put together by `and` and `or`, with any blanks between these and in any case. What stands on the
right of each comparison is left open, so that `Written.text` is the text of the condition with
its variables in braces as well as the text with something else in their place.

`parse_text`: if what stands on the right is a phrase without a keyword (`IsPhrase`), then the
engine reads the comparisons, and puts them together as it is written. Two texts are read as the
same condition if their trees have the same shape and leaves read alike (`Condition.map`).
-/

namespace AgentStudio.Conditions

open PyText
open AgentStudio.Runtime (lowerAll isWord)

/-! ### Trees -/

namespace Condition

variable {α β γ : Type}

def map (f : α → β) : Condition α → Condition β
  | leaf a => .leaf (f a)
  | never text => .never text
  | or c d => .or (c.map f) (d.map f)
  | and c d => .and (c.map f) (d.map f)
  | not c => .not (c.map f)

def leaves : Condition α → List α
  | leaf a => [a]
  | never _ => []
  | or c d => c.leaves ++ d.leaves
  | and c d => c.leaves ++ d.leaves
  | not c => c.leaves

/-- How many characters of a text with some leaves are not blank. -/
def size (f : α → ℕ) : Condition α → ℕ
  | leaf a => f a
  | never text => letters text
  | or c d => c.size f + d.size f + 2
  | and c d => c.size f + d.size f + 3
  | not c => c.size f + 3

variable {op : Condition α → Condition α → Condition α} {f : α → β} {c : Condition α}

theorem map_join {op' : Condition β → Condition β → Condition β}
    (h : ∀ c d, (op c d).map f = op' (c.map f) (d.map f)) (c : Condition α)
    (cs : List (Condition α)) :
    (join op c cs).map f = join op' (c.map f) (cs.map (Condition.map f)) := by
  induction cs generalizing c with
  | nil => rfl
  | cons d ds ih => rw [join, h, ih, List.map_cons, join]

theorem map_congr {g : α → β} (h : ∀ a ∈ c.leaves, f a = g a) : c.map f = c.map g := by
  induction c with
  | leaf a => exact congrArg leaf (h a (List.mem_singleton_self a))
  | never text => rfl
  | or _ _ ihc ihd | and _ _ ihc ihd =>
    rw [map, map, ihc fun a ha => h a (List.mem_append_left _ ha),
      ihd fun a ha => h a (List.mem_append_right _ ha)]
  | not c ih => rw [map, map, ih h]

theorem map_map (g : β → γ) (f : α → β) (c : Condition α) :
    (c.map f).map g = c.map fun a => g (f a) := by
  induction c with
  | leaf | never => rfl
  | or _ _ ihc ihd | and _ _ ihc ihd => rw [map, map, map, ihc, ihd]
  | not c ih => rw [map, map, map, ih]

theorem isTrue_map_congr {leafTrue : β → Bool} {leafTrue' : α → Bool}
    (h : ∀ a ∈ c.leaves, leafTrue (f a) = leafTrue' a) :
    (c.map f).isTrue leafTrue = c.isTrue leafTrue' := by
  induction c with
  | leaf a => exact h a (List.mem_singleton_self a)
  | never text => rfl
  | or _ _ ihc ihd | and _ _ ihc ihd =>
    rw [map, isTrue, isTrue, ihc fun a ha => h a (List.mem_append_left _ ha),
      ihd fun a ha => h a (List.mem_append_right _ ha)]
  | not c ih => rw [map, isTrue, isTrue, ih h]

theorem of_map_eq_map {g : α → β} (h : c.map f = c.map g) : ∀ a ∈ c.leaves, f a = g a := by
  induction c with
  | leaf a =>
    intro a' ha'
    rw [List.mem_singleton.mp ha']
    exact leaf.inj h
  | never text => exact List.forall_mem_nil _
  | or c d ihc ihd =>
    intro a ha
    exact (List.mem_append.mp ha).elim (ihc (or.inj h).1 a) (ihd (or.inj h).2 a)
  | and c d ihc ihd =>
    intro a ha
    exact (List.mem_append.mp ha).elim (ihc (and.inj h).1 a) (ihd (and.inj h).2 a)
  | not c ih => exact ih (not.inj h)

theorem evaluable_map {leafTrue : β → Bool} :
    (c.map f).Evaluable leafTrue ↔ c.Evaluable fun a => leafTrue (f a) := by
  induction c with
  | leaf | never => rfl
  | or _ _ ihc ihd | and _ _ ihc ihd =>
    rw [map, Evaluable, Evaluable, ihc, ihd, isTrue_map_congr fun _ _ => rfl]
  | not c ih => exact ih

/-- **Leaves of two trees.** If the leaves of a tree are read as those of another one, and none of
them is shorter than what it is read as, then the tree is not smaller. If it is no larger either,
each leaf of the other tree is what a leaf is read as that is no longer. -/
theorem size_le_of_map_eq {read : α → γ} {want : β → γ} {f : α → ℕ} {g : β → ℕ}
    (hle : ∀ a ∈ c.leaves, ∀ b, read a = want b → g b ≤ f a) {d : Condition β}
    (h : c.map read = d.map want) :
    d.size g ≤ c.size f ∧ (c.size f ≤ d.size g →
      ∀ b ∈ d.leaves, ∃ a ∈ c.leaves, read a = want b ∧ f a ≤ g b) := by
  induction c generalizing d with
  | leaf a =>
    cases d with
    | leaf b =>
      have hread : read a = want b := leaf.inj h
      refine ⟨hle a (List.mem_singleton_self a) b hread, fun hsize b' hb' => ?_⟩
      rw [List.mem_singleton.mp hb']
      exact ⟨a, List.mem_singleton_self a, hread, hsize⟩
    | _ => exact absurd h (by simp [map])
  | never text =>
    cases d with
    | never text' =>
      have htext : text = text' := never.inj h
      exact ⟨(congrArg letters htext).ge, fun _ => List.forall_mem_nil _⟩
    | _ => exact absurd h (by simp [map])
  | or c c' ihc ihc' =>
    cases d with
    | or d d' =>
      obtain ⟨hc, hc'⟩ := or.inj h
      obtain ⟨hsize, hleaves⟩ := ihc (fun a ha => hle a (List.mem_append_left _ ha)) hc
      obtain ⟨hsize', hleaves'⟩ := ihc' (fun a ha => hle a (List.mem_append_right _ ha)) hc'
      simp only [size, leaves, List.mem_append]
      refine ⟨by omega, fun hall b hb => ?_⟩
      rcases hb with hb | hb
      · obtain ⟨a, ha, hab⟩ := hleaves (by omega) b hb
        exact ⟨a, .inl ha, hab⟩
      · obtain ⟨a, ha, hab⟩ := hleaves' (by omega) b hb
        exact ⟨a, .inr ha, hab⟩
    | _ => exact absurd h (by simp [map])
  | and c c' ihc ihc' =>
    cases d with
    | and d d' =>
      obtain ⟨hc, hc'⟩ := and.inj h
      obtain ⟨hsize, hleaves⟩ := ihc (fun a ha => hle a (List.mem_append_left _ ha)) hc
      obtain ⟨hsize', hleaves'⟩ := ihc' (fun a ha => hle a (List.mem_append_right _ ha)) hc'
      simp only [size, leaves, List.mem_append]
      refine ⟨by omega, fun hall b hb => ?_⟩
      rcases hb with hb | hb
      · obtain ⟨a, ha, hab⟩ := hleaves (by omega) b hb
        exact ⟨a, .inl ha, hab⟩
      · obtain ⟨a, ha, hab⟩ := hleaves' (by omega) b hb
        exact ⟨a, .inr ha, hab⟩
    | _ => exact absurd h (by simp [map])
  | not c ih =>
    cases d with
    | not d =>
      obtain ⟨hsize, hleaves⟩ := ih hle (not.inj h)
      simp only [size, leaves]
      exact ⟨by omega, fun hall => hleaves (by omega)⟩
    | _ => exact absurd h (by simp [map])

theorem leaves_join (hop : ∀ c d, (op c d).leaves = c.leaves ++ d.leaves) (c : Condition α)
    (cs : List (Condition α)) : (join op c cs).leaves = (c :: cs).flatMap leaves := by
  induction cs generalizing c with
  | nil => simp [join]
  | cons d ds ih => rw [join, hop, ih, List.flatMap_cons, List.flatMap_cons, List.flatMap_cons]

theorem size_join {f : α → ℕ} {k : ℕ} (hop : ∀ c d, (op c d).size f = c.size f + d.size f + k)
    (c : Condition α) (cs : List (Condition α)) :
    (join op c cs).size f = ((c :: cs).map (size f)).sum + k * cs.length := by
  induction cs generalizing c with
  | nil => simp [join]
  | cons d ds ih =>
    rw [join, hop, ih]
    simp only [List.map_cons, List.sum_cons, List.length_cons, Nat.mul_succ]
    omega

theorem evaluable_join {leafTrue : α → Bool}
    (hop : ∀ c d, c.Evaluable leafTrue → d.Evaluable leafTrue → (op c d).Evaluable leafTrue)
    {cs : List (Condition α)} (hc : c.Evaluable leafTrue) (hcs : ∀ d ∈ cs, d.Evaluable leafTrue) :
    (join op c cs).Evaluable leafTrue := by
  induction cs generalizing c with
  | nil => exact hc
  | cons d ds ih =>
    exact hop c _ hc (ih (hcs d List.mem_cons_self) fun x hx => hcs x (List.mem_cons_of_mem d hx))

end Condition

variable {N : Type} (b : Builtins N)

/-! ### What is written -/

/-- A comparison `x op {{v}}`. -/
structure Comparison where
  name : Str
  blanks : Str
  op : Comparator
  gap : Str
  inner : Str
  name_ne_nil : name ≠ []
  isWord_name : ∀ c ∈ name, isWord b.isAlnum c = true
  not_or : ¬ Has b "or" name
  not_and : ¬ Has b "and" name
  not_not : lowerAll name ≠ "not"
  isBlank_blanks : IsBlank blanks
  isBlank_gap : IsBlank gap
  inner_ne_nil : inner ≠ []
  inner_plain : ∀ c ∈ inner, c ≠ '{' ∧ c ≠ '}' ∧ c ≠ '\n'

/-- The word `not` before a condition. -/
structure Negation where
  word : Str
  blanks : Str
  lower : word.map Char.toLower = "not"
  isBlank_blanks : IsBlank blanks

structure Operand where
  negations : List Negation
  comparison : Comparison b

/-- Some things with a word between them. -/
structure Chain (w : Str) (α : Type) where
  first : α
  rest : List ({sep : Str // IsSeparator w sep} × α)

structure Written where
  before : Str
  chain : Chain "or" (Chain "and" (Operand b))
  after : Str
  isBlank_before : IsBlank before
  isBlank_after : IsBlank after

/-! ### Its text -/

def joinText (first : Str) : List (Str × Str) → Str
  | [] => first
  | p :: rest => first ++ (p.1 ++ joinText p.2 rest)

variable {b}

def Comparison.text (q : Comparison b) (rhs : Str) : Str :=
  q.name ++ (q.blanks ++ (q.op.text ++ (q.gap ++ rhs)))

def Negation.text (n : Negation) : Str := n.word ++ ' ' :: n.blanks

def Operand.text (rhs : Comparison b → Str) (o : Operand b) : Str :=
  o.negations.foldr (fun n s => n.text ++ s) (o.comparison.text (rhs o.comparison))

def Chain.text {w : Str} {α : Type} (text : α → Str) (c : Chain w α) : Str :=
  joinText (text c.first) (c.rest.map fun p => (p.1.1, text p.2))

def Written.text (rhs : Comparison b → Str) (e : Written b) : Str :=
  e.before ++ (e.chain.text fun c => c.text (Operand.text rhs)) ++ e.after

/-! ### Its tree -/

def Operand.tree (o : Operand b) : Condition (Comparison b) :=
  o.negations.foldr (fun _ => .not) (.leaf o.comparison)

def Chain.tree {w : Str} {α β : Type} (op : Condition β → Condition β → Condition β)
    (tree : α → Condition β) (c : Chain w α) : Condition β :=
  Condition.join op (tree c.first) (c.rest.map fun p => tree p.2)

def Written.tree (e : Written b) : Condition (Comparison b) :=
  e.chain.tree .or fun c => c.tree .and Operand.tree

def Chain.members {w : Str} {α : Type} (c : Chain w α) : List α := c.first :: c.rest.map Prod.snd

def Written.comparisons (e : Written b) : List (Comparison b) :=
  e.chain.members.flatMap fun c => c.members.map Operand.comparison

/-! ### Blanks and plain texts -/

variable {s : Str}

theorem endsBlank_append {t : Str} (ht : t ≠ []) : endsBlank (s ++ t) = endsBlank t := by
  obtain ⟨c, cs, hcs⟩ := List.exists_cons_of_ne_nil (mt List.reverse_eq_nil_iff.mp ht)
  rw [endsBlank, endsBlank, List.reverse_append, hcs]
  rfl

theorem eq_nil_of_isBlank {t : Str} (ht : IsBlank t) (h : endsBlank (s ++ t) = false) : t = [] := by
  by_contra hne
  obtain ⟨c, cs, hcs⟩ := List.exists_cons_of_ne_nil (mt List.reverse_eq_nil_iff.mp hne)
  have hc : isSpace c = true := ht c (List.mem_reverse.mp (hcs ▸ List.mem_cons_self))
  rw [endsBlank_append hne, endsBlank, hcs] at h
  exact absurd h (by simp [startsBlank, hc])

theorem startsBlank_append {t : Str} (hs : s ≠ []) : startsBlank (s ++ t) = startsBlank s := by
  obtain ⟨c, cs, rfl⟩ := List.exists_cons_of_ne_nil hs
  rfl

theorem not_has_of_isPlain {w : Str} (hw : w = "or" ∨ w = "and") (h : IsPlain s) :
    ¬ Has b w s := by
  have hkeyword : IsKeyword w := by
    rcases hw with rfl | rfl
    · exact isKeyword_or
    · exact isKeyword_and
  have hword (x : Bool) (hlower : lowerAll s = boolText x) : ¬ Has b w s := by
    have hall : ∀ c ∈ boolText x, isWord b.isAlnum c = true := by
      have hletters : ∀ c ∈ boolText x, c.isAlphanum = true := by
        cases x <;> exact forall_mem_of_all (by decide)
      exact fun c hc => by simp [Runtime.isWord, hletters c hc]
    rw [has_iff hkeyword, hlower, runs,
      List.splitOnP_eq_singleton fun c hc => by simp [hall c hc], List.mem_singleton]
    rcases hw with rfl | rfl <;> cases x <;> decide
  rcases h with rfl | htrue | hfalse
  · exact not_has_nil hkeyword
  · exact hword true htrue
  · exact hword false hfalse

/-! ### What the engine reads -/

/-- A text is read as a condition, whatever the depth. -/
structure Reads (b : Builtins N) (s : Str) (c : Condition Str) : Prop where
  ne_nil : s ≠ []
  start : startsBlank s = false
  end_ : endsBlank s = false
  parse : ∀ depth, s.length < depth → parseAt b.isAlnum depth s = c

theorem Reads.strip_eq {c : Condition Str} (h : Reads b s c) : strip s = s :=
  strip_eq_self_of h.start h.end_

theorem parseAt_congr {t : Str} (h : strip s = strip t) (depth : ℕ) :
    parseAt b.isAlnum (depth + 1) s = parseAt b.isAlnum (depth + 1) t := by
  rw [parseAt, parseAt, h]

theorem parseAt_succ (hstrip : strip s = s) (depth : ℕ) :
    parseAt b.isAlnum (depth + 1) s =
      if IsPlain s then .leaf s
      else if Has b "or" s then
        Condition.combine .or s ((splitAtWord "or" s).map (parseAt b.isAlnum depth))
      else if Has b "and" s then
        Condition.combine .and s ((splitAtWord "and" s).map (parseAt b.isAlnum depth))
      else if "not ".toList.isPrefixOf (lowerAll s) then .not (parseAt b.isAlnum depth (s.drop 4))
      else .leaf s := by
  rw [parseAt, hstrip]
  rfl

theorem parseAt_or (hstrip : strip s = s) (hor : Has b "or" s) (depth : ℕ) :
    parseAt b.isAlnum (depth + 1) s =
      Condition.combine .or s ((splitAtWord "or" s).map (parseAt b.isAlnum depth)) := by
  rw [parseAt_succ hstrip, if_neg fun hplain => not_has_of_isPlain (.inl rfl) hplain hor,
    if_pos hor]

theorem parseAt_and (hstrip : strip s = s) (hor : ¬ Has b "or" s)
    (hand : Has b "and" s) (depth : ℕ) :
    parseAt b.isAlnum (depth + 1) s =
      Condition.combine .and s ((splitAtWord "and" s).map (parseAt b.isAlnum depth)) := by
  rw [parseAt_succ hstrip, if_neg fun hplain => not_has_of_isPlain (.inr rfl) hplain hand,
    if_neg hor, if_pos hand]

/-! ### Chains -/

section Chains

variable {w : Str}

variable {first : Str} {rest : List (Str × Str)}

theorem joinText_ne_nil (h : first ≠ []) (rest : List (Str × Str)) : joinText first rest ≠ [] := by
  cases rest with
  | nil => exact h
  | cons p rest => simp [joinText, h]

theorem startsBlank_joinText (h : first ≠ []) (rest : List (Str × Str)) :
    startsBlank (joinText first rest) = startsBlank first := by
  cases rest with
  | nil => rfl
  | cons p rest => exact startsBlank_append h

theorem endsBlank_joinText (hfirst : endsBlank first = false)
    (hrest : ∀ p ∈ rest, p.2 ≠ [] ∧ endsBlank p.2 = false) :
    endsBlank (joinText first rest) = false := by
  induction rest generalizing first with
  | nil => exact hfirst
  | cons p rest ih =>
    obtain ⟨hnil, hend⟩ := hrest p List.mem_cons_self
    have hjoin := joinText_ne_nil hnil rest
    rw [joinText, ← List.append_assoc, endsBlank_append hjoin]
    exact ih hend fun q hq => hrest q (List.mem_cons_of_mem p hq)

theorem splitAtWord_joinText (hw : IsKeyword w) (hfirst : ¬ Has b w first ∧ endsBlank first = false)
    (hrest : ∀ p ∈ rest, IsSeparator w p.1 ∧ p.2 ≠ [] ∧ startsBlank p.2 = false ∧
      ¬ Has b w p.2 ∧ endsBlank p.2 = false) :
    splitAtWord w (joinText first rest) = first :: rest.map Prod.snd := by
  induction rest generalizing first with
  | nil => exact splitAtWord_of_freeOf hw.not_isSpace (freeOf_of_not_has hw hfirst.1) hfirst.2
  | cons p rest ih =>
    obtain ⟨hsep, hnil, hstart, hp⟩ := hrest p List.mem_cons_self
    have hjoin : startsBlank (joinText p.2 rest) = false := by
      rwa [startsBlank_joinText hnil]
    rw [joinText, splitAtWord_append hw.not_isSpace hw.ne_nil (freeOf_of_not_has hw hfirst.1)
      hfirst.2 hsep hjoin, ih hp fun q hq => hrest q (List.mem_cons_of_mem p hq), List.map_cons]

theorem has_joinText {w' : Str} (hw : IsKeyword w) (hw' : IsKeyword w')
    (hrest : ∀ p ∈ rest, IsSeparator w' p.1) :
    Has b w (joinText first rest) ↔
      Has b w first ∨ (w = w' ∧ rest ≠ []) ∨ ∃ p ∈ rest, Has b w p.2 := by
  induction rest generalizing first with
  | nil => simp [joinText]
  | cons p rest ih =>
    rw [joinText, has_append_isSeparator hw hw' (hrest p List.mem_cons_self),
      ih fun q hq => hrest q (List.mem_cons_of_mem p hq)]
    simp only [List.mem_cons, or_and_right, exists_or, exists_eq_left, ne_eq, reduceCtorEq,
      not_false_eq_true, and_true]
    tauto

/-- **Chains.** A chain of texts that are read is read as the chain of what they are read as. -/
theorem reads_joinText (hw : IsKeyword w) {op : Condition Str → Condition Str → Condition Str}
    {first : Str × Condition Str} {rest : List (Str × Str × Condition Str)}
    (hfirst : Reads b first.1 first.2 ∧ ¬ Has b w first.1)
    (hrest : ∀ p ∈ rest, IsSeparator w p.1 ∧ Reads b p.2.1 p.2.2 ∧ ¬ Has b w p.2.1)
    (hstep : rest ≠ [] → ∀ depth,
      parseAt b.isAlnum (depth + 1) (joinText first.1 (rest.map fun p => (p.1, p.2.1))) =
        Condition.combine op (joinText first.1 (rest.map fun p => (p.1, p.2.1)))
          ((splitAtWord w (joinText first.1 (rest.map fun p => (p.1, p.2.1)))).map
            (parseAt b.isAlnum depth))) :
    Reads b (joinText first.1 (rest.map fun p => (p.1, p.2.1)))
      (Condition.join op first.2 (rest.map fun p => p.2.2)) := by
  have hmem : ∀ p ∈ rest.map fun p => (p.1, p.2.1), IsSeparator w p.1 ∧ p.2 ≠ [] ∧
      startsBlank p.2 = false ∧ ¬ Has b w p.2 ∧ endsBlank p.2 = false := by
    intro p hp
    obtain ⟨q, hq, rfl⟩ := List.mem_map.mp hp
    obtain ⟨hsep, hreads, hnot⟩ := hrest q hq
    exact ⟨hsep, hreads.ne_nil, hreads.start, hnot, hreads.end_⟩
  refine ⟨joinText_ne_nil hfirst.1.ne_nil _, ?_, ?_, ?_⟩
  · rw [startsBlank_joinText hfirst.1.ne_nil]
    exact hfirst.1.start
  · exact endsBlank_joinText hfirst.1.end_ fun p hp => ⟨(hmem p hp).2.1, (hmem p hp).2.2.2.2⟩
  · intro depth hdepth
    cases rest with
    | nil => exact hfirst.1.parse depth hdepth
    | cons p rest =>
      obtain ⟨depth, rfl⟩ := Nat.exists_eq_succ_of_ne_zero (Nat.ne_zero_of_lt hdepth)
      have hsplit := splitAtWord_joinText hw ⟨hfirst.2, hfirst.1.end_⟩ hmem
      have hlength : (splitAtWord w (joinText first.1
          ((p :: rest).map fun p => (p.1, p.2.1)))).length ≠ 1 := by
        rw [hsplit]
        simp
      have hparts : (splitAtWord w (joinText first.1 ((p :: rest).map fun p => (p.1, p.2.1)))).map
          (parseAt b.isAlnum depth) = first.2 :: (p :: rest).map fun p => p.2.2 := by
        have hlt (t : Str) (ht : t ∈ first.1 :: ((p :: rest).map fun p => p.2.1)) :
            t.length < depth := by
          have hin : t ∈ splitAtWord w (joinText first.1
              ((p :: rest).map fun p => (p.1, p.2.1))) := by
            rw [hsplit, List.map_map]
            exact ht
          have := length_lt_of_mem_splitAtWord hlength hin
          omega
        rw [hsplit, List.map_map, List.map_cons, List.map_map]
        congr 1
        · exact hfirst.1.parse depth (hlt _ List.mem_cons_self)
        · refine List.map_congr_left fun q hq => ?_
          exact (hrest q hq).2.1.parse depth
            (hlt _ (List.mem_cons_of_mem _ (List.mem_map_of_mem hq)))
      rw [Nat.succ_eq_add_one, hstep (List.cons_ne_nil p rest), hparts]
      rfl

end Chains

/-! ### Comparisons -/

structure IsPhrase (b : Builtins N) (s : Str) : Prop where
  ne_nil : s ≠ []
  strip_eq : strip s = s
  not_or : ¬ Has b "or" s
  not_and : ¬ Has b "and" s

def Comparator.head : Comparator → Char
  | ge => '>'
  | le => '<'
  | ne => '!'
  | eq => '='
  | gt => '>'
  | lt => '<'

theorem Comparator.exists_text (op : Comparator) :
    ∃ rest, op.text = op.head :: rest ∧ rest ∈ [[], ['=']] := by
  cases op <;> exact ⟨_, rfl, by decide⟩

theorem Comparator.isWord_head (op : Comparator) : isWord b.isAlnum op.head = false := by
  cases op <;> rfl

theorem Comparator.isSpace_head (op : Comparator) : isSpace op.head = false := by
  cases op <;> decide

theorem Comparator.lowerAll_head (op : Comparator) : lowerAll [op.head] = [op.head] := by
  cases op <;> decide

theorem Comparator.has_append {w : Str} (hw : IsKeyword w) (op : Comparator) {gap rhs : Str}
    (hgap : IsBlank gap) : Has b w (s ++ (op.text ++ (gap ++ rhs))) ↔ Has b w s ∨ Has b w rhs := by
  obtain ⟨rest, hop, hrest⟩ := op.exists_text
  have hafter : Has b w (rest ++ (gap ++ rhs)) ↔ Has b w rhs := by
    rw [← has_isBlank_append hw hgap (s := rhs)]
    rcases List.mem_pair.mp hrest with rfl | rfl
    · rfl
    · have hsplit := has_append_cons (b := b) (c := '=') (s := []) (t := gap ++ rhs) hw rfl
        (by decide)
      rw [List.nil_append] at hsplit
      rw [List.singleton_append, hsplit]
      exact or_iff_right (not_has_nil hw)
  rw [hop, List.cons_append, has_append_cons hw op.isWord_head op.lowerAll_head, hafter]

namespace Comparison

variable (q : Comparison b) {rhs : Str}

theorem head_mem_text (rhs : Str) : q.op.head ∈ q.text rhs := by
  obtain ⟨rest, hop, -⟩ := q.op.exists_text
  simp [Comparison.text, hop]

theorem text_ne_nil (rhs : Str) : q.text rhs ≠ [] := by
  simp [Comparison.text, q.name_ne_nil]

theorem startsBlank_text (rhs : Str) : startsBlank (q.text rhs) = false := by
  rw [Comparison.text, startsBlank_append q.name_ne_nil]
  obtain ⟨c, cs, hcs⟩ := List.exists_cons_of_ne_nil q.name_ne_nil
  rw [hcs]
  cases hc : isSpace c with
  | false => simp [startsBlank, hc]
  | true =>
    have hword := q.isWord_name c (hcs ▸ List.mem_cons_self)
    exact absurd ((isWord_of_isSpace hc).symm.trans hword) Bool.false_ne_true

theorem endsBlank_text (h : IsPhrase b rhs) : endsBlank (q.text rhs) = false := by
  have hend : endsBlank rhs = false := h.strip_eq ▸ endsBlank_strip rhs
  have hsplit : q.text rhs = (q.name ++ (q.blanks ++ (q.op.text ++ q.gap))) ++ rhs := by
    simp [Comparison.text]
  rw [hsplit, endsBlank_append h.ne_nil, hend]

theorem has_text {w : Str} (hw : IsKeyword w) (rhs : Str) :
    Has b w (q.text rhs) ↔ Has b w q.name ∨ Has b w rhs := by
  rw [Comparison.text, ← List.append_assoc, q.op.has_append hw q.isBlank_gap,
    has_append_isBlank hw q.isBlank_blanks]

theorem lowerAll_text_ne (rhs : Str) {t : Str} (ht : ∀ op : Comparator, op.head ∉ t) :
    lowerAll (q.text rhs) ≠ t := by
  intro h
  refine ht q.op (h ▸ ?_)
  obtain ⟨s, t, hsplit⟩ := List.append_of_mem (q.head_mem_text rhs)
  rw [hsplit, lowerAll_append, lowerAll_cons, q.op.lowerAll_head]
  simp

theorem not_isPlain_text (rhs : Str) : ¬ IsPlain (q.text rhs) := by
  rintro (hnil | htrue | hfalse)
  · exact q.text_ne_nil rhs hnil
  · exact q.lowerAll_text_ne rhs (fun op => by cases op <;> decide) htrue
  · exact q.lowerAll_text_ne rhs (fun op => by cases op <;> decide) hfalse

theorem not_isSpace_lowerAll {s : Str} (hs : ∀ c ∈ s, isSpace c = false) :
    ∀ c ∈ lowerAll s, isSpace c = false := by
  intro d hd
  obtain ⟨c, hc, hcd⟩ := List.mem_flatMap.mp hd
  split_ifs at hcd
  · rcases List.mem_pair.mp hcd with rfl | rfl <;> decide
  · rw [List.mem_singleton.mp hcd]
    decide
  · rw [List.mem_singleton.mp hcd, isSpace_toLower]
    exact hs c hc

theorem exists_after_name (rhs : Str) : ∃ d t,
    lowerAll (q.blanks ++ (q.op.text ++ (q.gap ++ rhs))) = d :: t ∧
      (isSpace d = true ∨ d = q.op.head) := by
  obtain ⟨rest, hop, -⟩ := q.op.exists_text
  cases hblanks : q.blanks with
  | nil =>
    rw [List.nil_append, hop, List.cons_append, lowerAll_cons, q.op.lowerAll_head]
    exact ⟨_, _, rfl, .inr rfl⟩
  | cons d t =>
    have hd : isSpace d = true := q.isBlank_blanks d (hblanks ▸ List.mem_cons_self)
    rw [List.cons_append, lowerAll_cons, lowerAll_of_isSpace hd]
    exact ⟨_, _, rfl, .inl hd⟩

theorem not_negation_text (rhs : Str) :
    ¬ "not ".toList.isPrefixOf (lowerAll (q.text rhs)) = true := by
  intro h
  obtain ⟨t, ht⟩ := List.isPrefixOf_iff_prefix.mp h
  obtain ⟨d, r, hr, hd⟩ := q.exists_after_name rhs
  rw [Comparison.text, lowerAll_append, hr] at ht
  have hname : ∀ c ∈ lowerAll q.name, isSpace c = false := by
    refine not_isSpace_lowerAll fun c hc => ?_
    cases hspace : isSpace c with
    | false => rfl
    | true =>
      exact absurd ((isWord_of_isSpace hspace).symm.trans (q.isWord_name c hc))
        Bool.false_ne_true
  have hletters : d ≠ 'n' ∧ d ≠ 'o' ∧ d ≠ 't' := by
    rcases hd with hspace | rfl
    · refine ⟨?_, ?_, ?_⟩ <;> rintro rfl <;> exact absurd hspace (by decide)
    · cases q.op <;> decide
  -- the name is what stands before the blank of `not `
  rcases hlower : lowerAll q.name with _ | ⟨c1, _ | ⟨c2, _ | ⟨c3, _ | ⟨c4, cs⟩⟩⟩⟩ <;>
    rw [hlower] at ht hname <;> simp at ht
  · exact hletters.1 ht.1.symm
  · exact hletters.2.1 ht.2.1.symm
  · exact hletters.2.2 ht.2.2.1.symm
  · exact q.not_not (by rw [hlower, ← ht.1, ← ht.2.1, ← ht.2.2.1]; rfl)
  · have hc4 := hname c4 (by simp)
    rw [← ht.2.2.2.1] at hc4
    exact absurd hc4 (by decide)

/-- **A comparison** is read as it is written. -/
theorem reads_text (h : IsPhrase b rhs) : Reads b (q.text rhs) (.leaf (q.text rhs)) := by
  refine ⟨q.text_ne_nil rhs, q.startsBlank_text rhs, q.endsBlank_text h, ?_⟩
  intro depth hdepth
  obtain ⟨depth, rfl⟩ := Nat.exists_eq_succ_of_ne_zero (Nat.ne_zero_of_lt hdepth)
  have hstrip := strip_eq_self_of (q.startsBlank_text rhs) (q.endsBlank_text h)
  have hor : ¬ Has b "or" (q.text rhs) := by
    rw [q.has_text isKeyword_or]
    exact fun hhas => hhas.elim q.not_or h.not_or
  have hand : ¬ Has b "and" (q.text rhs) := by
    rw [q.has_text isKeyword_and]
    exact fun hhas => hhas.elim q.not_and h.not_and
  rw [Nat.succ_eq_add_one, parseAt_succ hstrip, if_neg (q.not_isPlain_text rhs), if_neg hor,
    if_neg hand, if_neg (q.not_negation_text rhs)]

end Comparison

/-! ### Negations -/

theorem Reads.blanks {c : Condition Str} (h : Reads b s c) {blanks : Str} (hblanks : IsBlank blanks)
    {depth : ℕ} (hdepth : s.length < depth) : parseAt b.isAlnum depth (blanks ++ s) = c := by
  obtain ⟨depth, rfl⟩ := Nat.exists_eq_succ_of_ne_zero (Nat.ne_zero_of_lt hdepth)
  have hstrip : strip (blanks ++ s) = strip s := by
    have hblanksStrip : strip (blanks ++ s ++ []) = s :=
      strip_append hblanks (by simp [IsBlank]) h.start h.end_
    rw [List.append_nil] at hblanksStrip
    rw [hblanksStrip, h.strip_eq]
  rw [Nat.succ_eq_add_one, parseAt_congr hstrip]
  exact h.parse _ hdepth

theorem Negation.isKeyword_not : IsKeyword "not" :=
  ⟨by decide, forall_mem_of_all (by decide), forall_mem_of_all (by decide), by decide⟩

/-- **A negation** is read as it is written. -/
theorem Negation.reads (n : Negation) {c : Condition Str} (h : Reads b s c)
    (hor : ¬ Has b "or" s) (hand : ¬ Has b "and" s) :
    Reads b (n.text ++ s) (.not c) ∧ ¬ Has b "or" (n.text ++ s) ∧
      ¬ Has b "and" (n.text ++ s) := by
  have hlower := lowerAll_eq Negation.isKeyword_not.ascii n.lower
  obtain ⟨x, y, z, hword⟩ : ∃ x y z, n.word = [x, y, z] := by
    have hlength := congrArg List.length n.lower
    rw [List.length_map] at hlength
    exact List.length_eq_three.mp hlength
  have hhas {w : Str} (hw : IsKeyword w) (hne : w ≠ "not") (hs : ¬ Has b w s) :
      ¬ Has b w (n.text ++ s) := by
    have hsplit : n.text ++ s = n.word ++ ' ' :: (n.blanks ++ s) := by simp [Negation.text]
    have hnot : ¬ Has b w n.word := by
      rw [has_iff hw, hlower, runs, List.splitOnP_eq_singleton fun c hc => by
        simp [Negation.isKeyword_not.isWord (b := b) c hc], List.mem_singleton]
      exact hne
    rw [hsplit, has_append_blank hw (by decide), has_isBlank_append hw n.isBlank_blanks]
    exact fun hhas => hhas.elim hnot hs
  have hor' := hhas isKeyword_or (by decide) hor
  have hand' := hhas isKeyword_and (by decide) hand
  have hx : isSpace x = false := by
    rw [← isSpace_toLower]
    have hmap := n.lower
    rw [hword] at hmap
    rw [(List.cons.inj hmap).1]
    decide
  have hstart : startsBlank (n.text ++ s) = false := by
    simp [Negation.text, hword, startsBlank, hx]
  have hend : endsBlank (n.text ++ s) = false := by rw [endsBlank_append h.ne_nil, h.end_]
  refine ⟨⟨by simp [h.ne_nil], hstart, hend, ?_⟩, hor', hand'⟩
  intro depth hdepth
  obtain ⟨depth, rfl⟩ := Nat.exists_eq_succ_of_ne_zero (Nat.ne_zero_of_lt hdepth)
  have hlowerText : lowerAll (n.text ++ s) = "not " ++ lowerAll (n.blanks ++ s) := by
    have hsplit : n.text ++ s = n.word ++ (' ' :: (n.blanks ++ s)) := by simp [Negation.text]
    rw [hsplit, lowerAll_append, hlower, lowerAll_cons]
    rfl
  have hplain : ¬ IsPlain (n.text ++ s) := by
    rintro (hnil | htrue | hfalse)
    · simp [h.ne_nil] at hnil
    · rw [hlowerText] at htrue
      exact absurd (List.cons.inj htrue).1 (by decide)
    · rw [hlowerText] at hfalse
      exact absurd (List.cons.inj hfalse).1 (by decide)
  have hdrop : (n.text ++ s).drop 4 = n.blanks ++ s := by simp [Negation.text, hword]
  have hlength : (n.text ++ s).length = n.blanks.length + s.length + 4 := by
    simp [Negation.text, hword]
  rw [Nat.succ_eq_add_one, parseAt_succ (strip_eq_self_of hstart hend), if_neg hplain,
    if_neg hor', if_neg hand', hlowerText,
    if_pos (List.isPrefixOf_iff_prefix.mpr (List.prefix_append _ _)), hdrop,
    h.blanks n.isBlank_blanks (by omega)]

/-! ### Conditions -/

section Conditions

variable {rhs : Comparison b → Str}

def leafText (rhs : Comparison b → Str) (q : Comparison b) : Str := q.text (rhs q)

theorem Operand.reads (o : Operand b) (h : IsPhrase b (rhs o.comparison)) :
    Reads b (o.text rhs) (o.tree.map (leafText rhs)) ∧ ¬ Has b "or" (o.text rhs) ∧
      ¬ Has b "and" (o.text rhs) := by
  rw [Operand.text, Operand.tree]
  induction o.negations with
  | nil =>
    refine ⟨o.comparison.reads_text h, ?_, ?_⟩
    · change ¬ Has b _ (o.comparison.text _)
      rw [o.comparison.has_text isKeyword_or]
      exact fun hhas => hhas.elim o.comparison.not_or h.not_or
    · change ¬ Has b _ (o.comparison.text _)
      rw [o.comparison.has_text isKeyword_and]
      exact fun hhas => hhas.elim o.comparison.not_and h.not_and
  | cons n ns ih => exact n.reads ih.1 ih.2.1 ih.2.2

theorem Chain.has_text {w w' : Str} {α : Type} (hw : IsKeyword w) (hw' : IsKeyword w')
    (c : Chain w α) (text : α → Str) :
    Has b w' (c.text text) ↔ (w' = w ∧ c.rest ≠ []) ∨ ∃ a ∈ c.members, Has b w' (text a) := by
  have hsep : ∀ p ∈ c.rest.map fun p => (p.1.1, text p.2), IsSeparator w p.1 := by
    intro p hp
    obtain ⟨q, hq, rfl⟩ := List.mem_map.mp hp
    exact q.1.2
  rw [Chain.text, has_joinText hw' hw hsep]
  simp only [Chain.members, List.mem_cons, List.mem_map, ne_eq, List.map_eq_nil_iff]
  constructor
  · rintro (hhas | hown | ⟨_, ⟨p, hp, rfl⟩, hhas⟩)
    · exact .inr ⟨c.first, .inl rfl, hhas⟩
    · exact .inl hown
    · exact .inr ⟨p.2, .inr ⟨p, hp, rfl⟩, hhas⟩
  · rintro (hown | ⟨a, rfl | ⟨p, hp, rfl⟩, hhas⟩)
    · exact .inr (.inl hown)
    · exact .inl hhas
    · exact .inr (.inr ⟨_, ⟨p, hp, rfl⟩, hhas⟩)

theorem Chain.reads {w : Str} {α : Type} (hw : IsKeyword w)
    {op : Condition (Comparison b) → Condition (Comparison b) → Condition (Comparison b)}
    {op' : Condition Str → Condition Str → Condition Str}
    (hop : ∀ c d, (op c d).map (leafText rhs) = op' (c.map (leafText rhs)) (d.map (leafText rhs)))
    (c : Chain w α) {text : α → Str} {tree : α → Condition (Comparison b)}
    (h : ∀ a ∈ c.members,
      Reads b (text a) ((tree a).map (leafText rhs)) ∧ ¬ Has b w (text a))
    (hstep : strip (c.text text) = c.text text → Has b w (c.text text) → ∀ depth,
      parseAt b.isAlnum (depth + 1) (c.text text) = Condition.combine op' (c.text text)
        ((splitAtWord w (c.text text)).map (parseAt b.isAlnum depth))) :
    Reads b (c.text text) ((c.tree op tree).map (leafText rhs)) := by
  have hfirst := h c.first List.mem_cons_self
  have hrest (p) (hp : p ∈ c.rest) := h p.2 (List.mem_cons_of_mem _ (List.mem_map_of_mem hp))
  have hreads := @reads_joinText _ b w hw op' (text c.first, (tree c.first).map (leafText rhs))
    (c.rest.map fun p => (p.1.1, text p.2, (tree p.2).map (leafText rhs))) hfirst ?_ ?_
  · rw [Chain.tree, Condition.map_join hop]
    simpa [Chain.text, Function.comp_def] using hreads
  · intro p hp
    obtain ⟨q, hq, rfl⟩ := List.mem_map.mp hp
    exact ⟨q.1.2, hrest q hq⟩
  · intro hnil depth
    rw [List.map_map]
    have hstrip : strip (c.text text) = c.text text := by
      refine strip_eq_self_of ?_ (endsBlank_joinText hfirst.1.end_ fun p hp => ?_)
      · rw [Chain.text, startsBlank_joinText hfirst.1.ne_nil]
        exact hfirst.1.start
      · obtain ⟨q, hq, rfl⟩ := List.mem_map.mp hp
        exact ⟨(hrest q hq).1.ne_nil, (hrest q hq).1.end_⟩
    exact hstep hstrip ((c.has_text hw hw text).mpr (.inl ⟨rfl, by simpa using hnil⟩)) depth

theorem Chain.reads_and (c : Chain "and" (Operand b))
    (h : ∀ o ∈ c.members, IsPhrase b (rhs o.comparison)) :
    Reads b (c.text (Operand.text rhs)) ((c.tree .and Operand.tree).map (leafText rhs)) ∧
      ¬ Has b "or" (c.text (Operand.text rhs)) := by
  have hor : ¬ Has b "or" (c.text (Operand.text rhs)) := by
    rw [c.has_text isKeyword_and isKeyword_or]
    rintro (⟨hne, -⟩ | ⟨o, ho, hhas⟩)
    · exact absurd hne (by decide)
    · exact (o.reads (h o ho)).2.1 hhas
  refine ⟨c.reads isKeyword_and (fun _ _ => rfl) (fun o ho => ?_) ?_, hor⟩
  · exact ⟨(o.reads (h o ho)).1, (o.reads (h o ho)).2.2⟩
  · exact fun hstrip hand => parseAt_and hstrip hor hand

/-- **Reading.** A condition whose right sides are phrases without a keyword is read as it is
written. -/
theorem parse_text (e : Written b) (h : ∀ q ∈ e.comparisons, IsPhrase b (rhs q)) :
    parse b.isAlnum (e.text rhs) = e.tree.map (leafText rhs) := by
  have hmem (c : Chain "and" (Operand b)) (hc : c ∈ e.chain.members) :
      Reads b (c.text (Operand.text rhs)) ((c.tree .and Operand.tree).map (leafText rhs)) ∧
        ¬ Has b "or" (c.text (Operand.text rhs)) :=
    c.reads_and fun o ho => h o.comparison (List.mem_flatMap.mpr ⟨c, hc, List.mem_map_of_mem ho⟩)
  have hreads : Reads b (e.chain.text fun c => c.text (Operand.text rhs))
      (e.tree.map (leafText rhs)) :=
    e.chain.reads isKeyword_or (fun _ _ => rfl) hmem fun hstrip hor => parseAt_or hstrip hor
  have hstrip : strip (e.text rhs) = strip (e.chain.text fun c => c.text (Operand.text rhs)) := by
    rw [hreads.strip_eq]
    exact strip_append e.isBlank_before e.isBlank_after hreads.start hreads.end_
  rw [parse, parseAt_congr hstrip]
  refine hreads.parse _ ?_
  simp [Written.text]
  omega

end Conditions

end AgentStudio.Conditions

import AgentStudio.Library.Rows
import Mathlib.Data.List.Infix

/-!
# Trees of files

A tree is a table of files and directories by their paths, which are lists of names, in which
everything lies in a directory (`Tree.closed`). The root is a directory that is not in the table.
`write`, `mkdir`, `unlink` and `rmdir` do what the system calls do and fail where they do (`write`
makes the file or replaces it), and `mkdirs` makes a directory and all those that it lies in. For
each of them a lemma says what is at a path afterwards.
-/

namespace FileTree

open Rows

/-- What is at a path. -/
inductive Node (φ : Type)
  | file (f : φ)
  | dir

/-- A row of the table. -/
structure Entry (κ φ : Type) where
  path : List κ
  node : Node φ

variable {κ φ : Type} [DecidableEq κ]

/-- What a table has at a path. -/
def nodeAt (entries : Table (@Entry.path κ φ)) (p : List κ) : Option (Node φ) :=
  if p = [] then some .dir else (entries.find p).map Entry.node

/-- A tree. -/
structure Tree (κ φ : Type) [DecidableEq κ] where
  entries : Table (@Entry.path κ φ)
  named : ∀ e ∈ entries.rows, e.path ≠ []
  closed : ∀ p d, (nodeAt entries p).isSome → d <+: p → d ≠ p → nodeAt entries d = some .dir

namespace Tree

variable {t t' : Tree κ φ} {p q d : List κ} {f g : φ}

/-- What is at a path of the tree. -/
def node (t : Tree κ φ) (p : List κ) : Option (Node φ) := nodeAt t.entries p

/-- There is a directory at the path. -/
def isDir (t : Tree κ φ) (p : List κ) : Bool :=
  match t.node p with
  | some .dir => true
  | _ => false

/-- The file at the path. -/
def file (t : Tree κ φ) (p : List κ) : Option φ :=
  match t.node p with
  | some (.file f) => some f
  | _ => none

/-- The files of the tree with their paths. -/
def files (t : Tree κ φ) : List (List κ × φ) :=
  t.entries.rows.filterMap fun e =>
    match e.node with
    | .file f => some (e.path, f)
    | .dir => none

@[simp] theorem isDir_iff : t.isDir p = true ↔ t.node p = some .dir := by
  unfold isDir
  split
  · next h => exact iff_of_true rfl h
  · next h => exact iff_of_false Bool.false_ne_true h

@[simp] theorem file_eq_some_iff : t.file p = some f ↔ t.node p = some (.file f) := by
  unfold file
  split
  · next g h => rw [h, Option.some.injEq, Option.some.injEq, Node.file.injEq]
  · next h => exact iff_of_false (Option.some_ne_none f).symm (h f)

theorem node_nil : t.node [] = some .dir := by
  rw [node, nodeAt, if_pos rfl]

theorem exists_entry (hp : p ≠ []) (h : t.node p ≠ none) : ∃ e ∈ t.entries.rows, e.path = p := by
  rw [node, nodeAt, if_neg hp, Ne, Option.map_eq_none_iff] at h
  obtain ⟨e, he⟩ := Option.ne_none_iff_exists'.mp h
  exact ⟨e, Table.find_eq_some_iff.mp he⟩

theorem mem_files : (p, f) ∈ t.files ↔ t.file p = some f := by
  rw [file_eq_some_iff, files, List.mem_filterMap]
  constructor
  · rintro ⟨e, he, hfile⟩
    cases hnode : e.node with
    | dir =>
      rw [hnode] at hfile
      exact absurd hfile.symm (Option.some_ne_none _)
    | file g =>
      rw [hnode] at hfile
      obtain ⟨rfl, rfl⟩ := Prod.mk.inj (Option.some.inj hfile)
      rw [node, nodeAt, if_neg (t.named e he), Table.find_eq_some_iff.mpr ⟨he, rfl⟩,
        Option.map_some, hnode]
  · intro h
    by_cases hp : p = []
    · rw [hp, node_nil] at h
      exact absurd h (by simp)
    · rw [node, nodeAt, if_neg hp] at h
      obtain ⟨e, he, hnode⟩ := Option.map_eq_some_iff.mp h
      obtain ⟨hmem, rfl⟩ := Table.find_eq_some_iff.mp he
      exact ⟨e, hmem, by rw [hnode]⟩

theorem nodup_files : (t.files.map Prod.fst).Nodup := by
  refine t.entries.nodup.sublist ?_
  unfold files
  induction t.entries.rows with
  | nil => exact List.Sublist.refl _
  | cons e rows ih =>
    rw [List.filterMap_cons]
    cases e.node with
    | dir => exact ih.cons _
    | file f => exact ih.cons_cons _

/-- What lies above something is a directory. -/
theorem node_of_prefix (h : (t.node p).isSome) (hd : d <+: p) (hne : d ≠ p) :
    t.node d = some .dir :=
  t.closed p d h hd hne

/-- Nothing lies below a file. -/
theorem node_of_file (h : t.file d = some f) (hd : d <+: p) (hne : d ≠ p) : t.node p = none := by
  by_contra hp
  have hdir := t.node_of_prefix (Option.isSome_iff_ne_none.mpr hp) hd hne
  rw [file_eq_some_iff.mp h] at hdir
  exact absurd hdir (by simp)

omit [DecidableEq κ] in
theorem prefix_dropLast (hd : d <+: p) (hne : d ≠ p) : d <+: p.dropLast := by
  obtain ⟨rest, rfl⟩ := hd
  have hrest : rest ≠ [] := by
    rintro rfl
    exact hne (List.append_nil d).symm
  rw [List.dropLast_append_of_ne_nil hrest]
  exact List.prefix_append d _

/-! ### Changing a table -/

theorem nodeAt_upsert {entries : Table (@Entry.path κ φ)} (hp : p ≠ []) (n : Node φ)
    (q : List κ) :
    nodeAt (entries.upsert ⟨p, n⟩) q = if q = p then some n else nodeAt entries q := by
  unfold nodeAt
  split_ifs with hq hqp hqp
  · exact absurd (hqp.symm.trans hq) hp
  · rfl
  · rw [hqp]
    exact congrArg (Option.map Entry.node) Table.find_upsert_self
  · exact congrArg (Option.map Entry.node) (Table.find_upsert_of_ne hqp)

theorem nodeAt_remove {entries : Table (@Entry.path κ φ)} (hp : p ≠ []) (q : List κ) :
    nodeAt (entries.select fun e => e.path ≠ p) q = if q = p then none else nodeAt entries q := by
  unfold nodeAt
  rw [Table.find_select]
  split_ifs with hq hqp hqp
  · exact absurd (hqp.symm.trans hq) hp
  · rfl
  · rw [Option.map_eq_none_iff, Option.filter_eq_none_iff]
    intro e he
    simpa [hqp] using (Table.find_eq_some_iff.mp he).2
  · refine congrArg (Option.map Entry.node) ?_
    cases he : entries.find q with
    | none => rfl
    | some e =>
      have hpath : e.path = q := (Table.find_eq_some_iff.mp he).2
      rw [Option.filter_some, if_pos (decide_eq_true (hpath.symm ▸ hqp))]

/-- The tree with something else at a path, which lies in a directory. -/
def set (t : Tree κ φ) (p : List κ) (n : Node φ) (hp : p ≠ []) (hparent : t.isDir p.dropLast = true)
    (hn : t.isDir p = true → n = .dir) : Tree κ φ where
  entries := t.entries.upsert ⟨p, n⟩
  named e he := by
    rcases Table.mem_upsert.mp he with rfl | ⟨he, -⟩
    · exact hp
    · exact t.named e he
  closed q d hq hd hne := by
    rw [nodeAt_upsert hp] at hq ⊢
    split_ifs with hdp
    · -- something lies below the path, which was a directory then
      subst hdp
      rw [if_neg (Ne.symm hne)] at hq
      rw [hn (isDir_iff.mpr (t.closed q d hq hd hne))]
    · by_cases hqp : q = p
      · subst hqp
        have hle := prefix_dropLast hd hne
        by_cases hlast : d = q.dropLast
        · rw [hlast]
          exact isDir_iff.mp hparent
        · refine t.closed q.dropLast d ?_ hle hlast
          rw [show nodeAt t.entries q.dropLast = _ from isDir_iff.mp hparent]
          rfl
      · rw [if_neg hqp] at hq
        exact t.closed q d hq hd hne

/-- The tree without what is at a path, under which there is nothing. -/
def remove (t : Tree κ φ) (p : List κ) (hp : p ≠ [])
    (hnone : ∀ q, p <+: q → q ≠ p → t.node q = none) : Tree κ φ where
  entries := t.entries.select fun e => e.path ≠ p
  named e he := t.named e (List.mem_filter.mp he).1
  closed q d hq hd hne := by
    rw [nodeAt_remove hp] at hq ⊢
    have hqp : q ≠ p := by
      rintro rfl
      rw [if_pos rfl] at hq
      exact Bool.false_ne_true hq
    have hdp : d ≠ p := by
      rintro rfl
      rw [if_neg hqp, show nodeAt t.entries q = none from hnone q hd hqp] at hq
      exact Bool.false_ne_true hq
    rw [if_neg hqp] at hq
    rw [if_neg hdp]
    exact t.closed q d hq hd hne

/-- A tree without files and directories. -/
def empty : Tree κ φ where
  entries := Table.empty
  named _ he := absurd he List.not_mem_nil
  closed p d hp hd hne := by
    unfold nodeAt at hp
    split_ifs at hp with hnil
    · rw [hnil] at hd hne
      exact absurd (List.prefix_nil.mp hd) hne
    · exact absurd hp Bool.false_ne_true

/-! ### The operations -/

/-- A file is made or replaced. -/
def write (t : Tree κ φ) (p : List κ) (f : φ) : Option (Tree κ φ) :=
  if h : p ≠ [] ∧ t.isDir p.dropLast = true ∧ t.isDir p = false then
    some (t.set p (.file f) h.1 h.2.1 fun hp => absurd (h.2.2.symm.trans hp) Bool.false_ne_true)
  else none

/-- A directory is made. -/
def mkdir (t : Tree κ φ) (p : List κ) : Option (Tree κ φ) :=
  if h : p ≠ [] ∧ t.isDir p.dropLast = true ∧ (t.node p).isNone = true then
    some (t.set p .dir h.1 h.2.1 fun _ => rfl)
  else none

/-- A file is deleted. -/
def unlink (t : Tree κ φ) (p : List κ) : Option (Tree κ φ) :=
  if h : p ≠ [] ∧ (t.file p).isSome = true then
    some (t.remove p h.1 fun _ hq hne =>
      t.node_of_file (Option.some_get h.2).symm hq (Ne.symm hne))
  else none

/-- An empty directory is deleted. -/
def rmdir (t : Tree κ φ) (p : List κ) : Option (Tree κ φ) :=
  if h : p ≠ [] ∧ t.isDir p = true ∧ ∀ e ∈ t.entries.rows, p <+: e.path → e.path = p then
    some (t.remove p h.1 fun q hq hne => by
      by_contra hsome
      obtain ⟨e, he, rfl⟩ := exists_entry (fun hnil => h.1 (List.prefix_nil.mp (hnil ▸ hq))) hsome
      exact hne (h.2.2 e he hq))
  else none

/-- `mkdirs` below a directory that is there. -/
def mkdirsFrom (t : Tree κ φ) (d : List κ) : List κ → Option (Tree κ φ)
  | [] => some t
  | x :: rest =>
    match t.node (d ++ [x]) with
    | some .dir => mkdirsFrom t (d ++ [x]) rest
    | some (.file _) => none
    | none => (t.mkdir (d ++ [x])).bind fun t => mkdirsFrom t (d ++ [x]) rest

/-- A directory is made with those that it lies in, as far as they are not there. -/
def mkdirs (t : Tree κ φ) (p : List κ) : Option (Tree κ φ) := mkdirsFrom t [] p

/-! ### What is there afterwards -/

theorem node_set {n : Node φ} {hp : p ≠ []} {hparent : t.isDir p.dropLast = true}
    {hn : t.isDir p = true → n = .dir} (q : List κ) :
    (t.set p n hp hparent hn).node q = if q = p then some n else t.node q :=
  nodeAt_upsert hp n q

theorem node_write (h : t.write p f = some t') (q : List κ) :
    t'.node q = if q = p then some (.file f) else t.node q := by
  unfold write at h
  split_ifs at h
  rw [← Option.some.inj h, node_set]

theorem isSome_write : (t.write p f).isSome ↔ p ≠ [] ∧ t.isDir p.dropLast = true ∧
    t.isDir p = false := by
  unfold write
  split_ifs with h
  · exact iff_of_true rfl h
  · exact iff_of_false Bool.false_ne_true h

theorem node_mkdir (h : t.mkdir p = some t') (q : List κ) :
    t'.node q = if q = p then some .dir else t.node q := by
  unfold mkdir at h
  split_ifs at h
  rw [← Option.some.inj h, node_set]

theorem isSome_mkdir : (t.mkdir p).isSome ↔ p ≠ [] ∧ t.isDir p.dropLast = true ∧
    (t.node p).isNone = true := by
  unfold mkdir
  split_ifs with h
  · exact iff_of_true rfl h
  · exact iff_of_false Bool.false_ne_true h

theorem node_unlink (h : t.unlink p = some t') (q : List κ) :
    t'.node q = if q = p then none else t.node q := by
  unfold unlink at h
  split_ifs at h with hp
  rw [← Option.some.inj h]
  exact nodeAt_remove hp.1 q

theorem isSome_unlink : (t.unlink p).isSome ↔ (t.file p).isSome := by
  unfold unlink
  split_ifs with h
  · exact iff_of_true rfl h.2
  · refine iff_of_false Bool.false_ne_true fun hfile => h ⟨?_, hfile⟩
    rintro rfl
    obtain ⟨f, hf⟩ := Option.isSome_iff_exists.mp hfile
    rw [file_eq_some_iff, node_nil] at hf
    exact absurd hf (by simp)

omit [DecidableEq κ] in
/-- The paths between two, the first of which is one name shorter. -/
theorem between_cons {x : κ} {rest : List κ} : d <+: q ∧ q <+: d ++ x :: rest ↔
    q = d ∨ d ++ [x] <+: q ∧ q <+: d ++ [x] ++ rest := by
  rw [List.append_assoc, List.singleton_append]
  constructor
  · rintro ⟨⟨s, rfl⟩, hq⟩
    cases s with
    | nil => exact Or.inl (List.append_nil d)
    | cons y s =>
      rw [List.prefix_append_right_inj, List.cons_prefix_cons] at hq
      obtain ⟨rfl, hs⟩ := hq
      refine Or.inr ⟨?_, (List.prefix_append_right_inj d).mpr (List.cons_prefix_cons.mpr ⟨rfl, hs⟩)⟩
      rw [List.prefix_append_right_inj]
      exact List.cons_prefix_cons.mpr ⟨rfl, List.nil_prefix⟩
  · rintro (rfl | ⟨hd, hq⟩)
    · exact ⟨List.prefix_rfl, List.prefix_append q _⟩
    · exact ⟨(List.prefix_append d [x]).trans hd, hq⟩

/-- Directories are made where no file is in the way, and nothing else changes. -/
theorem mkdirsFrom_spec (rest : List κ) (hd : t.node d = some .dir)
    (hfree : ∀ q f, d <+: q → q <+: d ++ rest → t.node q ≠ some (.file f)) :
    ∃ t', mkdirsFrom t d rest = some t' ∧
      ∀ q, t'.node q = if d <+: q ∧ q <+: d ++ rest then some .dir else t.node q := by
  induction rest generalizing t d with
  | nil =>
    refine ⟨t, rfl, fun q => ?_⟩
    rw [List.append_nil]
    split_ifs with hq
    · rw [hq.2.eq_of_length_le (hq.1.length_le)]
      exact hd
    · rfl
  | cons x rest ih =>
    have hbelow : ∀ q f, d ++ [x] <+: q → q <+: d ++ [x] ++ rest → t.node q ≠ some (.file f) := by
      intro q f hdq hq
      obtain ⟨hdq, hq⟩ := between_cons.mpr (Or.inr ⟨hdq, hq⟩)
      exact hfree q f hdq hq
    rw [mkdirsFrom]
    cases hnode : t.node (d ++ [x]) with
    | some n =>
      cases n with
      | file f =>
        exact absurd hnode (hbelow (d ++ [x]) f List.prefix_rfl (List.prefix_append _ _))
      | dir =>
        obtain ⟨t', ht', hspec⟩ := ih hnode hbelow
        refine ⟨t', ht', fun q => ?_⟩
        rw [hspec]
        simp only [between_cons]
        by_cases hq : q = d
        · subst hq
          simp [hd]
        · simp [hq]
    | none =>
      have hdir : t.isDir (d ++ [x]).dropLast = true := by
        rw [List.dropLast_concat]
        exact isDir_iff.mpr hd
      have hfree : (t.node (d ++ [x])).isNone = true := by
        rw [hnode]
        rfl
      obtain ⟨t₁, ht₁⟩ := Option.isSome_iff_exists.mp (isSome_mkdir.mpr
        ⟨List.append_ne_nil_of_right_ne_nil d (List.cons_ne_nil x []), hdir, hfree⟩)
      have hnew := node_mkdir ht₁
      obtain ⟨t', ht', hspec⟩ := ih ((hnew _).trans (if_pos rfl)) fun q f hdq hq => by
        rw [hnew]
        split_ifs
        · simp
        · exact hbelow q f hdq hq
      refine ⟨t', by rw [ht₁]; exact ht', fun q => ?_⟩
      rw [hspec, hnew]
      simp only [between_cons]
      by_cases hq : q = d
      · subst hq
        simp [hd]
      · by_cases hx : q = d ++ [x]
        · subst hx
          simp
        · simp [hq, hx]

/-- A file in the way. -/
theorem mkdirsFrom_eq_none {rest : List κ} (hd : t.node d = some .dir) (hdq : d <+: q)
    (hq : q <+: d ++ rest) (hfile : t.node q = some (.file f)) : mkdirsFrom t d rest = none := by
  induction rest generalizing d with
  | nil =>
    rw [List.append_nil] at hq
    rw [hq.eq_of_length_le hdq.length_le, hd] at hfile
    exact absurd hfile (by simp)
  | cons x rest ih =>
    rcases between_cons.mp ⟨hdq, hq⟩ with rfl | ⟨hdq, hq⟩
    · rw [hd] at hfile
      exact absurd hfile (by simp)
    · rw [mkdirsFrom]
      cases hnode : t.node (d ++ [x]) with
      | some n =>
        cases n with
        | file g => rfl
        | dir => exact ih hnode hdq hq
      | none =>
        -- the file would lie in a directory that is not there
        have hne : d ++ [x] ≠ q := by
          rintro rfl
          exact absurd (hnode.symm.trans hfile) (Option.some_ne_none _).symm
        have hdir := t.node_of_prefix (by rw [hfile]; rfl) hdq hne
        exact absurd (hnode.symm.trans hdir) (Option.some_ne_none _).symm

theorem mkdirs_eq_none (hq : q <+: p) (hfile : t.node q = some (.file f)) : t.mkdirs p = none :=
  mkdirsFrom_eq_none node_nil List.nil_prefix hq hfile

theorem mkdirs_spec (hfree : ∀ q f, q <+: p → t.node q ≠ some (.file f)) :
    ∃ t', t.mkdirs p = some t' ∧
      ∀ q, t'.node q = if q <+: p then some .dir else t.node q := by
  obtain ⟨t', ht', hspec⟩ := mkdirsFrom_spec p node_nil fun q f _ hq => hfree q f hq
  refine ⟨t', ht', fun q => ?_⟩
  rw [hspec q, List.nil_append]
  simp only [List.nil_prefix, true_and]

/-- What is there after `mkdirs`, if it does not fail. -/
theorem node_mkdirs (h : t.mkdirs p = some t') (q : List κ) :
    t'.node q = if q <+: p then some .dir else t.node q := by
  obtain ⟨t'', ht'', hspec⟩ := t.mkdirs_spec (p := p) fun q f hq hfile => by
    rw [mkdirs_eq_none hq hfile] at h
    exact Option.some_ne_none t' h.symm
  obtain rfl := Option.some.inj (h.symm.trans ht'')
  exact hspec q

end Tree

end FileTree

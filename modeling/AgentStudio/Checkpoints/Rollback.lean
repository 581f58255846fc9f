import AgentStudio.Library.Dict
import AgentStudio.Library.FileTree
import AgentStudio.Library.Text

/-!
# Snapshots of a directory and what a rollback brings back

`FileCheckpointStore` of `agent_runtime/file_checkpoint.py`: `snapshot` copies the files of a
directory, up to a number and a size, and `rollback` copies them back and deletes the files that
seem to have been made since.

The directory is a tree of files and directories, without links; its order stands for the one in
which `os.walk` comes upon the files. The store is not in it (or in a directory that is left out),
and gives back the snapshots as they were taken. A path is relative to the directory. Reading and
writing fail only where the tree makes them, and the digest is a parameter.

After a rollback, the files of the snapshot should have the content that they had, and no file
should be gone that was there when the snapshot was taken and was still there before the rollback
(`Undone`). A snapshot leaves files out, by its limits and by directories that it is told to
exclude; `rollback` takes those of them that were changed since for new ones. It does not clear the
way for a file either. `undone_iff_safe` says that nothing else is wrong.
-/

namespace AgentStudio.Checkpoints

open PyText PyDict FileTree

abbrev Path := List Str

structure File where
  content : List UInt8
  mtime : ℤ
  mode : ℕ
deriving DecidableEq

abbrev Workspace := Tree Str File

/-- `DEFAULT_EXCLUDES`. -/
def defaultExcludes : List Str :=
  [".git", ".venv", "node_modules", "__pycache__", ".pytest_cache", ".mypy_cache", ".ruff_cache",
    "dist", "build", ".vite", ".next", ".codegraph", "file_checkpoints"].map String.toList

/-- `MAX_FILES`. -/
def maxFiles : ℕ := 5000

/-- `MAX_BYTES`. -/
def maxBytes : ℕ := 50 * 1024 * 1024

/-- `_iter_files`. -/
def iterFiles (t : Workspace) (exclude : List Str) : List (Path × File) :=
  t.files.filter fun e => e.1.dropLast.all fun d => decide (d ∉ exclude)

/-! ### Taking a snapshot -/

structure FileInfo where
  sha256 : Str
  size : ℕ
  mode : ℕ
deriving DecidableEq

/-- A snapshot: the manifest, and the copies of the files under their digests. -/
structure Snapshot where
  files : List (Path × FileInfo)
  blobs : List (Str × File)
  bytes : ℕ
  skipped : ℕ
  createdAt : ℤ

/-- The loop of `snapshot`: a file is copied or skipped. -/
def Snapshot.add (digest : List UInt8 → Str) (s : Snapshot) (e : Path × File) : Snapshot :=
  let size := e.2.content.length
  if maxFiles ≤ s.files.length ∨ maxBytes < s.bytes + size then { s with skipped := s.skipped + 1 }
  else
    let sha256 := digest e.2.content
    { s with
      files := setItem e.1 ⟨sha256, size, e.2.mode⟩ s.files
      blobs := if (s.blobs.lookup sha256).isSome then s.blobs else setItem sha256 e.2 s.blobs
      bytes := s.bytes + size }

/-- `snapshot`. -/
def snapshot (digest : List UInt8 → Str) (t : Workspace) (exclude : List Str) (createdAt : ℤ) :
    Snapshot :=
  (iterFiles t (defaultExcludes ++ exclude)).foldl (Snapshot.add digest) ⟨[], [], 0, 0, createdAt⟩

/-! ### Rolling back -/

/-- What goes wrong with a file: there is no copy of it, or the system refuses. -/
inductive RollbackError
  | missingBlob (path : Path)
  | system (path : Path)
deriving DecidableEq

/-- `shutil.copy2`, into the directory if there is one at the path, and `os.chmod`. -/
def copy2 (t : Workspace) (sha256 : Str) (blob : File) (dest : Path) (mode : ℕ) :
    Option Workspace :=
  if t.isDir dest then t.write (dest ++ [sha256]) blob else t.write dest { blob with mode }

/-- The first loop of `rollback`: a file is copied back. -/
def restoreFile (s : Snapshot) (t : Workspace) (e : Path × FileInfo) :
    Option RollbackError × Workspace :=
  match s.blobs.lookup e.2.sha256 with
  | none => (some (.missingBlob e.1), t)
  | some blob =>
    match t.mkdirs e.1.dropLast with
    | none => (some (.system e.1), t)
    | some t =>
      match copy2 t e.2.sha256 blob e.1 e.2.mode with
      | none => (some (.system e.1), t)
      | some t => (none, t)

def restoreFiles (s : Snapshot) :
    List (Path × FileInfo) → Workspace → List RollbackError × Workspace
  | [], t => ([], t)
  | e :: es, t =>
    let (error, t) := restoreFile s t e
    let (errors, t) := restoreFiles s es t
    (error.toList ++ errors, t)

/-- The files that are taken for new ones: those that the manifest does not have and that were
changed since. -/
def created (s : Snapshot) (t : Workspace) : List Path :=
  ((iterFiles t defaultExcludes).filter fun e =>
    (s.files.lookup e.1).isNone && !decide (e.2.mtime < s.createdAt)).map Prod.fst

def removeFiles : List Path → Workspace → List RollbackError × Workspace
  | [], t => ([], t)
  | p :: ps, t =>
    match t.unlink p with
    | none =>
      let (errors, t) := removeFiles ps t
      (.system p :: errors, t)
    | some t => removeFiles ps t

/-- What `rollback` returns. -/
structure Report where
  ok : Bool
  restored : ℕ
  removed : ℕ
  errors : List RollbackError

/-- `rollback`. -/
def rollback (s : Snapshot) (t : Workspace) : Report × Workspace :=
  let (errors, t) := restoreFiles s s.files t
  let paths := created s t
  let (errors', t) := removeFiles paths t
  ({ ok := (errors ++ errors').isEmpty
     restored := s.files.length - errors.length
     removed := paths.length - errors'.length
     errors := errors ++ errors' }, t)

/-! ### Changes -/

inductive Change
  | write (path : Path) (file : File)
  | unlink (path : Path)
  | mkdir (path : Path)
  | rmdir (path : Path)

/-- The directory after a change; one that is not possible does nothing. -/
def change (t : Workspace) : Change → Workspace
  | .write path file => (t.write path file).getD t
  | .unlink path => (t.unlink path).getD t
  | .mkdir path => (t.mkdir path).getD t
  | .rmdir path => (t.rmdir path).getD t

/-! ### The law -/

def Snapshot.Records (s : Snapshot) (p : Path) : Prop := (s.files.lookup p).isSome

/-- The law of a rollback, for the directory when the snapshot was taken and the one before the
rollback. -/
structure Undone (s : Snapshot) (t t' : Workspace) : Prop where
  restored : ∀ p, s.Records p → ∃ f ∈ t.file p, ∃ g ∈ (rollback s t').2.file p,
    g.content = f.content
  kept : ∀ p, (t.file p).isSome → (t'.file p).isSome → ((rollback s t').2.file p).isSome

/-! ### When it holds -/

/-- A file can be written at a path: there is no directory, and no file lies above it. -/
def Clear (t : Workspace) (p : Path) : Prop :=
  t.isDir p = false ∧ ∀ d, d <+: p → d ≠ p → t.file d = none

/-- The condition: nothing is in the way of the files that the snapshot has, no two of them have the
same digest and differ, and the files that it does not have were not changed since, unless they are
where `rollback` does not look. -/
structure Safe (digest : List UInt8 → Str) (s : Snapshot) (t t' : Workspace) : Prop where
  clear : ∀ p, s.Records p → Clear t' p
  digests : ∀ p q f g, s.Records p → s.Records q → t.file p = some f → t.file q = some g →
    digest f.content = digest g.content → f.content = g.content
  old : ∀ p, (t.file p).isSome → ¬ s.Records p →
    ∀ f, (p, f) ∈ iterFiles t' defaultExcludes → f.mtime < s.createdAt

/-! ### Snapshots -/

structure Snapshot.Of (digest : List UInt8 → Str) (t : Workspace) (s : Snapshot) : Prop where
  nodup : (s.files.map Prod.fst).Nodup
  file : ∀ p info, s.files.lookup p = some info →
    ∃ f, t.file p = some f ∧ info.sha256 = digest f.content
  blob : ∀ p info, s.files.lookup p = some info → (s.blobs.lookup info.sha256).isSome
  source : ∀ d blob, s.blobs.lookup d = some blob → ∃ p f, s.Records p ∧ t.file p = some f ∧
    digest f.content = d ∧ f.content = blob.content

section

variable {digest : List UInt8 → Str} {s : Snapshot} {t t' u u' : Workspace} {p q d : Path}
  {f : File} {info : FileInfo}

/-- A file gets into the manifest, and its copy among the copies if there is none with its digest.
-/
theorem Snapshot.Of.put (hs : s.Of digest t) (hf : t.file p = some f)
    (hp : s.files.lookup p = none) {blobs : List (Str × File)}
    (hblob : ∀ d, (s.blobs.lookup d).isSome ∨ d = digest f.content → (blobs.lookup d).isSome)
    (hsource : ∀ d blob, blobs.lookup d = some blob →
      s.blobs.lookup d = some blob ∨ d = digest f.content ∧ blob = f) (size mode bytes : ℕ) :
    Snapshot.Of digest t { s with
      files := setItem p ⟨digest f.content, size, mode⟩ s.files, blobs, bytes } := by
  refine ⟨nodup_setItem hs.nodup, fun q info hq => ?_, fun q info hq => ?_, fun d blob hd => ?_⟩
  · rw [lookup_setItem] at hq
    split_ifs at hq with hqp
    · rw [hqp, ← Option.some.inj hq]
      exact ⟨f, hf, rfl⟩
    · exact hs.file q info hq
  · rw [lookup_setItem] at hq
    split_ifs at hq with hqp
    · rw [← Option.some.inj hq]
      exact hblob _ (Or.inr rfl)
    · exact hblob _ (Or.inl (hs.blob q info hq))
  · rcases hsource d blob hd with hold | ⟨rfl, rfl⟩
    · obtain ⟨q, g, hq, hg, hdigest, hcontent⟩ := hs.source d blob hold
      refine ⟨q, g, ?_, hg, hdigest, hcontent⟩
      have hqp : q ≠ p := by
        rintro rfl
        rw [Snapshot.Records, hp] at hq
        exact Bool.false_ne_true hq
      rw [Snapshot.Records, lookup_setItem, if_neg hqp]
      exact hq
    · refine ⟨p, blob, ?_, hf, rfl, rfl⟩
      rw [Snapshot.Records, lookup_setItem, if_pos rfl]
      rfl

theorem Snapshot.Of.add (hs : s.Of digest t) (hf : t.file p = some f)
    (hp : s.files.lookup p = none) : (s.add digest (p, f)).Of digest t := by
  unfold Snapshot.add
  dsimp only
  split_ifs with hlimit hblob
  · exact ⟨hs.nodup, hs.file, hs.blob, hs.source⟩
  · refine hs.put hf hp (fun d hd => hd.elim id ?_) (fun d blob hd => Or.inl hd) _ _ _
    rintro rfl
    exact hblob
  · refine hs.put hf hp (fun d hd => ?_) (fun d blob hd => ?_) _ _ _
    · rw [lookup_setItem]
      split_ifs with hdigest
      · rfl
      · exact hd.resolve_right hdigest
    · rw [lookup_setItem] at hd
      split_ifs at hd with hdigest
      · exact Or.inr ⟨hdigest, (Option.some.inj hd).symm⟩
      · exact Or.inl hd

theorem lookup_add (hp : q ≠ p) : (s.add digest (p, f)).files.lookup q = s.files.lookup q := by
  unfold Snapshot.add
  dsimp only
  split_ifs
  · rfl
  all_goals rw [lookup_setItem, if_neg hp]

theorem Snapshot.Of.foldl {es : List (Path × File)} (hs : s.Of digest t)
    (hes : ∀ e ∈ es, t.file e.1 = some e.2) (hnodup : (es.map Prod.fst).Nodup)
    (hnew : ∀ e ∈ es, s.files.lookup e.1 = none) :
    (es.foldl (Snapshot.add digest) s).Of digest t := by
  induction es generalizing s with
  | nil => exact hs
  | cons e es ih =>
    obtain ⟨p, f⟩ := e
    rw [List.map_cons, List.nodup_cons] at hnodup
    have hadd := hs.add (hes _ List.mem_cons_self) (hnew _ List.mem_cons_self)
    refine ih hadd (fun e he => hes e (List.mem_cons_of_mem _ he)) hnodup.2 fun e he => ?_
    have hne : e.1 ≠ p := fun heq => hnodup.1 (List.mem_map.mpr ⟨e, he, heq⟩)
    rw [lookup_add hne]
    exact hnew e (List.mem_cons_of_mem _ he)

theorem mem_iterFiles {exclude : List Str} : (p, f) ∈ iterFiles t exclude ↔
    t.file p = some f ∧ ∀ d ∈ p.dropLast, d ∉ exclude := by
  rw [iterFiles, List.mem_filter, Tree.mem_files, List.all_eq_true]
  simp only [decide_eq_true_eq]

theorem snapshot_of (digest : List UInt8 → Str) (t : Workspace) (exclude : List Str)
    (createdAt : ℤ) : (snapshot digest t exclude createdAt).Of digest t := by
  have hempty : Snapshot.Of digest t ⟨[], [], 0, 0, createdAt⟩ :=
    ⟨List.nodup_nil, fun _ _ h => absurd h.symm (Option.some_ne_none _),
      fun _ _ h => absurd h.symm (Option.some_ne_none _),
      fun _ _ h => absurd h.symm (Option.some_ne_none _)⟩
  refine hempty.foldl (fun e he => (mem_iterFiles.mp he).1) ?_ fun e _ => rfl
  exact Tree.nodup_files.sublist (List.filter_sublist.map _)

theorem Snapshot.Of.eq_of_prefix (hs : s.Of digest t) (hp : s.Records p) (hq : s.Records q)
    (h : p <+: q) : p = q := by
  by_contra hne
  obtain ⟨info, hinfo⟩ := Option.isSome_iff_exists.mp hp
  obtain ⟨info', hinfo'⟩ := Option.isSome_iff_exists.mp hq
  obtain ⟨f, hf, -⟩ := hs.file p info hinfo
  obtain ⟨g, hg, -⟩ := hs.file q info' hinfo'
  have hnone := Tree.node_of_file hf h hne
  rw [Tree.file_eq_some_iff.mp hg] at hnone
  exact Option.some_ne_none _ hnone

/-! ### Copying files back -/

theorem file_of_node_eq (h : ∀ x, t.node p = some (.file x) ↔ u.node q = some (.file x)) :
    t.file p = u.file q := by
  refine Option.ext fun x => ?_
  rw [Tree.file_eq_some_iff, Tree.file_eq_some_iff]
  exact h x

theorem restoreFile_of_clear {blob : File} (hp : p ≠ []) (hclear : Clear u p)
    (hblob : s.blobs.lookup info.sha256 = some blob) :
    ∃ u', restoreFile s u (p, info) = (none, u') ∧
      ∀ q, u'.node q = if q = p then some (.file { blob with mode := info.mode })
        else if q <+: p.dropLast then some .dir else u.node q := by
  have hparent : ∀ q, q <+: p.dropLast → q <+: p ∧ q ≠ p := by
    intro q hq
    refine ⟨hq.trans (List.dropLast_prefix p), ?_⟩
    rintro rfl
    have hlength := hq.length_le
    rw [List.length_dropLast] at hlength
    have hpos := List.length_pos_iff.mpr hp
    omega
  obtain ⟨u₁, hmkdirs, hnode⟩ := u.mkdirs_spec (p := p.dropLast) fun q f hq hfile => by
    obtain ⟨hqp, hne⟩ := hparent q hq
    have hnone := hclear.2 q hqp hne
    rw [Tree.file_eq_some_iff.mpr hfile] at hnone
    exact Option.some_ne_none f hnone
  have hself : u₁.node p = u.node p := by
    rw [hnode, if_neg fun hpp => (hparent p hpp).2 rfl]
  have hdir : u₁.isDir p = false := by
    rw [← hclear.1, Tree.isDir, Tree.isDir, hself]
  have hwrite : (u₁.write p { blob with mode := info.mode }).isSome := by
    refine Tree.isSome_write.mpr ⟨hp, Tree.isDir_iff.mpr ?_, hdir⟩
    rw [hnode, if_pos List.prefix_rfl]
  obtain ⟨u', hu'⟩ := Option.isSome_iff_exists.mp hwrite
  refine ⟨u', ?_, fun q => ?_⟩
  · unfold restoreFile copy2
    simp only [hblob, hmkdirs, hdir, Bool.false_eq_true, if_false, hu']
  · rw [Tree.node_write hu', hnode]

theorem Clear.restore (hs : s.Of digest t) (hp : s.Records p) (hq : s.Records q) (hne : q ≠ p)
    {f : File} (hclear : Clear u q)
    (hnode : ∀ q, u'.node q = if q = p then some (.file f)
      else if q <+: p.dropLast then some .dir else u.node q) : Clear u' q := by
  have hapart : ¬ q <+: p.dropLast := fun h =>
    hne (hs.eq_of_prefix hq hp (h.trans (List.dropLast_prefix p)))
  refine ⟨?_, fun d hd hdq => ?_⟩
  · rw [← hclear.1, Tree.isDir, Tree.isDir, hnode, if_neg hne, if_neg hapart]
  · have hdp : d ≠ p := by
      rintro rfl
      exact hdq (hs.eq_of_prefix hp hq hd)
    refine Option.eq_none_iff_forall_ne_some.mpr fun x hx => ?_
    rw [Tree.file_eq_some_iff, hnode, if_neg hdp] at hx
    split_ifs at hx with hdir
    · exact absurd hx (by simp)
    · have hnone := hclear.2 d hd hdq
      rw [Tree.file_eq_some_iff.mpr hx] at hnone
      exact Option.some_ne_none x hnone

theorem restoreFiles_of_clear (hs : s.Of digest t) {es : List (Path × FileInfo)}
    (hes : ∀ e ∈ es, s.files.lookup e.1 = some e.2) (hnodup : (es.map Prod.fst).Nodup)
    (hclear : ∀ e ∈ es, Clear u e.1) :
    (∀ e ∈ es, ∃ blob ∈ s.blobs.lookup e.2.sha256, ∃ g ∈ (restoreFiles s es u).2.file e.1,
      g.content = blob.content) ∧
      ∀ q, q ∉ es.map Prod.fst → (restoreFiles s es u).2.file q = u.file q := by
  induction es generalizing u with
  | nil => exact ⟨List.forall_mem_nil _, fun q _ => rfl⟩
  | cons e es ih =>
    obtain ⟨p, info⟩ := e
    rw [List.map_cons, List.nodup_cons] at hnodup
    have hlookup := hes _ List.mem_cons_self
    have hp : s.Records p := Option.isSome_iff_exists.mpr ⟨info, hlookup⟩
    have hpnil : p ≠ [] := by
      rintro rfl
      obtain ⟨f, hf, -⟩ := hs.file [] info hlookup
      rw [Tree.file_eq_some_iff, Tree.node_nil] at hf
      exact absurd hf (by simp)
    obtain ⟨blob, hblob⟩ := Option.isSome_iff_exists.mp (hs.blob p info hlookup)
    obtain ⟨u', hrestore, hnode⟩ := restoreFile_of_clear hpnil (hclear _ List.mem_cons_self) hblob
    have htail : (restoreFiles s ((p, info) :: es) u).2 = (restoreFiles s es u').2 := by
      rw [restoreFiles, hrestore]
    obtain ⟨hback, hother⟩ := ih (u := u') (fun e he => hes e (List.mem_cons_of_mem _ he)) hnodup.2
      fun e he => by
        have hq : s.Records e.1 := Option.isSome_iff_exists.mpr
          ⟨e.2, hes e (List.mem_cons_of_mem _ he)⟩
        have hne : e.1 ≠ p := fun heq => hnodup.1 (List.mem_map.mpr ⟨e, he, heq⟩)
        exact (hclear e (List.mem_cons_of_mem _ he)).restore hs hp hq hne hnode
    rw [htail]
    refine ⟨fun e he => ?_, fun q hq => ?_⟩
    · rcases List.mem_cons.mp he with rfl | he
      · refine ⟨blob, hblob, { blob with mode := info.mode }, ?_, rfl⟩
        rw [hother p hnodup.1, Option.mem_def, Tree.file_eq_some_iff, hnode, if_pos rfl]
      · exact hback e he
    · rw [List.map_cons, List.mem_cons, not_or] at hq
      rw [hother q hq.2]
      refine file_of_node_eq fun x => ?_
      rw [hnode, if_neg hq.1]
      split_ifs with hdir
      · -- what lies above the file is a directory, before and after
        refine iff_of_false (by simp) fun hx => ?_
        have hqp : q <+: p := hdir.trans (List.dropLast_prefix p)
        have hnone := (hclear _ List.mem_cons_self).2 q hqp hq.1
        rw [Tree.file_eq_some_iff.mpr hx] at hnone
        exact Option.some_ne_none x hnone
      · exact Iff.rfl

/-! ### Deleting files -/

theorem removeFiles_spec {ps : List Path} (hps : ∀ p ∈ ps, (u.file p).isSome) (hnodup : ps.Nodup)
    (q : Path) : (removeFiles ps u).2.file q = if q ∈ ps then none else u.file q := by
  induction ps generalizing u with
  | nil => rw [removeFiles, if_neg List.not_mem_nil]
  | cons p ps ih =>
    obtain ⟨hp, hnodup⟩ := List.nodup_cons.mp hnodup
    obtain ⟨u', hu'⟩ := Option.isSome_iff_exists.mp
      (Tree.isSome_unlink.mpr (hps p List.mem_cons_self))
    have hfile : ∀ q, u'.file q = if q = p then none else u.file q := by
      intro q
      unfold Tree.file
      rw [Tree.node_unlink hu']
      by_cases hq : q = p
      · rw [if_pos hq, if_pos hq]
      · rw [if_neg hq, if_neg hq]
    rw [removeFiles, hu']
    dsimp only
    rw [ih (fun x hx => ?_) hnodup, hfile]
    · by_cases hq : q = p
      · simp [hq]
      · simp [hq]
    · have hne : x ≠ p := fun heq => hp (heq ▸ hx)
      rw [hfile, if_neg hne]
      exact hps x (List.mem_cons_of_mem _ hx)

theorem mem_created : p ∈ created s u ↔ ∃ f, (p, f) ∈ iterFiles u defaultExcludes ∧
    ¬ s.Records p ∧ s.createdAt ≤ f.mtime := by
  unfold created Snapshot.Records
  simp only [List.mem_map, List.mem_filter, Prod.exists, exists_and_right, exists_eq_right,
    Bool.and_eq_true, Option.isNone_iff_eq_none, Bool.not_eq_true', decide_eq_false_iff_not, not_lt,
    Option.not_isSome_iff_eq_none]

/-! ### What is in the way -/

structure Stays (u u' : Workspace) : Prop where
  dir : ∀ q, u.isDir q = true → u'.isDir q = true
  file : ∀ q, (u.file q).isSome → (u'.file q).isSome

theorem Stays.refl (u : Workspace) : Stays u u := ⟨fun _ h => h, fun _ h => h⟩

theorem Stays.trans {u'' : Workspace} (h : Stays u u') (h' : Stays u' u'') : Stays u u'' :=
  ⟨fun q hq => h'.dir q (h.dir q hq), fun q hq => h'.file q (h.file q hq)⟩

theorem stays_mkdirs (h : u.mkdirs p = some u') : Stays u u' := by
  refine ⟨fun q hq => ?_, fun q hq => ?_⟩
  · rw [Tree.isDir_iff, Tree.node_mkdirs h]
    split_ifs
    · rfl
    · exact Tree.isDir_iff.mp hq
  · obtain ⟨f, hf⟩ := Option.isSome_iff_exists.mp hq
    rw [Tree.file_eq_some_iff] at hf
    have hapart : ¬ q <+: p := by
      intro hqp
      rw [Tree.mkdirs_eq_none hqp hf] at h
      exact Option.some_ne_none u' h.symm
    rw [file_of_node_eq (u := u) (q := q) fun x => by rw [Tree.node_mkdirs h, if_neg hapart]]
    exact hq

theorem stays_write (h : u.write p f = some u') : Stays u u' := by
  refine ⟨fun q hq => ?_, fun q hq => ?_⟩
  · have hqp : q ≠ p := by
      rintro rfl
      have hnot := (Tree.isSome_write.mp (Option.isSome_iff_exists.mpr ⟨u', h⟩)).2.2
      exact Bool.false_ne_true (hnot.symm.trans hq)
    rw [Tree.isDir_iff, Tree.node_write h, if_neg hqp]
    exact Tree.isDir_iff.mp hq
  · by_cases hqp : q = p
    · subst hqp
      refine Option.isSome_iff_exists.mpr ⟨f, ?_⟩
      rw [Tree.file_eq_some_iff, Tree.node_write h, if_pos rfl]
    · rw [file_of_node_eq (u := u) (q := q) fun x => by rw [Tree.node_write h, if_neg hqp]]
      exact hq

theorem stays_restoreFile (e : Path × FileInfo) : Stays u (restoreFile s u e).2 := by
  unfold restoreFile
  split
  · exact Stays.refl u
  · split
    · exact Stays.refl u
    · next u₁ hmkdirs =>
      have hfirst := stays_mkdirs hmkdirs
      split
      · exact hfirst
      · next u₂ hcopy =>
        refine hfirst.trans ?_
        unfold copy2 at hcopy
        split_ifs at hcopy
        all_goals exact stays_write hcopy

theorem stays_restoreFiles (es : List (Path × FileInfo)) : Stays u (restoreFiles s es u).2 := by
  induction es generalizing u with
  | nil => exact Stays.refl u
  | cons e es ih => exact (stays_restoreFile e).trans ih

theorem removeFiles_leaves (ps : List Path) :
    (∀ q, u.isDir q = true → (removeFiles ps u).2.isDir q = true) ∧
      ∀ q, u.node q = none → (removeFiles ps u).2.node q = none := by
  induction ps generalizing u with
  | nil => exact ⟨fun q h => h, fun q h => h⟩
  | cons p ps ih =>
    rw [removeFiles]
    cases hunlink : u.unlink p with
    | none => exact ih
    | some u' =>
      refine ⟨fun q hq => ih.1 q ?_, fun q hq => ih.2 q ?_⟩
      · have hqp : q ≠ p := by
          rintro rfl
          obtain ⟨f, hf⟩ := Option.isSome_iff_exists.mp
            (Tree.isSome_unlink.mp (Option.isSome_iff_exists.mpr ⟨u', hunlink⟩))
          rw [Tree.file_eq_some_iff, Tree.isDir_iff.mp hq] at hf
          exact absurd hf (by simp)
        rw [Tree.isDir_iff, Tree.node_unlink hunlink, if_neg hqp]
        exact Tree.isDir_iff.mp hq
      · rw [Tree.node_unlink hunlink]
        split_ifs
        · rfl
        · exact hq

theorem clear_of_restored (h : ((rollback s t').2.file p).isSome) : Clear t' p := by
  have hrollback : (rollback s t').2 =
      (removeFiles (created s (restoreFiles s s.files t').2) (restoreFiles s s.files t').2).2 := rfl
  have hstays : Stays t' (restoreFiles s s.files t').2 := stays_restoreFiles s.files
  obtain ⟨hdirs, hnothing⟩ := removeFiles_leaves (u := (restoreFiles s s.files t').2)
    (created s (restoreFiles s s.files t').2)
  obtain ⟨f, hf⟩ := Option.isSome_iff_exists.mp h
  rw [hrollback, Tree.file_eq_some_iff] at hf
  refine ⟨?_, fun d hd hdp => ?_⟩
  · by_contra hdir
    have hdir' := hdirs p (hstays.dir p (by simpa using hdir))
    rw [Tree.isDir_iff, hf] at hdir'
    exact absurd hdir' (by simp)
  · by_contra hfile
    obtain ⟨g, hg⟩ := Option.isSome_iff_exists.mp
      (hstays.file d (Option.isSome_iff_ne_none.mpr hfile))
    have hnone := hnothing p (Tree.node_of_file hg hd hdp)
    rw [hf] at hnone
    exact Option.some_ne_none _ hnone

/-! ### The law and the condition -/

theorem Snapshot.Of.notMem_keys (hs : s.Of digest t) (hp : ¬ s.Records p) :
    p ∉ s.files.map Prod.fst := by
  intro hmem
  obtain ⟨⟨p', info⟩, he, rfl⟩ := List.mem_map.mp hmem
  exact hp (Option.isSome_iff_exists.mpr ⟨info, lookup_of_mem hs.nodup he⟩)

/-- Where the way is clear for all files of the snapshot, they have the contents of their copies,
and of the others those that are taken for new ones are gone. -/
theorem rollback_of_clear (hs : s.Of digest t) (hclear : ∀ p, s.Records p → Clear t' p) :
    (∀ p info, s.files.lookup p = some info → ∃ blob ∈ s.blobs.lookup info.sha256,
      ∃ g ∈ (rollback s t').2.file p, g.content = blob.content) ∧
      ∀ p, ¬ s.Records p → (((rollback s t').2.file p).isSome ↔ (t'.file p).isSome ∧
        ∀ f, (p, f) ∈ iterFiles t' defaultExcludes → f.mtime < s.createdAt) := by
  obtain ⟨hback, hother⟩ := restoreFiles_of_clear (u := t') hs
    (fun e he => lookup_of_mem hs.nodup he) hs.nodup
    fun e he => hclear e.1 (Option.isSome_iff_exists.mpr ⟨e.2, lookup_of_mem hs.nodup he⟩)
  have hremove : ∀ q, (rollback s t').2.file q =
      if q ∈ created s (restoreFiles s s.files t').2 then none
      else (restoreFiles s s.files t').2.file q := by
    refine removeFiles_spec (fun q hq => ?_) ?_
    · obtain ⟨f, hf, -⟩ := mem_created.mp hq
      rw [(mem_iterFiles.mp hf).1]
      rfl
    · have hfiles := Tree.nodup_files (t := (restoreFiles s s.files t').2)
      exact hfiles.sublist ((List.filter_sublist.trans List.filter_sublist).map Prod.fst)
  refine ⟨fun p info hp => ?_, fun p hp => ?_⟩
  · have hnot : p ∉ created s (restoreFiles s s.files t').2 := by
      intro hmem
      obtain ⟨f, -, hnew, -⟩ := mem_created.mp hmem
      exact hnew (Option.isSome_iff_exists.mpr ⟨info, hp⟩)
    rw [hremove, if_neg hnot]
    exact hback (p, info) (mem_of_lookup hp)
  · have hsame := hother p (hs.notMem_keys hp)
    have hcreated : p ∈ created s (restoreFiles s s.files t').2 ↔
        ∃ f, (p, f) ∈ iterFiles t' defaultExcludes ∧ s.createdAt ≤ f.mtime := by
      rw [mem_created]
      simp only [mem_iterFiles, hsame, hp, not_false_eq_true, true_and]
    rw [hremove, hsame]
    constructor
    · intro h
      by_cases hmem : p ∈ created s (restoreFiles s s.files t').2
      · rw [if_pos hmem] at h
        exact absurd h Bool.false_ne_true
      · rw [if_neg hmem] at h
        refine ⟨h, fun f hf => ?_⟩
        by_contra hold
        exact hmem (hcreated.mpr ⟨f, hf, not_lt.mp hold⟩)
    · rintro ⟨h, hold⟩
      rw [if_neg]
      · exact h
      · intro hmem
        obtain ⟨f, hf, hnew⟩ := hcreated.mp hmem
        exact absurd (hold f hf) (not_lt.mpr hnew)

theorem undone_iff (hs : s.Of digest t) : Undone s t t' ↔ Safe digest s t t' := by
  constructor
  · intro h
    have hclear : ∀ p, s.Records p → Clear t' p := by
      intro p hp
      obtain ⟨f, -, g, hg, -⟩ := h.restored p hp
      exact clear_of_restored (Option.isSome_iff_exists.mpr ⟨g, hg⟩)
    obtain ⟨hback, hother⟩ := rollback_of_clear hs hclear
    -- each file has the content of the copy with its digest
    have hcopy : ∀ p f, s.Records p → t.file p = some f →
        ∃ blob ∈ s.blobs.lookup (digest f.content), f.content = blob.content := by
      intro p f hp hf
      obtain ⟨info, hinfo⟩ := Option.isSome_iff_exists.mp hp
      obtain ⟨f', hf', hdigest⟩ := hs.file p info hinfo
      obtain ⟨blob, hblob, g, hg, hcontent⟩ := hback p info hinfo
      obtain ⟨f'', hf'', g', hg', hsame⟩ := h.restored p hp
      obtain rfl := Option.some.inj (hf.symm.trans hf')
      obtain rfl := Option.some.inj (hf.symm.trans hf'')
      obtain rfl := Option.some.inj (hg.symm.trans hg')
      exact ⟨blob, hdigest ▸ hblob, hsame.symm.trans hcontent⟩
    refine ⟨hclear, fun p q f g hp hq hf hg hdigest => ?_, fun p hp hnew f hf => ?_⟩
    · obtain ⟨blob, hblob, hcontent⟩ := hcopy p f hp hf
      obtain ⟨blob', hblob', hcontent'⟩ := hcopy q g hq hg
      rw [hdigest] at hblob
      obtain rfl := Option.some.inj (hblob.symm.trans hblob')
      exact hcontent.trans hcontent'.symm
    · have hthere : (t'.file p).isSome := by
        rw [(mem_iterFiles.mp hf).1]
        rfl
      exact ((hother p hnew).mp (h.kept p hp hthere)).2 f hf
  · intro h
    obtain ⟨hback, hother⟩ := rollback_of_clear hs h.clear
    have hrestored : ∀ p, s.Records p → ∃ f ∈ t.file p, ∃ g ∈ (rollback s t').2.file p,
        g.content = f.content := by
      intro p hp
      obtain ⟨info, hinfo⟩ := Option.isSome_iff_exists.mp hp
      obtain ⟨f, hf, hdigest⟩ := hs.file p info hinfo
      obtain ⟨blob, hblob, g, hg, hcontent⟩ := hback p info hinfo
      obtain ⟨q, f', hq, hf', hdigest', hcontent'⟩ := hs.source _ blob hblob
      refine ⟨f, hf, g, hg, hcontent.trans ?_⟩
      rw [← hcontent']
      exact h.digests q p f' f hq hp hf' hf (hdigest'.trans hdigest)
    refine ⟨hrestored, fun p hp hthere => ?_⟩
    by_cases hrec : s.Records p
    · obtain ⟨-, -, g, hg, -⟩ := hrestored p hrec
      exact Option.isSome_iff_exists.mpr ⟨g, hg⟩
    · exact (hother p hrec).mpr ⟨hthere, h.old p hp hrec⟩

end

/-- For every directory, every snapshot of it and all changes to it, a rollback keeps the law
exactly if the condition holds before it. -/
theorem undone_iff_safe (digest : List UInt8 → Str) (t : Workspace) (exclude : List Str)
    (createdAt : ℤ) (changes : List Change) :
    Undone (snapshot digest t exclude createdAt) t (changes.foldl change t) ↔
      Safe digest (snapshot digest t exclude createdAt) t (changes.foldl change t) :=
  undone_iff (snapshot_of digest t exclude createdAt)

/-- A directory with one file, in a directory of its own. -/
def oneLog : Workspace :=
  [.mkdir ["logs"], .write ["logs", "a"] ⟨[1], 10, 0⟩].foldl change Tree.empty

/-- A file that the snapshot was told to leave out is changed, and deleted by the rollback. -/
theorem excluded_file_deleted : ¬ ∀ (digest : List UInt8 → Str) (t : Workspace)
    (exclude : List Str) (createdAt : ℤ) (changes : List Change),
    Undone (snapshot digest t exclude createdAt) t (changes.foldl change t) := by
  intro hall
  have hundone := hall (fun _ => []) oneLog ["logs"] 20
    [.write ["logs", "a"] ⟨[2], 30, 0⟩]
  have hkept := hundone.kept ["logs", "a"] (by decide) (by decide)
  exact absurd hkept (by decide)

end AgentStudio.Checkpoints

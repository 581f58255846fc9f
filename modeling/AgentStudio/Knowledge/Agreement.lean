import AgentStudio.Knowledge.Base
import AgentStudio.Library.Machine

/-!
# The index, the counts and the engine

The entries of the engine under the scope of a knowledge base should be the chunks of the files in
its index, the count of a file the number of its chunks, and the counts of a base those of its index
(`Store.Agrees`).

The index and the counts of a base agree in every run (`Store.Sound`). The engine never gets
anything, so that it agrees as long as the files have no chunks: `agrees_iff_blank` says that all is
as it should be exactly if no file with a text in it is ever added.
-/

namespace AgentStudio.Knowledge

open PyText PyDict Machine

/-! ### The law -/

def KbDir.chunks (readers : Readers) (dir : KbDir) (f : KBFileInfo) : List Chunk :=
  ((dir.files.lookup f.filename).bind (readFile readers f.filename)).elim [] process

structure Store.Agrees (readers : Readers) (s : Store) : Prop where
  chunks : ∀ kb ∈ s.index,
    ((s.entries.filter fun e => e.scope = kb.id).map KnowledgeEntry.content).Perm
      ((s.dirs kb.id).filesIndex.flatMap fun f =>
        ((s.dirs kb.id).chunks readers f).map Chunk.content)
  scopes : ∀ e ∈ s.entries, ∃ kb ∈ s.index, kb.id = e.scope
  entryCount : ∀ kb ∈ s.index, ∀ f ∈ (s.dirs kb.id).filesIndex,
    f.entryCount = ((s.dirs kb.id).chunks readers f).length
  fileCount : ∀ kb ∈ s.index, kb.fileCount = (s.dirs kb.id).filesIndex.length
  totalSize : ∀ kb ∈ s.index,
    kb.totalSize = ((s.dirs kb.id).filesIndex.map KBFileInfo.size).sum

def reached (readers : Readers) (calls : List Call) : Store :=
  (run (call readers) calls .empty).2

/-- An identifier that `uuid4` draws is new. -/
def Fresh (c : Call) (s : Store) : Prop :=
  match c with
  | .createKb _ _ _ _ fresh => fresh ∉ s.index.map KnowledgeBase.id
  | .addFile kbId _ _ _ fresh => fresh ∉ (s.dirs kbId).filesIndex.map KBFileInfo.fileId
  | _ => True

/-- A file that is added to a base has no text that can be read. -/
def Blank (readers : Readers) (c : Call) (s : Store) : Prop :=
  match c with
  | .addFile kbId _ (some (name, bytes)) _ _ => (s.getKb kbId).isSome →
    ∀ text ∈ readFile readers (storedName name ((s.dirs kbId).files.map Prod.fst)) bytes, text = []
  | _ => True

/-! ### Chunks and names -/

theorem process_eq_nil_iff {text : Str} : process text = [] ↔ text = [] := by
  rw [process, chunkFrom]
  constructor
  · intro h
    by_contra hne
    rw [if_pos (List.length_pos_iff.mpr hne)] at h
    simp at h
  · rintro rfl
    rfl

theorem storedName_notMem (name : Str) (taken : List Str) : storedName name taken ∉ taken := by
  unfold storedName
  split_ifs with h
  · exact Nat.find_spec (exists_numbered_notMem name taken)
  · exact h

theorem ingestFile_eq (readers : Readers) (bytes : Bytes) (info : KBFileInfo) (s : Store) :
    ingestFile readers bytes info s = (info, s) := by
  unfold ingestFile
  cases readFile readers info.filename bytes <;> rfl

/-! ### Directories -/

/-- The files of a directory are those of its index, which differ in identifier and name and have no
entries. -/
structure KbDir.Sound (dir : KbDir) : Prop where
  fileIds : (dir.filesIndex.map KBFileInfo.fileId).Nodup
  names : (dir.filesIndex.map KBFileInfo.filename).Nodup
  onDisk : ∀ f ∈ dir.filesIndex, (dir.files.lookup f.filename).isSome
  entryCount : ∀ f ∈ dir.filesIndex, f.entryCount = 0

section

variable {readers : Readers} {dir : KbDir} {info f : KBFileInfo} {bytes : Bytes} {fileId : Str}

def KbDir.add (dir : KbDir) (info : KBFileInfo) (bytes : Bytes) : KbDir :=
  { filesIndex := dir.filesIndex ++ [info], files := setItem info.filename bytes dir.files }

def KbDir.remove (dir : KbDir) (f : KBFileInfo) : KbDir :=
  { filesIndex := dir.filesIndex.filter fun g => g.fileId ≠ f.fileId
    files := pop f.filename dir.files }

theorem KbDir.sound_empty : KbDir.Sound ⟨[], []⟩ :=
  ⟨List.nodup_nil, List.nodup_nil, List.forall_mem_nil _,
    List.forall_mem_nil _⟩

theorem KbDir.Sound.filename_ne (hd : dir.Sound) (hname : dir.files.lookup info.filename = none)
    (hf : f ∈ dir.filesIndex) : f.filename ≠ info.filename := by
  intro heq
  have hdisk := hd.onDisk f hf
  rw [heq, hname] at hdisk
  exact Bool.false_ne_true hdisk

theorem KbDir.Sound.add (hd : dir.Sound) (hid : info.fileId ∉ dir.filesIndex.map KBFileInfo.fileId)
    (hname : dir.files.lookup info.filename = none) (hcount : info.entryCount = 0) :
    (dir.add info bytes).Sound := by
  refine ⟨Rows.nodup_snoc hd.fileIds hid, Rows.nodup_snoc hd.names fun hmem => ?_, fun f hf => ?_,
    fun f hf => ?_⟩
  · obtain ⟨f, hf, heq⟩ := List.mem_map.mp hmem
    exact hd.filename_ne hname hf heq
  · rw [KbDir.add, lookup_setItem]
    rcases mem_snoc.mp hf with hf | rfl
    · rw [if_neg (hd.filename_ne hname hf)]
      exact hd.onDisk f hf
    · rw [if_pos rfl]
      rfl
  · rcases mem_snoc.mp hf with hf | rfl
    · exact hd.entryCount f hf
    · rw [hcount]

theorem KbDir.Sound.chunks_add (hd : dir.Sound) (hname : dir.files.lookup info.filename = none) :
    (∀ g ∈ (dir.add info bytes).filesIndex, (dir.add info bytes).chunks readers g = []) ↔
      (∀ g ∈ dir.filesIndex, dir.chunks readers g = []) ∧
        ∀ text ∈ readFile readers info.filename bytes, text = [] := by
  have hold : ∀ g ∈ dir.filesIndex,
      (dir.add info bytes).chunks readers g = dir.chunks readers g := by
    intro g hg
    rw [KbDir.chunks, KbDir.add, lookup_setItem, if_neg (hd.filename_ne hname hg), KbDir.chunks]
  have hnew : (dir.add info bytes).chunks readers info = [] ↔
      ∀ text ∈ readFile readers info.filename bytes, text = [] := by
    rw [KbDir.chunks, KbDir.add, lookup_setItem, if_pos rfl, Option.bind_some]
    cases readFile readers info.filename bytes with
    | none => exact iff_of_true rfl fun text h => absurd h (Option.not_mem_none text)
    | some text =>
      rw [Option.elim_some, process_eq_nil_iff]
      exact ⟨fun h x hx => (Option.some.inj hx).symm.trans h, fun h => h text rfl⟩
  rw [← hnew]
  constructor
  · intro h
    refine ⟨fun g hg => ?_, h info (List.mem_append_right _ (List.mem_singleton.mpr rfl))⟩
    rw [← hold g hg]
    exact h g (List.mem_append_left _ hg)
  · rintro ⟨h, hinfo⟩ g hg
    rcases mem_snoc.mp hg with hg | rfl
    · rw [hold g hg]
      exact h g hg
    · exact hinfo

theorem KbDir.Sound.lookup_remove (hd : dir.Sound) (hf : f ∈ dir.filesIndex) {g : KBFileInfo}
    (hg : g ∈ (dir.remove f).filesIndex) :
    g ∈ dir.filesIndex ∧ (dir.remove f).files.lookup g.filename = dir.files.lookup g.filename := by
  obtain ⟨hg, hne⟩ := List.mem_filter.mp hg
  refine ⟨hg, ?_⟩
  rw [KbDir.remove, lookup_pop, if_neg]
  intro heq
  rw [Rows.eq_of_key_eq hd.names hg hf heq] at hne
  exact of_decide_eq_true hne rfl

theorem KbDir.Sound.remove (hd : dir.Sound) (hf : f ∈ dir.filesIndex) : (dir.remove f).Sound := by
  refine ⟨hd.fileIds.sublist (List.filter_sublist.map _), hd.names.sublist
    (List.filter_sublist.map _), fun g hg => ?_, fun g hg => ?_⟩
  · obtain ⟨hmem, hlookup⟩ := hd.lookup_remove hf hg
    rw [hlookup]
    exact hd.onDisk g hmem
  · exact hd.entryCount g (hd.lookup_remove hf hg).1

theorem KbDir.Sound.chunks_remove (hd : dir.Sound) (hf : f ∈ dir.filesIndex)
    (h : ∀ g ∈ dir.filesIndex, dir.chunks readers g = []) :
    ∀ g ∈ (dir.remove f).filesIndex, (dir.remove f).chunks readers g = [] := by
  intro g hg
  obtain ⟨hmem, hlookup⟩ := hd.lookup_remove hf hg
  rw [KbDir.chunks, hlookup]
  exact h g hmem

theorem KbDir.Sound.counts_remove (hd : dir.Sound) (hf : f ∈ dir.filesIndex) :
    (dir.remove f).filesIndex.length = dir.filesIndex.length - 1 ∧
      ((dir.remove f).filesIndex.map KBFileInfo.size).sum =
        (dir.filesIndex.map KBFileInfo.size).sum - f.size := by
  obtain ⟨l₁, l₂, hsplit⟩ := List.append_of_mem hf
  have hids := hd.fileIds
  rw [hsplit, List.map_append, List.map_cons, List.nodup_append, List.nodup_cons] at hids
  have hleft : ∀ g ∈ l₁, (decide (g.fileId ≠ f.fileId)) = true := fun g hg =>
    decide_eq_true (hids.2.2 _ (List.mem_map_of_mem hg) _ List.mem_cons_self)
  have hright : ∀ g ∈ l₂, (decide (g.fileId ≠ f.fileId)) = true := fun g hg =>
    decide_eq_true fun heq => hids.2.1.1 (heq ▸ List.mem_map_of_mem hg)
  have hremove : (dir.remove f).filesIndex = l₁ ++ l₂ := by
    rw [KbDir.remove, hsplit, List.filter_append, List.filter_eq_self.mpr hleft,
      List.filter_cons_of_neg (by simp), List.filter_eq_self.mpr hright]
  rw [hremove, hsplit]
  constructor
  · simp only [List.length_append, List.length_cons]
    omega
  · simp only [List.map_append, List.map_cons, List.sum_append, List.sum_cons]
    omega

end

/-! ### The stores -/

structure Store.Sound (s : Store) : Prop where
  ids : (s.index.map KnowledgeBase.id).Nodup
  entries : s.entries = []
  dirs : ∀ id, (s.dirs id).Sound
  counts : ∀ kb ∈ s.index, kb.fileCount = (s.dirs kb.id).filesIndex.length ∧
    kb.totalSize = ((s.dirs kb.id).filesIndex.map KBFileInfo.size).sum
  outside : ∀ id ∉ s.index.map KnowledgeBase.id, s.dirs id = ⟨[], []⟩

def Store.NoChunks (readers : Readers) (s : Store) : Prop :=
  ∀ id, ∀ f ∈ (s.dirs id).filesIndex, (s.dirs id).chunks readers f = []

section

variable {readers : Readers} {s : Store} {kb : KnowledgeBase} {dir : KbDir} {kbId fileId : Str}

theorem mem_of_getKb (h : s.getKb kbId = some kb) : kb ∈ s.index ∧ kb.id = kbId :=
  ⟨List.mem_of_find?_eq_some h, by simpa using List.find?_some h⟩

theorem notMem_of_getKb (h : s.getKb kbId = none) : kbId ∉ s.index.map KnowledgeBase.id := by
  intro hmem
  obtain ⟨kb, hkb, heq⟩ := List.mem_map.mp hmem
  exact List.find?_eq_none.mp h kb hkb (decide_eq_true heq)

theorem Store.Sound.agrees_iff (hs : s.Sound) : s.Agrees readers ↔ s.NoChunks readers := by
  constructor
  · intro h id f hf
    by_cases hid : id ∈ s.index.map KnowledgeBase.id
    · obtain ⟨kb, hkb, rfl⟩ := List.mem_map.mp hid
      have hcount := h.entryCount kb hkb f hf
      rw [(hs.dirs kb.id).entryCount f hf] at hcount
      exact List.length_eq_zero_iff.mp hcount.symm
    · rw [hs.outside id hid] at hf
      exact absurd hf List.not_mem_nil
  · intro h
    refine ⟨fun kb hkb => ?_, fun e he => ?_, fun kb hkb f hf => ?_, fun kb hkb =>
      (hs.counts kb hkb).1, fun kb hkb => (hs.counts kb hkb).2⟩
    · have hnil : ((s.dirs kb.id).filesIndex.flatMap fun f =>
          ((s.dirs kb.id).chunks readers f).map Chunk.content) = [] :=
        List.flatMap_eq_nil_iff.mpr fun f hf => by rw [h kb.id f hf, List.map_nil]
      rw [hs.entries, hnil]
      exact List.Perm.nil
    · rw [hs.entries] at he
      exact absurd he List.not_mem_nil
    · rw [(hs.dirs kb.id).entryCount f hf, h kb.id f hf, List.length_nil]

/-- Where the identifiers differ, it does not matter that only the first entry changes. -/
theorem setCounts_eq {kbs : List KnowledgeBase} (hn : (kbs.map KnowledgeBase.id).Nodup) (n m : ℕ) :
    setCounts kbId n m kbs = kbs.map (Rows.update KnowledgeBase.id kbId fun kb =>
      { kb with fileCount := n, totalSize := m }) := by
  induction kbs with
  | nil => rfl
  | cons kb kbs ih =>
    rw [List.map_cons, List.nodup_cons] at hn
    rw [setCounts, List.map_cons]
    by_cases hkb : kb.id = kbId
    · subst hkb
      rw [if_pos rfl, Rows.update_self, Rows.map_update_of_notMem hn.1]
    · rw [if_neg hkb, Rows.update_of_ne hkb, ih hn.2]

/-- The directory of a base and the counts in its entry are written. -/
def Store.write (s : Store) (kbId : Str) (dir : KbDir) : Store :=
  (s.setDir kbId dir).updateKb kbId dir.filesIndex.length (dir.filesIndex.map KBFileInfo.size).sum

theorem Store.Sound.write (hs : s.Sound) (hkb : kb ∈ s.index) (hd : dir.Sound) :
    (s.write kb.id dir).Sound := by
  have hindex : (s.write kb.id dir).index =
      s.index.map (Rows.update KnowledgeBase.id kb.id fun kb =>
        { kb with
          fileCount := dir.filesIndex.length
          totalSize := (dir.filesIndex.map KBFileInfo.size).sum }) := setCounts_eq hs.ids _ _
  have hids : (s.write kb.id dir).index.map KnowledgeBase.id = s.index.map KnowledgeBase.id := by
    rw [hindex]
    exact Rows.map_key_update kb.id fun _ => rfl
  refine ⟨hids.symm ▸ hs.ids, hs.entries, fun id => ?_, fun kb' hkb' => ?_, fun id hid => ?_⟩
  · change (Function.update s.dirs kb.id dir id).Sound
    by_cases hid : id = kb.id
    · rw [hid, Function.update_self]
      exact hd
    · rw [Function.update_of_ne hid]
      exact hs.dirs id
  · change kb'.fileCount = (Function.update s.dirs kb.id dir kb'.id).filesIndex.length ∧
      kb'.totalSize = ((Function.update s.dirs kb.id dir kb'.id).filesIndex.map KBFileInfo.size).sum
    rw [hindex] at hkb'
    rcases (Rows.mem_map_update hs.ids hkb).mp hkb' with rfl | ⟨hkb', hne⟩
    · rw [Function.update_self]
      exact ⟨rfl, rfl⟩
    · rw [Function.update_of_ne hne]
      exact hs.counts kb' hkb'
  · rw [hids] at hid
    have hne : id ≠ kb.id := fun heq => hid (heq ▸ List.mem_map_of_mem hkb)
    exact (Function.update_of_ne hne dir s.dirs).trans (hs.outside id hid)

theorem Store.noChunks_write (s : Store) (kbId : Str) (dir : KbDir) :
    (s.write kbId dir).NoChunks readers ↔ (∀ f ∈ dir.filesIndex, dir.chunks readers f = []) ∧
      ∀ id ≠ kbId, ∀ f ∈ (s.dirs id).filesIndex, (s.dirs id).chunks readers f = [] := by
  constructor
  · intro h
    have hdirs : ∀ id, ∀ f ∈ (Function.update s.dirs kbId dir id).filesIndex,
        (Function.update s.dirs kbId dir id).chunks readers f = [] := h
    refine ⟨?_, fun id hid => ?_⟩
    · simpa using hdirs kbId
    · simpa [Function.update_of_ne hid] using hdirs id
  · rintro ⟨hdir, hrest⟩ id
    change ∀ f ∈ (Function.update s.dirs kbId dir id).filesIndex,
      (Function.update s.dirs kbId dir id).chunks readers f = []
    by_cases hid : id = kbId
    · rw [hid, Function.update_self]
      exact hdir
    · rw [Function.update_of_ne hid]
      exact hrest id hid

/-! ### The calls -/

theorem setDir_setDir (s : Store) (kbId : Str) (dir dir' : KbDir) :
    (s.setDir kbId dir).setDir kbId dir' = s.setDir kbId dir' := by
  rw [Store.setDir, Store.setDir, Store.setDir, Function.update_idem]

theorem setDir_self (s : Store) (kbId : Str) : s.setDir kbId (s.dirs kbId) = s := by
  rw [Store.setDir, Function.update_eq_self]

variable (readers) in
theorem addFile_eq (hs : s.Sound) (hkb : s.getKb kbId = some kb) (filePath name : Str)
    (bytes : Bytes) (contentType fresh : Str) :
    ∃ info : KBFileInfo, info.fileId = fresh ∧ info.entryCount = 0 ∧
      info.filename = storedName name ((s.dirs kbId).files.map Prod.fst) ∧
      (s.addFile readers kbId filePath (some (name, bytes)) contentType fresh).2 =
        s.write kbId ((s.dirs kbId).add info bytes) := by
  refine ⟨⟨fresh, storedName name ((s.dirs kbId).files.map Prod.fst), bytes.length, contentType,
    kbId, 0⟩, rfl, rfl, rfl, ?_⟩
  obtain ⟨hmem, rfl⟩ := mem_of_getKb hkb
  obtain ⟨hcount, hsize⟩ := hs.counts kb hmem
  unfold Store.addFile
  rw [hkb]
  dsimp only
  rw [ingestFile_eq]
  dsimp only
  rw [hcount, hsize, setDir_setDir, Store.write]
  congr 1
  · rw [KbDir.add, List.length_append]
    rfl
  · rw [KbDir.add, List.map_append, List.sum_append]
    rfl

theorem reparseFile_eq (hs : s.Sound) : (s.reparseFile readers kbId fileId).2 = s := by
  unfold Store.reparseFile
  dsimp only
  split
  · rfl
  · next info hinfo =>
    split
    · rfl
    · next bytes hbytes =>
      rw [ingestFile_eq]
      dsimp only
      obtain ⟨hmem, hid⟩ : info ∈ (s.dirs kbId).filesIndex ∧ info.fileId = fileId :=
        ⟨List.mem_of_find?_eq_some hinfo, by simpa using List.find?_some hinfo⟩
      have hzero : { info with entryCount := 0 } = info := by
        rw [← (hs.dirs kbId).entryCount info hmem]
      have hsame : ((s.dirs kbId).filesIndex.map fun f => if f.fileId = fileId then info else f) =
          (s.dirs kbId).filesIndex := by
        refine (List.map_congr_left fun f hf => ?_).trans (List.map_id _)
        split_ifs with hf'
        · exact Rows.eq_of_key_eq (hs.dirs kbId).fileIds hmem hf (hid.trans hf'.symm)
        · rfl
      rw [hzero, hsame]
      exact setDir_self s kbId

theorem deleteFile_eq (hs : s.Sound) (kbId fileId : Str) : (s.deleteFile kbId fileId).2 = s ∨
    ∃ kb ∈ s.index, kb.id = kbId ∧ ∃ f ∈ (s.dirs kbId).filesIndex,
      (s.deleteFile kbId fileId).2 = s.write kbId ((s.dirs kbId).remove f) := by
  unfold Store.deleteFile
  dsimp only
  cases htarget : ((s.dirs kbId).filesIndex.filter fun f => f.fileId = fileId).getLast? with
  | none => exact Or.inl rfl
  | some f =>
    obtain ⟨hf, hid⟩ := List.mem_filter.mp (List.mem_of_getLast? htarget)
    rw [decide_eq_true_eq] at hid
    subst hid
    refine Or.inr ?_
    -- the directory of a base that is not there has no files
    cases hkb : s.getKb kbId with
    | none =>
      rw [hs.outside kbId (notMem_of_getKb hkb)] at hf
      exact absurd hf List.not_mem_nil
    | some kb =>
      obtain ⟨hmem, rfl⟩ := mem_of_getKb hkb
      refine ⟨kb, hmem, rfl, f, hf, ?_⟩
      obtain ⟨hcount, hsize⟩ := (hs.dirs kb.id).counts_remove hf
      dsimp only
      have hget : (s.setDir kb.id ⟨(s.dirs kb.id).filesIndex.filter fun g => g.fileId ≠ f.fileId,
          pop f.filename (s.dirs kb.id).files⟩).getKb kb.id = some kb := hkb
      rw [hget, Store.write, hcount, hsize, ← (hs.counts kb hmem).1, ← (hs.counts kb hmem).2]
      rfl

theorem Store.Sound.createKb (hs : s.Sound) (name description : Str) (tags : List Str)
    (scope : Str) {fresh : Str} (hfresh : fresh ∉ s.index.map KnowledgeBase.id) :
    (s.createKb name description tags scope fresh).2.Sound := by
  refine ⟨Rows.nodup_snoc hs.ids hfresh, hs.entries, hs.dirs, fun kb hkb => ?_, fun id hid => ?_⟩
  · rcases mem_snoc.mp hkb with hkb | rfl
    · exact hs.counts kb hkb
    · change 0 = (s.dirs fresh).filesIndex.length ∧ 0 = ((s.dirs fresh).filesIndex.map _).sum
      rw [hs.outside fresh hfresh]
      exact ⟨rfl, rfl⟩
  · refine hs.outside id fun hmem => hid ?_
    change id ∈ (s.index ++ [_]).map KnowledgeBase.id
    rw [List.map_append]
    exact List.mem_append_left _ hmem

theorem Store.Sound.deleteKb (hs : s.Sound) (kbId : Str) : (s.deleteKb kbId).2.Sound := by
  unfold Store.deleteKb
  dsimp only
  split_ifs with hlength
  · exact hs
  · have hsub := (List.filter_sublist (p := fun kb : KnowledgeBase => kb.id ≠ kbId)
      (l := s.index)).map KnowledgeBase.id
    refine ⟨hs.ids.sublist hsub, hs.entries, fun id => ?_, fun kb hkb => ?_, fun id hid => ?_⟩
    · change (Function.update s.dirs kbId ⟨[], []⟩ id).Sound
      by_cases hid : id = kbId
      · rw [hid, Function.update_self]
        exact KbDir.sound_empty
      · rw [Function.update_of_ne hid]
        exact hs.dirs id
    · obtain ⟨hkb, hne⟩ := List.mem_filter.mp hkb
      change kb.fileCount = (Function.update s.dirs kbId ⟨[], []⟩ kb.id).filesIndex.length ∧ _ =
        ((Function.update s.dirs kbId ⟨[], []⟩ kb.id).filesIndex.map KBFileInfo.size).sum
      rw [Function.update_of_ne (of_decide_eq_true hne)]
      exact hs.counts kb hkb
    · change Function.update s.dirs kbId ⟨[], []⟩ id = ⟨[], []⟩
      by_cases heq : id = kbId
      · rw [heq, Function.update_self]
      · rw [Function.update_of_ne heq]
        refine hs.outside id fun hmem => hid ?_
        obtain ⟨kb, hkb, rfl⟩ := List.mem_map.mp hmem
        exact List.mem_map_of_mem (List.mem_filter.mpr ⟨hkb, decide_eq_true heq⟩)

theorem Store.Sound.addFile (hs : s.Sound) (kbId filePath : Str) (file : Option (Str × Bytes))
    (contentType : Str) {fresh : Str}
    (hfresh : fresh ∉ (s.dirs kbId).filesIndex.map KBFileInfo.fileId) :
    (s.addFile readers kbId filePath file contentType fresh).2.Sound ∧
      (s.NoChunks readers →
        ((s.addFile readers kbId filePath file contentType fresh).2.NoChunks readers ↔
          Blank readers (.addFile kbId filePath file contentType fresh) s)) := by
  cases hkb : s.getKb kbId with
  | none =>
    have hsame : (s.addFile readers kbId filePath file contentType fresh).2 = s := by
      rw [Store.addFile, hkb]
    rw [hsame]
    refine ⟨hs, fun h => iff_of_true h ?_⟩
    cases file with
    | none => trivial
    | some f =>
      intro hsome
      rw [hkb] at hsome
      exact absurd hsome Bool.false_ne_true
  | some kb =>
    cases file with
    | none =>
      have hsame : (s.addFile readers kbId filePath none contentType fresh).2 = s := by
        rw [Store.addFile, hkb]
      rw [hsame]
      exact ⟨hs, fun h => iff_of_true h trivial⟩
    | some f =>
      obtain ⟨name, bytes⟩ := f
      obtain ⟨info, hid, hcount, hname, heq⟩ := addFile_eq readers hs hkb filePath name bytes
        contentType fresh
      obtain ⟨hmem, rfl⟩ := mem_of_getKb hkb
      have hfree : (s.dirs kb.id).files.lookup info.filename = none := by
        rw [hname]
        exact lookup_eq_none (storedName_notMem name _)
      have hd := hs.dirs kb.id
      rw [heq]
      refine ⟨hs.write hmem (hd.add (hid.symm ▸ hfresh) hfree hcount), fun h => ?_⟩
      rw [Store.noChunks_write, hd.chunks_add hfree]
      constructor
      · rintro ⟨⟨-, hblank⟩, -⟩ -
        rw [← hname]
        exact hblank
      · intro hblank
        have hsome : (s.getKb kb.id).isSome := by
          rw [hkb]
          rfl
        refine ⟨⟨h kb.id, ?_⟩, fun id _ => h id⟩
        rw [hname]
        exact hblank hsome

theorem Store.Sound.call (hs : s.Sound) {c : Call} (hc : Fresh c s) :
    (call readers c s).2.Sound := by
  cases c with
  | createKb name description tags scope fresh => exact hs.createKb name description tags scope hc
  | addFile kbId filePath file contentType fresh =>
    exact (hs.addFile kbId filePath file contentType hc).1
  | reparseFile kbId fileId =>
    change (s.reparseFile readers kbId fileId).2.Sound
    rw [reparseFile_eq hs]
    exact hs
  | deleteFile kbId fileId =>
    change (s.deleteFile kbId fileId).2.Sound
    rcases deleteFile_eq hs kbId fileId with heq | ⟨kb, hkb, rfl, f, hf, heq⟩
    · rw [heq]
      exact hs
    · rw [heq]
      exact hs.write hkb ((hs.dirs kb.id).remove hf)
  | deleteKb kbId => exact hs.deleteKb kbId

theorem noChunks_call_iff (hs : s.Sound) {c : Call} (hc : Fresh c s) (h : s.NoChunks readers) :
    (call readers c s).2.NoChunks readers ↔ Blank readers c s := by
  cases c with
  | createKb name description tags scope fresh => exact iff_of_true h trivial
  | addFile kbId filePath file contentType fresh =>
    exact (hs.addFile kbId filePath file contentType hc).2 h
  | reparseFile kbId fileId =>
    change (s.reparseFile readers kbId fileId).2.NoChunks readers ↔ True
    rw [reparseFile_eq hs]
    exact iff_of_true h trivial
  | deleteFile kbId fileId =>
    change (s.deleteFile kbId fileId).2.NoChunks readers ↔ True
    refine iff_of_true ?_ trivial
    rcases deleteFile_eq hs kbId fileId with heq | ⟨kb, hkb, rfl, f, hf, heq⟩
    · rw [heq]
      exact h
    · rw [heq, Store.noChunks_write]
      exact ⟨(hs.dirs kb.id).chunks_remove hf (h kb.id), fun id _ => h id⟩
  | deleteKb kbId =>
    refine iff_of_true ?_ trivial
    change (s.deleteKb kbId).2.NoChunks readers
    unfold Store.deleteKb
    dsimp only
    split_ifs with hlength
    · exact h
    · intro id
      change ∀ f ∈ (Function.update s.dirs kbId ⟨[], []⟩ id).filesIndex,
        (Function.update s.dirs kbId ⟨[], []⟩ id).chunks readers f = []
      by_cases hid : id = kbId
      · rw [hid, Function.update_self]
        exact List.forall_mem_nil _
      · rw [Function.update_of_ne hid]
        exact h id

end

/-- In every run, the engine, the index and the counts agree throughout exactly if no file that is
added has a text in it. -/
theorem agrees_iff_blank (readers : Readers) (calls : List Call)
    (hfresh : Along (call readers) Fresh calls .empty) :
    (∀ n, (reached readers (calls.take n)).Agrees readers) ↔
      Along (call readers) (Blank readers) calls .empty := by
  have hempty : Store.empty.Sound :=
    ⟨List.nodup_nil, rfl, fun _ => KbDir.sound_empty, List.forall_mem_nil _,
      fun _ _ => rfl⟩
  have hnone : Store.empty.NoChunks readers := fun _ => List.forall_mem_nil _
  refine (run_throughout_iff_along (fun c s hs hc => hs.call hc) (fun c s hs hc h => ?_) calls
    hempty hfresh).trans (and_iff_right (hempty.agrees_iff.mpr hnone))
  rw [(hs.call hc).agrees_iff]
  exact noChunks_call_iff hs hc (hs.agrees_iff.mp h)

/-- Text files with characters of one byte, and nothing else. -/
def oneByteReaders : Readers where
  text := List.map fun b => Char.ofNat b.toNat
  json _ := none
  csv _ := none
  html _ := []

/-- A base with one file, whose content is `hi`. -/
def addNotes : List Call :=
  [.createKb "docs" [] [] "default" "kb",
    .addFile "kb" "/tmp/notes.txt" (some ("notes.txt", [104, 105])) []
      "f"]

theorem agrees_iff_blank_addNotes :
    (∀ n, (reached oneByteReaders (addNotes.take n)).Agrees oneByteReaders) ↔
      Along (call oneByteReaders) (Blank oneByteReaders) addNotes .empty :=
  agrees_iff_blank oneByteReaders addNotes ⟨List.not_mem_nil, List.not_mem_nil, trivial⟩

/-- The file has a chunk, and the engine has no entry for it. -/
theorem notes_not_ingested : ¬ ∀ (readers : Readers) (calls : List Call),
    Along (call readers) Fresh calls .empty →
      ∀ n, (reached readers (calls.take n)).Agrees readers := by
  intro hall
  have hagrees := hall oneByteReaders addNotes ⟨List.not_mem_nil, List.not_mem_nil, trivial⟩ 2
  have hcount := hagrees.entryCount
    ⟨"kb", "docs", [], [], "default", 1, 2⟩ (List.mem_singleton.mpr rfl)
    ⟨"f", "notes.txt", 2, [], "kb", 0⟩ (List.mem_singleton.mpr rfl)
  have hnil : process "hi" = [] := List.length_eq_zero_iff.mp hcount.symm
  exact absurd (process_eq_nil_iff.mp hnil) (by decide)

end AgentStudio.Knowledge

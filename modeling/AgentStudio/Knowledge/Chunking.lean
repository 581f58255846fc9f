import AgentStudio.Knowledge.Base
import AgentStudio.Library.WordSplit

/-!
# The chunks of a document

The three chunkers of `agent_runtime/data_ingestion.py`: of a fixed size, by sentences, and by the
headings of a markdown text. All of them are recursive in the text or in its parts, so they come to
an end. The ids and the metadata of chunks are left out.

`Faithful` is what chunks should be: numbered from `0`, in order, with the text between their
offsets as their contents, and with all of the text that is not blank in one of them. It is
`FaithfulFrom` the index `0` and the offset `0`, which can be followed through the loops. The
offsets of a sentence chunker count one character for each separator inside a chunk and none for a
separator between two chunks, so they are right for a text that stays in one chunk (`StaysWhole`)
and whose sentences are a blank apart.
-/

namespace AgentStudio.Knowledge

open PyText

/-! ### What chunks should be -/

/-- `text[start:stop]`. -/
def slice (text : Str) (start stop : ℕ) : Str := (text.drop start).take (stop - start)

/-- The chunks are numbered from an index on, and the text from an offset on is in them. -/
structure FaithfulFrom (text : Str) (n p : ℕ) (chunks : List Chunk) : Prop where
  index : chunks.map Chunk.index = List.range' n chunks.length
  later : ∀ c ∈ chunks, p ≤ c.startChar
  ordered : chunks.Pairwise (·.startChar ≤ ·.startChar)
  content : ∀ c ∈ chunks, strip c.content = strip (slice text c.startChar c.endChar)
  covers : ∀ i x, p ≤ i → text[i]? = some x → isSpace x = false →
    ∃ c ∈ chunks, c.startChar ≤ i ∧ i < c.endChar

/-- The chunks are numbered and in order, their contents are those between their offsets up to
blanks around them, and every character that is not blank is in one of them. -/
def Faithful (text : Str) (chunks : List Chunk) : Prop := FaithfulFrom text 0 0 chunks

theorem isBlank_drop_iff {text : Str} {p : ℕ} :
    IsBlank (text.drop p) ↔ ∀ i x, p ≤ i → text[i]? = some x → isSpace x = true := by
  constructor
  · intro h i x hi hx
    refine h x (List.mem_iff_getElem?.mpr ⟨i - p, ?_⟩)
    rwa [List.getElem?_drop, Nat.add_sub_cancel' hi]
  · intro h x hx
    obtain ⟨i, hi⟩ := List.mem_iff_getElem?.mp hx
    rw [List.getElem?_drop] at hi
    exact h (p + i) x (Nat.le_add_right p i) hi

namespace FaithfulFrom

variable {text content : Str} {n p q stop : ℕ} {chunks : List Chunk}

theorem nil_iff : FaithfulFrom text n p [] ↔ IsBlank (text.drop p) := by
  rw [isBlank_drop_iff]
  constructor
  · intro h i x hi hx
    by_contra hblank
    obtain ⟨c, hc, -⟩ := h.covers i x hi hx (Bool.eq_false_of_not_eq_true hblank)
    exact absurd hc List.not_mem_nil
  · intro h
    refine ⟨rfl, List.forall_mem_nil _, List.Pairwise.nil,
      List.forall_mem_nil _, fun i x hi hx hblank => ?_⟩
    rw [h i x hi hx] at hblank
    cases hblank

theorem cons (h : FaithfulFrom text (n + 1) q chunks) (hpq : p ≤ q) (hstop : q ≤ stop)
    (hcontent : strip content = strip (slice text p stop)) :
    FaithfulFrom text n p (⟨content, n, p, stop⟩ :: chunks) where
  index := by rw [List.map_cons, h.index, List.length_cons, List.range'_succ]
  later := List.forall_mem_cons.mpr ⟨le_rfl, fun x hx => hpq.trans (h.later x hx)⟩
  ordered := List.pairwise_cons.mpr ⟨fun x hx => hpq.trans (h.later x hx), h.ordered⟩
  content := List.forall_mem_cons.mpr ⟨hcontent, h.content⟩
  covers i x hi hx hblank := by
    by_cases hq : q ≤ i
    · obtain ⟨y, hy, hin⟩ := h.covers i x hq hx hblank
      exact ⟨y, List.mem_cons_of_mem _ hy, hin⟩
    · exact ⟨_, List.mem_cons_self, hi, (not_le.mp hq).trans_le hstop⟩

theorem skip (h : FaithfulFrom text n q chunks) (hpq : p ≤ q)
    (hblank : IsBlank (slice text p q)) : FaithfulFrom text n p chunks := by
  refine ⟨h.index, fun c hc => hpq.trans (h.later c hc), h.ordered, h.content,
    fun i x hi hx hne => ?_⟩
  by_cases hq : q ≤ i
  · exact h.covers i x hq hx hne
  · have hmem : x ∈ slice text p q := by
      refine List.mem_iff_getElem?.mpr ⟨i - p, ?_⟩
      rw [slice, List.getElem?_take_of_lt (by omega), List.getElem?_drop,
        Nat.add_sub_cancel' hi, hx]
    rw [hblank x hmem] at hne
    cases hne

theorem singleton_iff (hstop : p ≤ stop) :
    FaithfulFrom text n p [⟨content, n, p, stop⟩] ↔
      strip content = strip (slice text p stop) ∧ IsBlank (text.drop stop) := by
  constructor
  · intro h
    refine ⟨h.content _ List.mem_cons_self, isBlank_drop_iff.mpr fun i x hi hx => ?_⟩
    by_contra hblank
    obtain ⟨y, hy, -, hlt⟩ :=
      h.covers i x (hstop.trans hi) hx (Bool.eq_false_of_not_eq_true hblank)
    rw [List.mem_singleton.mp hy] at hlt
    exact absurd hi (not_le.mpr hlt)
  · rintro ⟨hcontent, hblank⟩
    exact (nil_iff.mpr hblank).cons hstop le_rfl hcontent

theorem empty_cons_iff :
    FaithfulFrom text n p (⟨[], n, p, p⟩ :: chunks) ↔ FaithfulFrom text (n + 1) p chunks := by
  constructor
  · intro h
    refine ⟨?_, fun x hx => h.later x (List.mem_cons_of_mem _ hx), h.ordered.of_cons,
      fun x hx => h.content x (List.mem_cons_of_mem _ hx), fun i x hi hx hblank => ?_⟩
    · have hindexes := h.index
      rw [List.map_cons, List.length_cons, List.range'_succ] at hindexes
      exact (List.cons.inj hindexes).2
    · obtain ⟨y, hy, hle, hlt⟩ := h.covers i x hi hx hblank
      rcases List.mem_cons.mp hy with rfl | hy
      · exact absurd hi (not_le.mpr hlt)
      · exact ⟨y, hy, hle, hlt⟩
  · intro h
    refine h.cons le_rfl le_rfl ?_
    rw [slice, Nat.sub_self, List.take_zero]

end FaithfulFrom

/-! ### Chunks of a fixed size -/

/-- The keyword arguments of `chunk`. -/
structure ChunkArgs where
  chunkSize : Option ℕ := none
  overlap : Option ℕ := none
  maxChunkSize : Option ℤ := none
  minChunkSize : Option ℤ := none

/-- `FixedSizeChunker`. -/
structure FixedSizeChunker where
  chunkSize : ℕ := 500
  overlap : ℕ := 50

/-- `FixedSizeChunker.chunk`. -/
def FixedSizeChunker.chunk (x : FixedSizeChunker) (kwargs : ChunkArgs) (text : Str) : List Chunk :=
  chunkFrom (kwargs.chunkSize.getD x.chunkSize) (kwargs.overlap.getD x.overlap) text 0 0

/-- The chunks step forward, or there is nothing after the first one. -/
def FixedSizeChunker.Advances (x : FixedSizeChunker) (kwargs : ChunkArgs) (text : Str) : Prop :=
  kwargs.overlap.getD x.overlap < kwargs.chunkSize.getD x.chunkSize ∨
    IsBlank (text.drop (kwargs.chunkSize.getD x.chunkSize))

theorem faithfulFrom_chunkFrom {chunkSize overlap : ℕ} (h : overlap < chunkSize) (text : Str)
    (start idx : ℕ) : FaithfulFrom text idx start (chunkFrom chunkSize overlap text start idx) := by
  induction start, idx using chunkFrom.induct chunkSize overlap text with
  | case1 start idx hstart _ ih =>
    rw [chunkFrom, if_pos hstart]
    dsimp only
    rw [if_pos h]
    by_cases hlast : start + (chunkSize - overlap) < text.length
    · exact ih.cons (by omega) (by omega) rfl
    · rw [chunkFrom, if_neg hlast]
      refine (FaithfulFrom.singleton_iff (by omega)).mpr ⟨rfl, ?_⟩
      rw [List.drop_eq_nil_of_le (by omega)]
      exact List.forall_mem_nil _
  | case2 start idx hstart hno => exact absurd h hno
  | case3 start idx hstart =>
    rw [chunkFrom, if_neg hstart, FaithfulFrom.nil_iff, List.drop_eq_nil_of_le (not_lt.mp hstart)]
    exact List.forall_mem_nil _

theorem FixedSizeChunker.faithful_iff (x : FixedSizeChunker) (kwargs : ChunkArgs) (text : Str) :
    Faithful text (x.chunk kwargs text) ↔ x.Advances kwargs text := by
  rw [Faithful, chunk, Advances]
  generalize kwargs.chunkSize.getD x.chunkSize = chunkSize
  generalize kwargs.overlap.getD x.overlap = overlap
  by_cases h : overlap < chunkSize
  · exact iff_of_true (faithfulFrom_chunkFrom h text 0 0) (Or.inl h)
  rw [or_iff_right h, chunkFrom]
  by_cases htext : 0 < text.length
  · rw [if_pos htext]
    dsimp only
    rw [if_neg h, FaithfulFrom.singleton_iff (Nat.zero_le _), Nat.zero_add]
    refine (and_iff_right rfl).trans ?_
    rcases le_total chunkSize text.length with hle | hle
    · rw [min_eq_left hle]
    · rw [min_eq_right hle, List.drop_eq_nil_of_le hle, List.drop_length]
  · obtain rfl : text = [] := List.length_eq_zero_iff.mp (Nat.eq_zero_of_not_pos htext)
    rw [if_neg htext, FaithfulFrom.nil_iff, List.drop_nil, List.drop_nil]

/-! ### Chunks by headings -/

/-- A match of `^(#{1,6})\s+(.+)$`: where it starts, its level and its title. -/
structure Heading where
  start : ℕ
  level : ℕ
  title : Str

/-- The level, the title and the length of a heading at the start of a text. The blanks after the
marks are as long as they leave a title. -/
def headingAt (s : Str) : Option (ℕ × Str × ℕ) :=
  let level := (s.takeWhile (· = '#')).length
  let rest := s.drop level
  let blanks := rest.takeWhile isSpace
  let body := rest.dropWhile isSpace
  if level = 0 ∨ 6 < level ∨ blanks = [] then none
  else if body ≠ [] then
    let title := body.takeWhile (· ≠ '\n')
    some (level, title, level + blanks.length + title.length)
  else
    -- all is blank to the end: the title is the last character that ends no line
    match (blanks.tail.reverse.dropWhile (· = '\n')) with
    | [] => none
    | c :: before => some (level, [c], level + before.length + 2)

/-- The headings of a text from an offset on, after some characters that are passed over; the flag
says whether a line starts here. -/
def headingsFrom : ℕ → Bool → ℕ → Str → List Heading
  | _, _, _, [] => []
  | skip + 1, _, pos, c :: s => headingsFrom skip (c = '\n') (pos + 1) s
  | 0, lineStart, pos, c :: s =>
    match if lineStart then headingAt (c :: s) else none with
    | some (level, title, length) =>
      ⟨pos, level, title⟩ :: headingsFrom (length - 1) (c = '\n') (pos + 1) s
    | none => headingsFrom 0 (c = '\n') (pos + 1) s

def headings (text : Str) : List Heading := headingsFrom 0 true 0 text

/-- The sections of the headings, each after the text since the last one. -/
def sections (text : Str) : List Heading → ℕ → ℕ → List Chunk
  | [], _, _ => []
  | h :: rest, prevEnd, idx =>
    let preText := strip (slice text prevEnd h.start)
    let preamble : List Chunk :=
      if prevEnd < h.start ∧ preText ≠ [] then [⟨preText, idx, prevEnd, h.start⟩] else []
    let idx := idx + preamble.length
    let sectionEnd := (rest.head?.map Heading.start).getD text.length
    preamble ++ ⟨strip (slice text h.start sectionEnd), idx, h.start, sectionEnd⟩ ::
      sections text rest sectionEnd (idx + 1)

/-- `MarkdownChunker.chunk`. -/
def markdownChunk (kwargs : ChunkArgs) (text : Str) : List Chunk :=
  if headings text = [] then FixedSizeChunker.chunk {} kwargs text
  else sections text (headings text) 0 0

theorem headingsFrom_sorted (skip : ℕ) (lineStart : Bool) (pos : ℕ) (s : Str) :
    (headingsFrom skip lineStart pos s).Pairwise (·.start < ·.start) ∧
      ∀ h ∈ headingsFrom skip lineStart pos s, pos ≤ h.start ∧ h.start < pos + s.length := by
  induction s generalizing skip lineStart pos with
  | nil =>
    rw [headingsFrom]
    exact ⟨List.Pairwise.nil, List.forall_mem_nil _⟩
  | cons c s ih =>
    have hlater : ∀ skip, ∀ h ∈ headingsFrom skip (c = '\n') (pos + 1) s,
        pos < h.start ∧ h.start < pos + (c :: s).length := by
      intro skip h hh
      obtain ⟨hle, hlt⟩ := (ih skip _ (pos + 1)).2 h hh
      rw [List.length_cons]
      exact ⟨hle, by omega⟩
    have hrest : ∀ skip, (headingsFrom skip (c = '\n') (pos + 1) s).Pairwise (·.start < ·.start) ∧
        ∀ h ∈ headingsFrom skip (c = '\n') (pos + 1) s,
          pos ≤ h.start ∧ h.start < pos + (c :: s).length :=
      fun skip => ⟨(ih skip _ (pos + 1)).1, fun h hh => (hlater skip h hh).imp_left le_of_lt⟩
    cases skip with
    | succ skip => exact hrest skip
    | zero =>
      rw [headingsFrom]
      split
      · next level title length _ =>
        refine ⟨List.pairwise_cons.mpr ⟨fun h hh => (hlater _ h hh).1, (hrest _).1⟩, ?_⟩
        refine List.forall_mem_cons.mpr ⟨⟨le_rfl, ?_⟩, (hrest _).2⟩
        rw [List.length_cons]
        exact Nat.lt_add_of_pos_right (Nat.succ_pos _)
      · exact hrest 0

theorem faithfulFrom_sections {text : Str} {hs : List Heading} (hne : hs ≠ [])
    (hsorted : hs.Pairwise (·.start < ·.start)) (hlt : ∀ h ∈ hs, h.start < text.length)
    {prevEnd : ℕ} (hprev : ∀ h ∈ hs, prevEnd ≤ h.start) (idx : ℕ) :
    FaithfulFrom text idx prevEnd (sections text hs prevEnd idx) := by
  induction hs generalizing prevEnd idx with
  | nil => exact absurd rfl hne
  | cons h rest ih =>
    obtain ⟨hbefore, hrest⟩ := List.pairwise_cons.mp hsorted
    have hstart := hprev h List.mem_cons_self
    -- the section of the heading, and the ones after it
    have hsection (idx : ℕ) : FaithfulFrom text idx h.start
        (⟨strip (slice text h.start ((rest.head?.map Heading.start).getD text.length)), idx,
            h.start, (rest.head?.map Heading.start).getD text.length⟩ ::
          sections text rest ((rest.head?.map Heading.start).getD text.length) (idx + 1)) := by
      cases rest with
      | nil =>
        refine (FaithfulFrom.singleton_iff (hlt h List.mem_cons_self).le).mpr ⟨strip_strip _, ?_⟩
        rw [List.drop_length]
        exact List.forall_mem_nil _
      | cons h' rest =>
        refine (ih (List.cons_ne_nil _ _) hrest
          (fun x hx => hlt x (List.mem_cons_of_mem h hx)) (fun x hx => ?_) (idx + 1)).cons
            (hbefore h' List.mem_cons_self).le le_rfl (strip_strip _)
        rcases List.mem_cons.mp hx with rfl | hx
        · exact le_rfl
        · exact ((List.pairwise_cons.mp hrest).1 x hx).le
    rw [sections]
    split_ifs with hpre
    · exact (hsection (idx + 1)).cons hstart le_rfl (strip_strip _)
    · refine (hsection idx).skip hstart ?_
      by_cases heq : prevEnd < h.start
      · have hblank : strip (slice text prevEnd h.start) = [] :=
          not_not.mp fun hno => hpre ⟨heq, hno⟩
        rw [← letters_eq_zero, ← letters_strip, hblank, letters_nil]
      · rw [slice, Nat.sub_eq_zero_of_le (not_lt.mp heq), List.take_zero]
        exact List.forall_mem_nil _

theorem faithful_markdownChunk_iff (kwargs : ChunkArgs) (text : Str) :
    Faithful text (markdownChunk kwargs text) ↔
      headings text ≠ [] ∨ FixedSizeChunker.Advances {} kwargs text := by
  rw [markdownChunk]
  split_ifs with h
  · rw [FixedSizeChunker.faithful_iff, or_iff_right (not_not.mpr h)]
  · refine iff_of_true ?_ (Or.inl h)
    obtain ⟨hsorted, hbounds⟩ := headingsFrom_sorted 0 true 0 text
    exact faithfulFrom_sections h hsorted (fun x hx => by simpa using (hbounds x hx).2)
      (fun _ _ => Nat.zero_le _) 0

/-! ### Chunks by sentences -/

def endsSentence (s : Str) : Bool :=
  s.getLast?.any fun c => decide (c ∈ ['.', '!', '?', '。', '！', '？'])

/-- The parts of a text between the matches of `(?<=[.!?。！？])\s+`, after the characters of a part
or inside a match. -/
def sentencesFrom : Bool → Str → Str → List Str
  | _, part, [] => [part]
  | true, part, c :: s =>
    if isSpace c then sentencesFrom true part s else sentencesFrom false [c] s
  | false, part, c :: s =>
    if isSpace c ∧ endsSentence part then part :: sentencesFrom true [] s
    else sentencesFrom false (part ++ [c]) s

def sentences (text : Str) : List Str := sentencesFrom false [] text

def grow (current sent : Str) : Str := if current ≠ [] then current ++ ' ' :: sent else sent

def closes (maxSize minSize : ℤ) (current sent : Str) : Bool :=
  decide (maxSize < current.length + sent.length ∧ minSize ≤ current.length)

/-- The chunks of some sentences, after those in the current chunk. -/
def chunkSentences (maxSize minSize : ℤ) : List Str → Str → ℕ → ℕ → List Chunk
  | [], current, idx, start =>
    if strip current ≠ [] then [⟨strip current, idx, start, start + current.length⟩] else []
  | sent :: rest, current, idx, start =>
    if closes maxSize minSize current sent then
      ⟨strip current, idx, start, start + current.length⟩ ::
        chunkSentences maxSize minSize rest sent (idx + 1) (start + current.length)
    else chunkSentences maxSize minSize rest (grow current sent) idx start

/-- `SentenceChunker`. -/
structure SentenceChunker where
  maxChunkSize : ℤ := 800
  minChunkSize : ℤ := 100

/-- `SentenceChunker.chunk`. -/
def SentenceChunker.chunk (x : SentenceChunker) (kwargs : ChunkArgs) (text : Str) : List Chunk :=
  chunkSentences (kwargs.maxChunkSize.getD x.maxChunkSize)
    (kwargs.minChunkSize.getD x.minChunkSize) (sentences text) [] 0 0

/-- No chunk with a text is closed before the last sentence. -/
def StaysWhole (maxSize minSize : ℤ) : List Str → Str → Prop
  | [], _ => True
  | sent :: rest, current =>
    (closes maxSize minSize current sent = true → current = []) ∧
      StaysWhole maxSize minSize rest (grow current sent)

/-- The sentences of a text, a blank apart. -/
def joined (text : Str) : Str := (sentences text).foldl grow []

theorem strip_append_blank {s b : Str} (hb : IsBlank b) : strip (s ++ b) = strip s := by
  obtain ⟨b₁, b₂, hb₁, hb₂, hs⟩ := exists_strip s
  conv_lhs => rw [hs, List.append_assoc]
  exact strip_append hb₁ (hb₂.append hb) (startsBlank_strip s) (endsBlank_strip s)

theorem strip_eq_nil_iff {s : Str} : strip s = [] ↔ IsBlank s := by
  constructor
  · intro h
    rw [← letters_eq_zero, ← letters_strip, h, letters_nil]
  · intro h
    have hnil : strip ([] ++ s) = strip [] := strip_append_blank h
    exact hnil

theorem sentencesFrom_cases (part s : Str) : ∃ first rest,
    sentencesFrom false part s = first :: rest ∧
      (rest = [] ∧ part ++ s = first ∨
        endsSentence first = true ∧ ∃ t, part ++ s = first ++ t) := by
  induction s generalizing part with
  | nil => exact ⟨part, [], rfl, Or.inl ⟨rfl, List.append_nil part⟩⟩
  | cons c s ih =>
    rw [sentencesFrom]
    split_ifs with h
    · exact ⟨part, _, rfl, Or.inr ⟨h.2, c :: s, rfl⟩⟩
    · have hrest := ih (part ++ [c])
      rwa [List.append_assoc, List.singleton_append] at hrest

theorem takeWhile_of_endsSentence {s : Str} (h : endsSentence s = true) (t : Str) :
    (s ++ t).takeWhile isSpace = s.takeWhile isSpace := by
  obtain ⟨c, hc, hend⟩ := (Option.any_eq_true _ _).mp h
  have hblank : isSpace c = false := by
    have hall : ∀ x ∈ ['.', '!', '?', '。', '！', '？'], isSpace x = false :=
      forall_mem_of_all (by decide)
    exact hall c (of_decide_eq_true hend)
  rw [List.takeWhile_append, if_neg]
  intro hlength
  have hs := List.takeWhile_eq_self_iff.mp
    ((List.takeWhile_prefix isSpace).eq_of_length hlength) c (List.mem_of_getLast? hc)
  rw [hblank] at hs
  cases hs

theorem exists_grow (current sent : Str) : ∃ t, grow current sent = current ++ t := by
  unfold grow
  split_ifs with h
  · exact ⟨_, rfl⟩
  · exact ⟨sent, by rw [not_not.mp h, List.nil_append]⟩

theorem exists_foldl_grow (rest : List Str) (current : Str) :
    ∃ t, rest.foldl grow current = current ++ t := by
  induction rest generalizing current with
  | nil => exact ⟨[], (List.append_nil current).symm⟩
  | cons sent rest ih =>
    obtain ⟨t, ht⟩ := exists_grow current sent
    obtain ⟨t', ht'⟩ := ih (grow current sent)
    exact ⟨t ++ t', by rw [List.foldl_cons, ht', ht, List.append_assoc]⟩

theorem takeWhile_joined (text : Str) :
    (joined text).takeWhile isSpace = text.takeWhile isSpace := by
  obtain ⟨first, rest, hsplit, hcase⟩ := sentencesFrom_cases [] text
  rw [joined, sentences, hsplit]
  obtain ⟨t, ht⟩ := exists_foldl_grow rest first
  change (rest.foldl grow first).takeWhile isSpace = _
  rcases hcase with ⟨rfl, rfl⟩ | ⟨hend, t', htext⟩
  · rfl
  · rw [ht, show text = first ++ t' from htext, takeWhile_of_endsSentence hend,
      takeWhile_of_endsSentence hend]

theorem isBlank_drop_length {s text : Str} (hlead : s.takeWhile isSpace = text.takeWhile isSpace)
    (h : strip s = strip text) : IsBlank (text.drop s.length) := by
  obtain ⟨b, hb, htext⟩ := exists_lstrip text
  obtain ⟨b', -, hs⟩ := exists_lstrip s
  have hsplit : text = (text.takeWhile isSpace ++ strip text) ++ b := by
    rw [List.append_assoc, ← htext]
    exact List.takeWhile_append_dropWhile.symm
  have hlength : s.length = (text.takeWhile isSpace ++ strip text).length + b'.length := by
    rw [← hlead, ← h, ← List.length_append, List.append_assoc, ← hs]
    exact congrArg List.length List.takeWhile_append_dropWhile.symm
  generalize text.takeWhile isSpace ++ strip text = front at hsplit hlength
  rw [hlength, ← List.drop_drop, hsplit, List.drop_left]
  exact fun x hx => hb x (List.mem_of_mem_drop hx)

theorem faithfulFrom_chunkSentences_iff {maxSize minSize : ℤ} {text : Str} {rest : List Str}
    {current : Str} (h : StaysWhole maxSize minSize rest current)
    (hlead : (rest.foldl grow current).takeWhile isSpace = text.takeWhile isSpace) (n : ℕ) :
    FaithfulFrom text n 0 (chunkSentences maxSize minSize rest current n 0) ↔
      strip (rest.foldl grow current) = strip text := by
  induction rest generalizing current n with
  | nil =>
    rw [chunkSentences, List.foldl_nil]
    split_ifs with hstrip
    · have htake (hblank : IsBlank (text.drop current.length)) :
          strip (slice text 0 current.length) = strip text := by
        conv_rhs => rw [← List.take_append_drop current.length text, strip_append_blank hblank]
        rfl
      rw [Nat.zero_add, FaithfulFrom.singleton_iff (Nat.zero_le _), strip_strip]
      constructor
      · rintro ⟨hcontent, hblank⟩
        rw [hcontent, htake hblank]
      · intro heq
        have hblank := isBlank_drop_length hlead heq
        exact ⟨by rw [htake hblank, heq], hblank⟩
    · rw [not_not.mp hstrip, FaithfulFrom.nil_iff, List.drop_zero, eq_comm, strip_eq_nil_iff]
  | cons sent rest ih =>
    rw [chunkSentences]
    split_ifs with hcloses
    · obtain rfl := h.1 hcloses
      exact FaithfulFrom.empty_cons_iff.trans (ih h.2 hlead (n + 1))
    · exact ih h.2 hlead n

end AgentStudio.Knowledge

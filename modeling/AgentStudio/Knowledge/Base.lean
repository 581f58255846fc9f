import AgentStudio.Library.Dict
import AgentStudio.Library.Rows
import AgentStudio.Library.Text
import Mathlib.Data.Set.Finite.Basic

/-!
# Knowledge bases

`KnowledgeBaseManager` of `agent_runtime/knowledge_base.py`: the index of the knowledge bases, for
each of them a directory with copies of its files and an index of them, and the entries of the
knowledge engine, which are stored elsewhere, under the identifier of the base as their scope.

`add_file` and `reparse_file` pass a file on to `_ingest_file`, which reads it (`readFile`), asks
the pipeline for its chunks and gives them to the engine; what goes wrong there is logged and
nothing else. The pipeline of `agent_runtime/data_ingestion.py` cuts a text into chunks (`process`),
but it has no method of the name that `_ingest_file` calls.

The decoders and parsers of Python's library that read a file are a parameter (`Readers`). What
`uuid4` draws is an argument, and the times are left out. A base is given by its identifier, which
is the name of its directory.
-/

namespace AgentStudio.Knowledge

open PyText PyDict

abbrev Bytes := List UInt8

/-! ### Reading a file and cutting it up -/

/-- The text that a file of a type has, or `none` if reading it raises. -/
structure Readers where
  text : Bytes → Str
  json : Bytes → Option Str
  csv : Bytes → Option Str
  html : Bytes → Str

/-- `Path(name).stem` and `Path(name).suffix`. -/
def splitName (name : Str) : Str × Str :=
  let fromEnd := name.reverse.idxOf '.'
  if 0 < fromEnd ∧ fromEnd + 1 < name.length then name.splitAt (name.length - 1 - fromEnd)
  else (name, [])

/-- `DocumentReader.read_file`. The type `.pdf` is supported, but there is no reader for it. -/
def readFile (readers : Readers) (name : Str) (bytes : Bytes) : Option Str :=
  let ext := (splitName name).2.map Char.toLower
  if ext = ".txt" ∨ ext = ".md" then some (readers.text bytes)
  else if ext = ".json" then readers.json bytes
  else if ext = ".csv" then readers.csv bytes
  else if ext = ".html" then some (readers.html bytes)
  else none

structure Chunk where
  content : Str
  index : ℕ
  startChar : ℕ
  endChar : ℕ
deriving DecidableEq

/-- `FixedSizeChunker.chunk` from a character on. -/
def chunkFrom (chunkSize overlap : ℕ) (text : Str) (start idx : ℕ) : List Chunk :=
  if start < text.length then
    let stop := min (start + chunkSize) text.length
    let chunk := ⟨(text.drop start).take (stop - start), idx, start, stop⟩
    if overlap < chunkSize then
      chunk :: chunkFrom chunkSize overlap text (start + (chunkSize - overlap)) (idx + 1)
    else [chunk]
  else []
termination_by text.length - start

/-- `ETLPipeline.process` of a new pipeline. -/
def process (text : Str) : List Chunk := chunkFrom 500 50 text 0 0

/-- The method of `ETLPipeline` with a name, among those that cut up a document. -/
def pipelineMethod (name : Str) : Option (Str → List Chunk) :=
  if name = "process" then some process else none

/-! ### The stores -/

structure KBFileInfo where
  fileId : Str
  filename : Str
  size : ℕ
  contentType : Str
  kbId : Str
  entryCount : ℕ
deriving DecidableEq

structure KnowledgeBase where
  id : Str
  name : Str
  description : Str
  tags : List Str
  scope : Str
  fileCount : ℕ
  totalSize : ℕ
deriving DecidableEq

structure KbDir where
  filesIndex : List KBFileInfo
  files : List (Str × Bytes)
deriving DecidableEq

structure KnowledgeEntry where
  id : Str
  content : Str
  scope : Str
deriving DecidableEq

/-- The stores. A directory that is not there is empty. -/
structure Store where
  index : List KnowledgeBase
  dirs : Str → KbDir
  entries : List KnowledgeEntry

def Store.empty : Store := ⟨[], fun _ => ⟨[], []⟩, []⟩

/-- What a call raises: a `ValueError` or a `FileNotFoundError` with its message. -/
inductive KbError
  | value (message : Str)
  | fileNotFound (message : Str)
deriving DecidableEq

/-- `get_kb`. -/
def Store.getKb (s : Store) (kbId : Str) : Option KnowledgeBase :=
  s.index.find? fun kb => kb.id = kbId

/-- The first entry with an identifier gets other counts. -/
def setCounts (kbId : Str) (fileCount totalSize : ℕ) : List KnowledgeBase → List KnowledgeBase
  | [] => []
  | kb :: kbs =>
    if kb.id = kbId then { kb with fileCount, totalSize } :: kbs
    else kb :: setCounts kbId fileCount totalSize kbs

/-- `update_kb` with counts. -/
def Store.updateKb (s : Store) (kbId : Str) (fileCount totalSize : ℕ) : Store :=
  { s with index := setCounts kbId fileCount totalSize s.index }

def Store.setDir (s : Store) (kbId : Str) (dir : KbDir) : Store :=
  { s with dirs := Function.update s.dirs kbId dir }

/-! ### The methods -/

/-- `create_kb`. -/
def Store.createKb (s : Store) (name description : Str) (tags : List Str) (scope fresh : Str) :
    KnowledgeBase × Store :=
  let kb : KnowledgeBase := ⟨fresh, name, description, tags, scope, 0, 0⟩
  (kb, { s with index := s.index ++ [kb] })

def numbered (name : Str) (counter : ℕ) : Str :=
  (splitName name).1 ++ '_' :: Nat.toDigits 10 counter ++ (splitName name).2

theorem numbered_injective (name : Str) : Function.Injective (numbered name) := by
  intro m n h
  have hprefix : (splitName name).1 ++ '_' :: Nat.toDigits 10 m =
      (splitName name).1 ++ '_' :: Nat.toDigits 10 n := by
    simpa [numbered] using h
  have hdigits := (List.cons.inj (List.append_cancel_left hprefix)).2
  simpa using congrArg (Nat.ofDigitChars 10 · 0) hdigits

theorem exists_numbered_notMem (name : Str) (taken : List Str) :
    ∃ n, numbered name (n + 1) ∉ taken := by
  have hinj : Function.Injective fun n : ℕ => numbered name (n + 1) :=
    (numbered_injective name).comp Nat.succ_injective
  obtain ⟨x, ⟨n, rfl⟩, hn⟩ := (Set.infinite_range_of_injective hinj).exists_notMem_finset
    taken.toFinset
  exact ⟨n, fun h => hn (List.mem_toFinset.mpr h)⟩

/-- The name of the copy of a file: its own, or the first that is free with a number. -/
def storedName (name : Str) (taken : List Str) : Str :=
  if name ∈ taken then numbered name (Nat.find (exists_numbered_notMem name taken) + 1) else name

/-- `_ingest_file`: the entries of the engine, and the entry of the file in the index. All
exceptions are logged. -/
def ingestFile (readers : Readers) (bytes : Bytes) (info : KBFileInfo) (s : Store) :
    KBFileInfo × Store :=
  match readFile readers info.filename bytes with
  | none => (info, s)
  | some _ =>
    match pipelineMethod "chunk_documents" with
    -- an `AttributeError`
    | none => (info, s)
    -- the engine takes a text and would raise a `TypeError` for a list
    | some _ => (info, s)

/-- `add_file`. `file` is what is at the path: the name and the content, or nothing. -/
def Store.addFile (readers : Readers) (s : Store) (kbId filePath : Str)
    (file : Option (Str × Bytes)) (contentType fresh : Str) : Except KbError KBFileInfo × Store :=
  match s.getKb kbId with
  | none => (.error (.value ("Knowledge base " ++ kbId ++ " not found")), s)
  | some kb =>
    match file with
    | none => (.error (.fileNotFound ("File not found: " ++ filePath)), s)
    | some (name, bytes) =>
      let dir := s.dirs kbId
      let filename := storedName name (dir.files.map Prod.fst)
      let files := setItem filename bytes dir.files
      let (info, s) := ingestFile readers bytes
        ⟨fresh, filename, bytes.length, contentType, kbId, 0⟩ (s.setDir kbId { dir with files })
      let s := s.setDir kbId { filesIndex := dir.filesIndex ++ [info], files }
      (.ok info, s.updateKb kbId (kb.fileCount + 1) (kb.totalSize + bytes.length))

/-- `delete_file`. -/
def Store.deleteFile (s : Store) (kbId fileId : Str) : Bool × Store :=
  let dir := s.dirs kbId
  match (dir.filesIndex.filter fun f => f.fileId = fileId).getLast? with
  | none => (false, s)
  | some target =>
    let s := s.setDir kbId
      { filesIndex := dir.filesIndex.filter fun f => f.fileId ≠ fileId
        files := pop target.filename dir.files }
    match s.getKb kbId with
    | none => (true, s)
    | some kb => (true, s.updateKb kbId (kb.fileCount - 1) (kb.totalSize - target.size))

/-- `reparse_file`. -/
def Store.reparseFile (readers : Readers) (s : Store) (kbId fileId : Str) :
    Option KBFileInfo × Store :=
  let dir := s.dirs kbId
  match dir.filesIndex.find? fun f => f.fileId = fileId with
  | none => (none, s)
  | some info =>
    match dir.files.lookup info.filename with
    | none => (none, s)
    | some bytes =>
      let (info, s) := ingestFile readers bytes { info with entryCount := 0 } s
      (some info, s.setDir kbId { dir with
        filesIndex := dir.filesIndex.map fun f => if f.fileId = fileId then info else f })

/-- `delete_kb`. -/
def Store.deleteKb (s : Store) (kbId : Str) : Bool × Store :=
  let index := s.index.filter fun kb => kb.id ≠ kbId
  if index.length = s.index.length then (false, s)
  else (true, Store.setDir { s with index } kbId ⟨[], []⟩)

/-! ### Calls -/

inductive Call
  | createKb (name description : Str) (tags : List Str) (scope fresh : Str)
  | addFile (kbId filePath : Str) (file : Option (Str × Bytes)) (contentType fresh : Str)
  | reparseFile (kbId fileId : Str)
  | deleteFile (kbId fileId : Str)
  | deleteKb (kbId : Str)

inductive Answer
  | kb (kb : KnowledgeBase)
  | added (result : Except KbError KBFileInfo)
  | reparsed (result : Option KBFileInfo)
  | deleted (done : Bool)

/-- The answer to a call, and the stores after it. -/
def call (readers : Readers) : Call → Store → Answer × Store
  | .createKb name description tags scope fresh, s =>
    let (kb, s) := s.createKb name description tags scope fresh
    (.kb kb, s)
  | .addFile kbId filePath file contentType fresh, s =>
    let (result, s) := s.addFile readers kbId filePath file contentType fresh
    (.added result, s)
  | .reparseFile kbId fileId, s =>
    let (result, s) := s.reparseFile readers kbId fileId
    (.reparsed result, s)
  | .deleteFile kbId fileId, s =>
    let (done, s) := s.deleteFile kbId fileId
    (.deleted done, s)
  | .deleteKb kbId, s =>
    let (done, s) := s.deleteKb kbId
    (.deleted done, s)

end AgentStudio.Knowledge

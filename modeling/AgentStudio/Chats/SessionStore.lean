import AgentStudio.Chats.Engine
import AgentStudio.Library.JsonRoundTrip
import AgentStudio.Library.Machine
import Mathlib.Data.List.Infix

/-!
# Session stores and forks

`agent_runtime/session_store.py` keeps chat sessions in the table `chat_sessions`
(`SQLiteSessionStore`) or in a directory with a file for each session (`FileSessionStore`). Both
write a session over the one with the same id. `fork` stores a copy of a session under an id that is
the hexadecimal form of the clock, in milliseconds (`forkId`).

`Forked` says what a fork should do: its id is new, the sessions that were there stay as they are,
and the copy has the messages of its parent. `forked_iff` says when the forks of a run do that: when
no session is stored under the id of a fork at that moment. Two forks in one millisecond are enough
to lose the first one (`not_forked`).

A session is put as the object that `from_dict` makes of the argument (`SQLiteSessionStore`), or as
a dictionary that is dumped into its file (`FileSessionStore`). The clock readings are arguments,
the text of a JSON value that is not a string is `str`.
-/

namespace AgentStudio.Chats

open PyText PyJson PyDict Rows Machine

/-! ### What a fork should do -/

/-- `f"chat-{int(time.time() * 1000):x}"`. -/
def forkId (millis : ℕ) : Str := "chat-" ++ Nat.toDigits 16 millis

/-- What a fork of `sessionId` that makes the session `newId`, or none, should do to what is stored
under the ids. -/
def Forked {ρ μ : Type} (messages : ρ → μ) (before after : Str → Option ρ) (sessionId : Str) :
    Option Str → Prop
  | none => after = before
  | some newId => before newId = none ∧ (∀ id, id ≠ newId → after id = before id) ∧
      after sessionId = before sessionId ∧
      ∃ parent copy, before sessionId = some parent ∧ after newId = some copy ∧
        messages copy = messages parent

theorem forked_upsert_iff {ρ μ : Type} {key : ρ → Str} {messages : ρ → μ} {T : Table key}
    {parent copy : ρ} {sessionId : Str} (hparent : T.find sessionId = some parent)
    (hmessages : messages copy = messages parent) :
    Forked messages T.find (T.upsert copy).find sessionId (some (key copy)) ↔
      T.find (key copy) = none := by
  refine ⟨And.left, fun hnew => ⟨hnew, fun id hid => Table.find_upsert_of_ne hid, ?_, parent, copy,
    hparent, Table.find_upsert_self, hmessages⟩⟩
  refine Table.find_upsert_of_ne fun hsame => ?_
  rw [← hsame, hparent] at hnew
  cases hnew

inductive StoreOp (σ τ : Type) where
  | put (session : σ) (now : τ)
  | fork (sessionId title : Str) (millis : ℕ) (now : τ)
  | delete (sessionId : Str)

/-! ### The table -/

/-- The table `chat_sessions`. -/
abbrev SQLiteSessionStore := Table ChatSession.id

namespace SQLiteSessionStore

variable (t : SQLiteSessionStore)

/-- `load_chat_session`. -/
def loadChatSession (sessionId : Str) : Option ChatSession :=
  (t.find sessionId).map ChatSession.load

/-- The row that `save_chat_session` writes; a row that exists keeps its creation time. -/
def savedRow (s : ChatSession) (now : ℤ) : ChatSession :=
  match t.find s.id with
  | some old => { s with updatedAt := now, createdAt := old.createdAt }
  | none => { s with updatedAt := now }

/-- `put`, and `save_chat_session`. -/
def put (s : ChatSession) (now : ℤ) : SQLiteSessionStore := t.upsert (savedRow t s now)

/-- The session that `fork` makes of its parent. -/
def forkOf (parent : ChatSession) (sessionId title : Str) (millis : ℕ) : ChatSession :=
  { parent with
    id := forkId millis
    title := if title = [] then parent.title ++ " (fork)" else title
    metadata := setItem "forked_from" (.str sessionId) parent.metadata }

/-- `fork`: the id of the new session, and the table. -/
def fork (sessionId title : Str) (millis : ℕ) (now : ℤ) : Option Str × SQLiteSessionStore :=
  match loadChatSession t sessionId with
  | none => (none, t)
  | some parent => (some (forkId millis), put t (forkOf parent sessionId title millis) now)

/-- A call; only `fork` answers with an id. -/
def step : StoreOp ChatSession ℤ → SQLiteSessionStore → Option Str × SQLiteSessionStore
  | .put session now, t => (none, put t session now)
  | .fork sessionId title millis now, t => fork t sessionId title millis now
  | .delete sessionId, t => (none, t.select fun s => s.id ≠ sessionId)

def Lawful : StoreOp ChatSession ℤ → SQLiteSessionStore → Prop
  | .fork sessionId title millis now, t => Forked ChatSession.messages t.find
      (fork t sessionId title millis now).2.find sessionId (fork t sessionId title millis now).1
  | _, _ => True

/-- No session is stored under the id of a fork, if its parent is there. -/
def Fresh : StoreOp ChatSession ℤ → SQLiteSessionStore → Prop
  | .fork sessionId _ millis _, t => t.find sessionId ≠ none → t.find (forkId millis) = none
  | _, _ => True

variable {t}

theorem id_savedRow (s : ChatSession) (now : ℤ) : (savedRow t s now).id = s.id := by
  unfold savedRow
  split <;> rfl

theorem messages_savedRow (s : ChatSession) (now : ℤ) :
    (savedRow t s now).messages = s.messages := by
  unfold savedRow
  split <;> rfl

theorem messages_load (s : ChatSession) : s.load.messages = s.messages := by
  unfold ChatSession.load
  split_ifs <;> rfl

theorem lawful_iff (op : StoreOp ChatSession ℤ) : Lawful op t ↔ Fresh op t := by
  cases op with
  | put | delete => exact Iff.rfl
  | fork sessionId title millis now =>
    change Forked _ t.find (fork t sessionId title millis now).2.find sessionId
      (fork t sessionId title millis now).1 ↔ (t.find sessionId ≠ none → _)
    unfold fork loadChatSession
    rcases hparent : t.find sessionId with _ | parent
    · exact iff_of_true rfl fun h => absurd rfl h
    · have hid := id_savedRow (t := t) (forkOf parent.load sessionId title millis) now
      have hmessages :
          (t.savedRow (forkOf parent.load sessionId title millis) now).messages = parent.messages :=
        (messages_savedRow (t := t) (forkOf parent.load sessionId title millis) now).trans
          (messages_load parent)
      have hiff := forked_upsert_iff hparent hmessages
      rw [hid] at hiff
      exact hiff.trans ⟨fun h _ => h, fun h => h (Option.some_ne_none _)⟩

end SQLiteSessionStore

/-! ### The directory -/

/-- A file of the directory, named by the id of its session. -/
structure SessionFile where
  sessionId : Str
  text : Str

abbrev FileSessionStore := Table SessionFile.sessionId

def setDict (d : Dict) (key : Str) (value : Json) (hvalue : value.WF) : Dict where
  members := setItem key value d.members
  nodup := nodup_setItem d.nodup
  wf m hm := by
    rcases mem_setItem hm with rfl | hm
    · exact hvalue
    · exact d.wf m hm

private theorem wf_str (s : Str) : (Json.str s).WF := trivial

private theorem wf_num (n : Number) : (Json.num n).WF := trivial

theorem lookup_setDict (d : Dict) {key : Str} {value : Json} (hvalue : value.WF) (k : Str) :
    (setDict d key value hvalue).members.lookup k =
      if k = key then some value else d.members.lookup k :=
  lookup_setItem key k value d.members

namespace FileSessionStore

/-- `_path` does not raise. -/
def ValidId (sessionId : Str) : Prop :=
  sessionId ≠ [] ∧ '/' ∉ sessionId ∧ '\\' ∉ sessionId ∧ ¬ ".." <:+: sessionId

instance (sessionId : Str) : Decidable (ValidId sessionId) := inferInstanceAs (Decidable (_ ∧ _))

variable (str : Json → Str)

def textOf : Json → Str
  | .str s => s
  | v => str v

/-- `str(session.get("id", "") or "")`. -/
def idOf (session : Dict) : Str :=
  match session.members.lookup "id".toList with
  | some v => if v.truthy then textOf str v else []
  | none => []

variable (dir : FileSessionStore)

def read (file : SessionFile) : Option Dict := (loads file.text).bind decodeDict

/-- `get`. -/
def get (sessionId : Str) : Option Dict :=
  if ValidId sessionId then (dir.find sessionId).bind read else none

/-- `put`: the id, unless it raises, and the directory. -/
def put (session : Dict) (now : Number) : Option Str × FileSessionStore :=
  let sessionId := idOf str session
  if ValidId sessionId then
    (some sessionId, dir.upsert
      ⟨sessionId, dumps none (setDict session "updated_at".toList (.num now) (wf_num now)).toJson⟩)
  else (none, dir)

/-- `parent.get("metadata") or {}`, if that is a dictionary. -/
def metadataOf (parent : Dict) : Option Dict :=
  match parent.members.lookup "metadata".toList with
  | some v => if v.truthy then decodeDict v else some Dict.empty
  | none => some Dict.empty

def titleOf (parent : Dict) (title : Str) : Str :=
  if title = [] then
    ((parent.members.lookup "title".toList).map (textOf str)).getD "session".toList ++
      " (fork)"
  else title

/-- The session that `fork` makes of its parent, whose metadata are `metadata`. -/
def forkOf (parent metadata : Dict) (sessionId title : Str) (millis : ℕ) : Dict :=
  setDict
    (setDict
      (setDict parent "id" (.str (forkId millis)) (wf_str _))
      "title" (.str (titleOf str parent title)) (wf_str _))
    "metadata" (setDict metadata "forked_from" (.str sessionId) (wf_str _)).toJson
      (Dict.toJson_wf _)

/-- `fork`: the id of the new session, and the directory. Metadata that are no dictionary make it
raise. -/
def fork (sessionId title : Str) (millis : ℕ) (now : Number) : Option Str × FileSessionStore :=
  match get dir sessionId with
  | none => (none, dir)
  | some parent =>
    match metadataOf parent with
    | none => (none, dir)
    | some metadata => put str dir (forkOf str parent metadata sessionId title millis) now

/-- A call; only `fork` answers with an id. -/
def step : StoreOp Dict Number → FileSessionStore → Option Str × FileSessionStore
  | .put session now, dir => (none, (put str dir session now).2)
  | .fork sessionId title millis now, dir => fork str dir sessionId title millis now
  | .delete sessionId, dir =>
    (none, if ValidId sessionId then dir.select fun file => file.sessionId ≠ sessionId else dir)

def messages (file : SessionFile) : Option (Option Json) :=
  (read file).map fun d => d.members.lookup "messages".toList

def Lawful : StoreOp Dict Number → FileSessionStore → Prop
  | .fork sessionId title millis now, dir => Forked messages dir.find
      (fork str dir sessionId title millis now).2.find sessionId
      (fork str dir sessionId title millis now).1
  | _, _ => True

/-- No file has the id of a fork, if its parent is there and can be copied. -/
def Fresh : StoreOp Dict Number → FileSessionStore → Prop
  | .fork sessionId _ millis _, dir =>
    (get dir sessionId).bind metadataOf ≠ none → dir.find (forkId millis) = none
  | _, _ => True

variable {dir}

theorem read_dumps (sessionId : Str) (d : Dict) :
    read ⟨sessionId, dumps none d.toJson⟩ = some d := by
  unfold read
  rw [loads_dumps none d.toJson_wf, Option.bind_some]
  exact Dict.ofMembers_members d

theorem exists_digitChar {c : Char} (n : ℕ) (h : c ∈ Nat.toDigits 16 n) :
    ∃ d < 16, c = Nat.digitChar d := by
  induction n using Nat.strong_induction_on with
  | h n ih =>
    rw [Nat.toDigits_eq_if (by decide)] at h
    split_ifs at h with hn
    · exact ⟨n, hn, List.mem_singleton.mp h⟩
    · rcases List.mem_append.mp h with h | h
      · exact ih (n / 16) (by omega) h
      · exact ⟨n % 16, by omega, List.mem_singleton.mp h⟩

theorem validId_forkId (millis : ℕ) : ValidId (forkId millis) := by
  have hplain : ∀ c ∈ ['/', '\\', '.'], c ∉ forkId millis := by
    have hchat : ("chat-".toList.all fun c => c ∉ ['/', '\\', '.']) = true := by decide
    have hdigits : ((List.range 16).all fun d => Nat.digitChar d ∉ ['/', '\\', '.']) = true := by
      decide
    intro c hc hmem
    rcases List.mem_append.mp hmem with h | h
    · exact of_decide_eq_true (List.all_eq_true.mp hchat c h) hc
    · obtain ⟨d, hd, rfl⟩ := exists_digitChar millis h
      exact of_decide_eq_true (List.all_eq_true.mp hdigits d (List.mem_range.mpr hd)) hc
  refine ⟨List.cons_ne_nil _ _, hplain _ (by decide), hplain _ (by decide), fun h => ?_⟩
  exact hplain '.' (by decide) (h.subset (by decide))

theorem idOf_forkOf (parent metadata : Dict) (sessionId title : Str) (millis : ℕ) :
    idOf str (forkOf str parent metadata sessionId title millis) = forkId millis := by
  have hlookup : (forkOf str parent metadata sessionId title millis).members.lookup "id".toList =
      some (.str (forkId millis)) := by
    unfold forkOf
    rw [lookup_setDict, if_neg (by decide), lookup_setDict, if_neg (by decide), lookup_setDict,
      if_pos rfl]
  rw [idOf, hlookup]
  rfl

theorem lookup_messages_forkOf (parent metadata : Dict) (sessionId title : Str) (millis : ℕ) :
    (forkOf str parent metadata sessionId title millis).members.lookup "messages".toList =
      parent.members.lookup "messages".toList := by
  unfold forkOf
  rw [lookup_setDict, if_neg (by decide), lookup_setDict, if_neg (by decide), lookup_setDict,
    if_neg (by decide)]

theorem put_forkOf (parent metadata : Dict) (sessionId title : Str) (millis : ℕ) (now : Number) :
    put str dir (forkOf str parent metadata sessionId title millis) now =
      (some (forkId millis), dir.upsert ⟨forkId millis, dumps none (setDict
        (forkOf str parent metadata sessionId title millis) "updated_at".toList (.num now)
        (wf_num now)).toJson⟩) := by
  unfold put
  rw [idOf_forkOf]
  exact if_pos (validId_forkId millis)

theorem lawful_iff (op : StoreOp Dict Number) : Lawful str op dir ↔ Fresh op dir := by
  cases op with
  | put | delete => exact Iff.rfl
  | fork sessionId title millis now =>
    change Forked _ dir.find (fork str dir sessionId title millis now).2.find sessionId
      (fork str dir sessionId title millis now).1 ↔ ((get dir sessionId).bind metadataOf ≠ none → _)
    unfold fork
    rcases hget : get dir sessionId with _ | parent
    · exact iff_of_true rfl fun h => absurd rfl h
    · rw [Option.bind_some]
      dsimp only
      rcases metadataOf parent with _ | metadata
      · exact iff_of_true rfl fun h => absurd rfl h
      · dsimp only
        rw [put_forkOf]
        rw [get] at hget
        split_ifs at hget
        obtain ⟨file, hfile, hread⟩ := Option.bind_eq_some_iff.mp hget
        refine Iff.trans (forked_upsert_iff hfile ?_) ⟨fun h _ => h, fun h => h (by simp)⟩
        rw [messages, messages, read_dumps, hread, Option.map_some, Option.map_some, lookup_setDict,
          if_neg (by decide), lookup_messages_forkOf]

end FileSessionStore

/-! ### Runs -/

/-- **Forks and the clock.** On both backends, the forks of a run do what they should exactly if, at
each of them, no session is stored under its id. -/
theorem forked_iff (ops : List (StoreOp ChatSession ℤ)) (t : SQLiteSessionStore)
    (str : Json → Str) (calls : List (StoreOp Dict Number)) (dir : FileSessionStore) :
    (Along SQLiteSessionStore.step SQLiteSessionStore.Lawful ops t ↔
      Along SQLiteSessionStore.step SQLiteSessionStore.Fresh ops t) ∧
    (Along (FileSessionStore.step str) (FileSessionStore.Lawful str) calls dir ↔
      Along (FileSessionStore.step str) FileSessionStore.Fresh calls dir) := by
  constructor
  · exact along_congr (J := fun _ => True) (fun _ _ _ => trivial)
      (fun op _ _ => SQLiteSessionStore.lawful_iff op) ops trivial
  · exact along_congr (J := fun _ => True) (fun _ _ _ => trivial)
      (fun op _ _ => FileSessionStore.lawful_iff str op) calls trivial

def forkedSession (id content : Str) : ChatSession where
  id := id
  title := []
  mode := "simple"
  messages := [.new "m" "user" (.text content) "simple" 0]
  activeBranch := "m"
  graphId := []
  metadata := []
  createdAt := 0
  updatedAt := 0

/-- Two sessions are forked in one millisecond: the second copy is written over the first. -/
theorem not_forked : ¬ ∀ ops (t : SQLiteSessionStore),
    Along SQLiteSessionStore.step SQLiteSessionStore.Lawful ops t := by
  intro h
  have hfork := (h [.put (forkedSession "a" "hello") 0,
    .put (forkedSession "b" "good bye") 0, .fork "a" [] 1760000000000 0,
    .fork "b" [] 1760000000000 0] Table.empty).2.2.2.1
  exact absurd hfork.1 (Option.some_ne_none _)

end AgentStudio.Chats

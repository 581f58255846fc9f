import AgentStudio.Chats.Engine
import AgentStudio.Library.Machine

/-!
# No message is lost

What the calls of `ChatEngine` in `agent_runtime/chat_engine.py` keep of the stored messages.

`Grown` says that a list of messages has grown: the messages are still there, in their places, and
at most their child lists are longer. `Synced` is the invariant: the session in memory has grown
from its row. Where it holds, `get_session` returns every stored message (`complete_iff`) and a
call lets the rows grow (`Synced.grows`).

Every call keeps `Synced` but `list_sessions`, which enters sessions without their messages. It
keeps it exactly if every listed row that is not in memory has no messages
(`synced_listSessions_iff`), so exactly then no message is lost in a run
(`keepsMessages_iff`). A restart, a listing and a message are enough to lose the earlier messages
(`not_keepsMessages`).
-/

namespace AgentStudio.Chats

open PyText Machine Rows

variable {l l' l'' : List ChatMessage} {e : ChatEngine} {s : ChatSession}

/-! ### Growing lists of messages -/

/-- The same message, perhaps with more children. -/
def Extends (m m' : ChatMessage) : Prop :=
  m' = { m with childrenIds := m'.childrenIds } ∧ m.childrenIds <+: m'.childrenIds

/-- The messages of the first list are those of the second at the same places. -/
def Grown (l l' : List ChatMessage) : Prop :=
  ∀ (i : ℕ) (m : ChatMessage), l[i]? = some m → ∃ m', l'[i]? = some m' ∧ Extends m m'

theorem Extends.refl (m : ChatMessage) : Extends m m := ⟨rfl, List.prefix_refl _⟩

theorem Extends.trans {a b c : ChatMessage} (hab : Extends a b) (hbc : Extends b c) :
    Extends a c := by
  refine ⟨hbc.1.trans ?_, hab.2.trans hbc.2⟩
  rw [hab.1]

theorem extends_addChild (m : ChatMessage) (c : Str) : Extends m (m.addChild c) :=
  ⟨rfl, List.prefix_append _ _⟩

namespace Grown

theorem refl (l : List ChatMessage) : Grown l l := fun _ m hm => ⟨m, hm, .refl m⟩

theorem trans (h : Grown l l') (h' : Grown l' l'') : Grown l l'' := by
  intro i m hm
  obtain ⟨m', hm', hext⟩ := h i m hm
  obtain ⟨m'', hm'', hext'⟩ := h' i m' hm'
  exact ⟨m'', hm'', hext.trans hext'⟩

theorem append (l l' : List ChatMessage) : Grown l (l ++ l') := by
  intro i m hm
  have hi : i < l.length := (List.getElem?_eq_some_iff.mp hm).1
  exact ⟨m, (List.getElem?_append_left hi).trans hm, .refl m⟩

theorem modify {i : ℕ} {f : ChatMessage → ChatMessage}
    (hf : ∀ m, l[i]? = some m → Extends m (f m)) : Grown l (l.modify i f) := by
  intro j m hm
  rw [List.getElem?_modify, hm]
  by_cases hij : i = j
  · obtain rfl := hij
    refine ⟨f m, ?_, hf m hm⟩
    simp
  · refine ⟨m, ?_, .refl m⟩
    simp [hij]

theorem nil_iff : Grown l [] ↔ l = [] := by
  constructor
  · intro h
    rcases l with _ | ⟨m, l⟩
    · rfl
    · obtain ⟨m', hm', -⟩ := h 0 m rfl
      exact absurd hm' (by simp)
  · rintro rfl
    exact refl []

end Grown

/-! ### The operations on a session -/

namespace ChatSession

theorem grown_modify (s : ChatSession) (k c : Str) :
    Grown s.messages (s.modify k (.addChild c)).messages :=
  .modify fun m _ => extends_addChild m c

theorem id_addMessage (s : ChatSession) (m : ChatMessage) (parentId : Str) (now : ℤ) :
    (s.addMessage m parentId now).id = s.id := by
  have hattach : (s.attach m parentId).2.id = s.id := by
    unfold attach
    split_ifs
    · rfl
    · dsimp only
      split
      · split_ifs <;> rfl
      · rfl
  have hroot (t : ChatSession) (m : ChatMessage) : (t.attachToRoot m).2.id = t.id := by
    unfold attachToRoot
    split_ifs
    · split <;> rfl
    · rfl
  exact (hroot _ _).trans hattach

theorem id_send (s : ChatSession) (c : SendCall) (runtime : Bool) :
    (s.send c runtime).id = s.id := by
  have h := (id_addMessage (s.addMessage (c.userMessage (c.effectiveMode s)) s.activeBranch c.now)
    (.new c.assistantId "assistant" (.text []) (c.effectiveMode s) c.now) c.userId
    c.now).trans (id_addMessage _ _ _ _)
  unfold send
  dsimp only
  split_ifs <;> exact h

theorem grown_addMessage (s : ChatSession) (m : ChatMessage) (parentId : Str) (now : ℤ) :
    Grown s.messages (s.addMessage m parentId now).messages := by
  have hattach : Grown s.messages (s.attach m parentId).2.messages := by
    unfold attach
    split_ifs
    · exact .refl _
    · dsimp only
      split
      · split_ifs
        · exact .refl _
        · exact s.grown_modify _ _
      · exact .refl _
  have hroot (t : ChatSession) (m : ChatMessage) :
      Grown t.messages (t.attachToRoot m).2.messages := by
    unfold attachToRoot
    split_ifs
    · split
      · exact .modify fun m' _ => extends_addChild m' m.id
      · exact .refl _
    · exact .refl _
  exact (hattach.trans (hroot _ _)).trans (.append _ _)

theorem id_branch {messageId newId : Str} {ids : ℕ → Str} {now : ℤ} {t : ChatSession}
    (h : s.branch messageId newId ids now = some t) : t.id = newId := by
  obtain ⟨m, -, rfl⟩ := Option.map_eq_some_iff.mp h
  have hfold (l : List (ChatMessage × Str)) (u : ChatSession) :
      (l.foldl (addCopy now) u).id = u.id := by
    induction l generalizing u with
    | nil => rfl
    | cons p l ih => exact (ih _).trans (id_addMessage _ _ _ _)
  exact hfold _ _

theorem edit_grows {messageId content editedId : Str} {now : ℤ} {m : ChatMessage}
    {t : ChatSession} (h : s.edit messageId content editedId now = some (m, t)) :
    t.id = s.id ∧ Grown s.messages t.messages := by
  unfold edit at h
  split at h
  · exact absurd h.symm (Option.some_ne_none _)
  · split_ifs at h
    obtain ⟨-, rfl⟩ := Prod.mk.inj (Option.some.inj h)
    exact ⟨rfl, (s.grown_modify _ _).trans (.append _ _)⟩

theorem switchBranch_grows {messageId : Str} {t : ChatSession}
    (h : s.switchBranch messageId = some t) : t.id = s.id ∧ Grown s.messages t.messages := by
  unfold switchBranch at h
  split at h
  · exact absurd h.symm (Option.some_ne_none _)
  · split_ifs at h
    obtain rfl := Option.some.inj h
    exact ⟨rfl, .refl _⟩

theorem grown_send (s : ChatSession) (c : SendCall) (runtime : Bool)
    (hnew : c.assistantId ∉ s.messages.map ChatMessage.id) :
    Grown s.messages (s.send c runtime).messages := by
  set mode := c.effectiveMode s
  set s₂ := (s.addMessage (c.userMessage mode) s.activeBranch c.now).addMessage
    (.new c.assistantId "assistant" (.text []) mode c.now) c.userId c.now
  have hgrown : Grown s.messages s₂.messages :=
    (grown_addMessage _ _ _ _).trans (grown_addMessage _ _ _ _)
  have hsend : (s.send c runtime).messages = (s₂.modify c.assistantId
      (c.answer (decide (mode = "agent") && runtime))).messages := by
    rw [send]
    split_ifs <;> rfl
  rw [hsend]
  intro j m hm
  obtain ⟨m', hm', hext⟩ := hgrown j m hm
  refine ⟨m', ?_, hext⟩
  refine (List.getElem?_modify_ne _ _ fun hj => hnew ?_).trans hm'
  -- the message that is found has the new id, and this one has an old id
  have hlt : s₂.indexOf c.assistantId < s₂.messages.length :=
    hj ▸ (List.getElem?_eq_some_iff.mp hm').1
  have hid : s₂.messages[s₂.indexOf c.assistantId].id = c.assistantId :=
    of_decide_eq_true (List.findIdx_getElem (w := hlt))
  have hm'' : m' = s₂.messages[s₂.indexOf c.assistantId] :=
    (Option.some.inj ((List.getElem?_eq_getElem hlt).symm.trans (hj ▸ hm'))).symm
  have hmid : m'.id = m.id := by rw [hext.1]
  rw [← hid, ← hm'', hmid]
  exact List.mem_map_of_mem (List.mem_of_getElem? hm)

theorem messages_load (s : ChatSession) : s.load.messages = s.messages := by
  unfold load
  split_ifs <;> rfl

theorem id_load (s : ChatSession) : s.load.id = s.id := by
  unfold load
  split_ifs <;> rfl

end ChatSession

/-! ### Memory and rows -/

/-- A session in memory has grown from its row. -/
def Synced (e : ChatEngine) : Prop :=
  ∀ s ∈ e.sessions.rows, ∀ r, e.chatSessions.find s.id = some r → Grown r.messages s.messages

/-- `get_session` returns every stored message of every stored session. -/
def Complete (e : ChatEngine) : Prop :=
  ∀ r ∈ e.chatSessions.rows, ∃ s, (e.getSession r.id).1 = some s ∧ Grown r.messages s.messages

/-- The rows of one engine are there in the other, with grown messages. -/
def RowsGrow (e e' : ChatEngine) : Prop :=
  ∀ r ∈ e.chatSessions.rows, ∃ r', e'.chatSessions.find r.id = some r' ∧
    Grown r.messages r'.messages

theorem RowsGrow.of_eq {e e' : ChatEngine} (h : e'.chatSessions = e.chatSessions) :
    RowsGrow e e' := fun r hr => by
  rw [h]
  exact ⟨r, Table.find_eq_some_iff.mpr ⟨hr, rfl⟩, .refl _⟩

theorem RowsGrow.trans {e e' e'' : ChatEngine} (h : RowsGrow e e') (h' : RowsGrow e' e'') :
    RowsGrow e e'' := by
  intro r hr
  obtain ⟨r', hr', hgrown⟩ := h r hr
  obtain ⟨hmem, hid⟩ := Table.find_eq_some_iff.mp hr'
  obtain ⟨r'', hr'', hgrown'⟩ := h' r' hmem
  exact ⟨r'', hid ▸ hr'', hgrown.trans hgrown'⟩

namespace ChatEngine

theorem getSession_of_find {k : Str} (h : e.sessions.find k = some s) :
    e.getSession k = (some s, e) := by
  rw [getSession, h]

theorem complete_iff : Complete e ↔ Synced e := by
  constructor
  · intro h s hs r hr
    obtain ⟨hmem, hid⟩ := Table.find_eq_some_iff.mp hr
    obtain ⟨s', hs', hgrown⟩ := h r hmem
    rw [hid, getSession_of_find (Table.find_eq_some_iff.mpr ⟨hs, rfl⟩)] at hs'
    exact Option.some.inj hs' ▸ hgrown
  · intro h r hr
    have hrow : e.chatSessions.find r.id = some r := Table.find_eq_some_iff.mpr ⟨hr, rfl⟩
    rcases hfind : e.sessions.find r.id with _ | s
    · refine ⟨r.load, ?_, ?_⟩
      · rw [getSession, hfind]
        simp only [hrow]
      · rw [ChatSession.messages_load]
        exact .refl _
    · obtain ⟨hs, hid⟩ := Table.find_eq_some_iff.mp hfind
      exact ⟨s, by rw [getSession_of_find hfind], h s hs r (hid ▸ hrow)⟩

theorem evictSessions_spec (h : Synced e) :
    Synced e.evictSessions ∧ e.evictSessions.chatSessions = e.chatSessions := by
  unfold evictSessions
  split_ifs
  · exact ⟨h, rfl⟩
  · exact ⟨fun s hs => h s (List.mem_filter.mp hs).1, rfl⟩

theorem synced_upsert (h : Synced e)
    (hs : ∀ r, e.chatSessions.find s.id = some r → Grown r.messages s.messages) :
    Synced { e with sessions := e.sessions.upsert s } := by
  intro x hx r hr
  rcases Table.mem_upsert.mp hx with rfl | ⟨hx, -⟩
  · exact hs r hr
  · exact h x hx r hr

theorem getSession_spec (h : Synced e) (k : Str) :
    Synced (e.getSession k).2 ∧ (e.getSession k).2.chatSessions = e.chatSessions ∧
      ∀ s, (e.getSession k).1 = some s → s.id = k ∧
        ∀ r, e.chatSessions.find k = some r → Grown r.messages s.messages := by
  rcases hfind : e.sessions.find k with _ | s
  · rcases hrow : e.chatSessions.find k with _ | row
    · have heq : e.getSession k = (none, e) := by
        rw [getSession, hfind]
        simp only [hrow]
      rw [heq]
      exact ⟨h, rfl, fun s hs => absurd hs (by simp)⟩
    · have heq : e.getSession k =
          (some row.load, { e with sessions := e.sessions.upsert row.load }.evictSessions) := by
        rw [getSession, hfind]
        simp only [hrow]
      have hid := (Table.find_eq_some_iff.mp hrow).2
      have hgrown : ∀ r, e.chatSessions.find k = some r →
          Grown r.messages row.load.messages := by
        intro r hr
        rw [ChatSession.messages_load, Option.some.inj (hrow.symm.trans hr)]
        exact .refl _
      have hsynced : Synced { e with sessions := e.sessions.upsert row.load } := by
        refine synced_upsert h ?_
        rw [ChatSession.id_load, hid]
        exact hgrown
      obtain ⟨hevict, hrows⟩ := evictSessions_spec hsynced
      rw [heq]
      refine ⟨hevict, hrows, fun s hs => ?_⟩
      obtain rfl := Option.some.inj hs
      exact ⟨(ChatSession.id_load row).trans hid, hrow ▸ hgrown⟩
  · obtain ⟨hmem, hid⟩ := Table.find_eq_some_iff.mp hfind
    rw [getSession_of_find hfind]
    refine ⟨h, rfl, fun s' hs' => ?_⟩
    obtain rfl := Option.some.inj hs'
    exact ⟨hid, fun r hr => h s hmem r (hid ▸ hr)⟩

theorem assign_spec (h : Synced e)
    (hs : ∀ r, e.chatSessions.find s.id = some r → Grown r.messages s.messages) :
    Synced (e.assign s) ∧ (e.assign s).chatSessions = e.chatSessions := by
  unfold assign
  split_ifs
  · exact ⟨synced_upsert h hs, rfl⟩
  · exact ⟨h, rfl⟩

theorem eq_of_mem_assign {x : ChatSession} (hx : x ∈ (e.assign s).sessions.rows)
    (hid : x.id = s.id) : x = s := by
  unfold assign at hx
  split_ifs at hx with h
  · rcases Table.mem_upsert.mp hx with rfl | ⟨-, hne⟩
    · rfl
    · exact absurd hid hne
  · refine absurd ?_ h
    rw [Table.find_eq_some_iff.mpr ⟨hx, hid⟩]
    rfl

theorem rowFor_spec (e : ChatEngine) (s : ChatSession) :
    (e.rowFor s).id = s.id ∧ (e.rowFor s).messages = s.messages := by
  unfold rowFor
  split <;> exact ⟨rfl, rfl⟩

theorem persist_spec (h : Synced e)
    (hs : ∀ r, e.chatSessions.find s.id = some r → Grown r.messages s.messages) (save : Save) :
    Synced (e.persist s save) ∧ RowsGrow e (e.persist s save) := by
  set s₁ := { s with updatedAt := save.now }
  obtain ⟨hassign, hrows⟩ := assign_spec (s := s₁) h hs
  by_cases hok : save.ok = true
  · have hpersist : e.persist s save = { e.assign s₁ with
        chatSessions := (e.assign s₁).chatSessions.upsert ((e.assign s₁).rowFor s₁) } :=
      if_pos hok
    obtain ⟨hid, hmsgs⟩ := rowFor_spec (e.assign s₁) s₁
    rw [hpersist]
    constructor
    · intro x hx r hr
      by_cases hxs : x.id = s.id
      · obtain rfl := eq_of_mem_assign hx hxs
        rw [← hid, Table.find_upsert_self] at hr
        rw [← Option.some.inj hr, hmsgs]
        exact .refl _
      · rw [Table.find_upsert_of_ne (hid ▸ hxs)] at hr
        exact hassign x hx r hr
    · intro r hr
      by_cases hrs : r.id = s.id
      · refine ⟨_, (congrArg _ (hrs.trans hid.symm)).trans Table.find_upsert_self, ?_⟩
        rw [hmsgs]
        exact hs r (hrs ▸ Table.find_eq_some_iff.mpr ⟨hr, rfl⟩)
      · refine ⟨r, ?_, .refl _⟩
        rw [Table.find_upsert_of_ne (hid ▸ hrs), hrows]
        exact Table.find_eq_some_iff.mpr ⟨hr, rfl⟩
  · have hpersist : e.persist s save = e.assign s₁ := if_neg hok
    rw [hpersist]
    exact ⟨hassign, .of_eq hrows⟩

/-! ### The calls -/

/-- The ids that a call draws are new. -/
def Fresh : Call → ChatEngine → Prop
  | .createSession _ _ _ _ newId _ _ _, e =>
    e.sessions.find newId = none ∧ e.chatSessions.find newId = none
  | .branch _ _ newId _ _ _, e =>
    e.sessions.find newId = none ∧ e.chatSessions.find newId = none
  | .send sessionId c _, e =>
    ∀ s ∈ (e.getSession sessionId).1, c.assistantId ∉ s.messages.map ChatMessage.id
  | _, _ => True

/-- The rows of the sessions that `list_chat_sessions` reads. -/
def listed (e : ChatEngine) : List ChatSession :=
  (e.chatSessions.rows.insertionSort fun a b => b.updatedAt ≤ a.updatedAt).take listLimit

/-- The call does not list a stored session with messages that is not in memory. -/
def ListsWhole : Call → ChatEngine → Prop
  | .listSessions, e => ∀ r ∈ e.listed, e.sessions.find r.id = none → r.messages = []
  | _, _ => True

/-- The call lets the rows grow, but for one that it deletes. -/
def Grows (c : Call) (e : ChatEngine) : Prop :=
  ∀ r ∈ e.chatSessions.rows, (∀ k, c = .deleteSession k → k ≠ r.id) →
    ∃ r', (step c e).2.chatSessions.find r.id = some r' ∧ Grown r.messages r'.messages

theorem of_getSession {e' : ChatEngine} {k : Str} (h : Synced e)
    (hget : e.getSession k = (some s, e')) {t : ChatSession} (hid : t.id = s.id)
    (hgrown : Grown s.messages t.messages) :
    Synced e' ∧ RowsGrow e e' ∧
      ∀ r, e'.chatSessions.find t.id = some r → Grown r.messages t.messages := by
  obtain ⟨hsynced, hrows, hspec⟩ := getSession_spec h k
  rw [hget] at hsynced hrows hspec
  obtain ⟨hsk, hsr⟩ := hspec s rfl
  refine ⟨hsynced, .of_eq hrows, fun r hr => (hsr r ?_).trans hgrown⟩
  rwa [← hsk, ← hid, ← hrows]

theorem of_getSession_none {e' : ChatEngine} {k : Str} (h : Synced e)
    (hget : e.getSession k = (none, e')) : Synced e' ∧ RowsGrow e e' := by
  obtain ⟨hsynced, hrows, -⟩ := getSession_spec h k
  rw [hget] at hsynced hrows
  exact ⟨hsynced, .of_eq hrows⟩

theorem send_spec (h : Synced e) {k : Str} {c : ChatSession.SendCall} {save : Save}
    (hfresh : Fresh (.send k c save) e) :
    Synced (e.send k c save).2 ∧ RowsGrow e (e.send k c save).2 := by
  unfold send
  rcases hget : e.getSession k with ⟨_ | s, e'⟩
  · exact of_getSession_none h hget
  · have hnew := hfresh s (by rw [hget]; rfl)
    obtain ⟨hsynced, hrows, hgrown⟩ := of_getSession h hget (ChatSession.id_send s c e'.runtime)
      (ChatSession.grown_send s c e'.runtime hnew)
    dsimp only
    split_ifs
    · obtain ⟨hpersist, hpersisted⟩ := persist_spec hsynced hgrown save
      exact ⟨hpersist, hrows.trans hpersisted⟩
    · obtain ⟨hassign, hassigned⟩ := assign_spec hsynced hgrown
      exact ⟨hassign, hrows.trans (.of_eq hassigned)⟩

theorem edit_spec (h : Synced e) (k messageId content editedId : Str) (now : ℤ) (save : Save) :
    Synced (e.edit k messageId content editedId now save).2 ∧
      RowsGrow e (e.edit k messageId content editedId now save).2 := by
  unfold edit
  rcases hget : e.getSession k with ⟨_ | s, e'⟩
  · exact of_getSession_none h hget
  · dsimp only
    rcases hedit : s.edit messageId content editedId now with _ | ⟨m, t⟩
    · obtain ⟨hsynced, hrows, -⟩ := of_getSession h hget rfl (.refl _)
      exact ⟨hsynced, hrows⟩
    · obtain ⟨hid, hext⟩ := ChatSession.edit_grows hedit
      obtain ⟨hsynced, hrows, hgrown⟩ := of_getSession h hget hid hext
      obtain ⟨hpersist, hpersisted⟩ := persist_spec hsynced hgrown save
      exact ⟨hpersist, hrows.trans hpersisted⟩

theorem switchBranch_spec (h : Synced e) (k messageId : Str) (save : Save) :
    Synced (e.switchBranch k messageId save).2 ∧
      RowsGrow e (e.switchBranch k messageId save).2 := by
  unfold switchBranch
  rcases hget : e.getSession k with ⟨_ | s, e'⟩
  · exact of_getSession_none h hget
  · dsimp only
    rcases hswitch : s.switchBranch messageId with _ | t
    · obtain ⟨hsynced, hrows, -⟩ := of_getSession h hget rfl (.refl _)
      exact ⟨hsynced, hrows⟩
    · obtain ⟨hid, hext⟩ := ChatSession.switchBranch_grows hswitch
      obtain ⟨hsynced, hrows, hgrown⟩ := of_getSession h hget hid hext
      obtain ⟨hpersist, hpersisted⟩ := persist_spec hsynced hgrown save
      exact ⟨hpersist, hrows.trans hpersisted⟩

theorem new_spec (h : Synced e) (hnew : e.chatSessions.find s.id = none) (save : Save) :
    Synced ({ e with sessions := e.sessions.upsert s }.persist s save) ∧
      RowsGrow e ({ e with sessions := e.sessions.upsert s }.persist s save) ∧
      Synced ({ e with sessions := e.sessions.upsert s }.evictSessions.persist s save) ∧
      RowsGrow e ({ e with sessions := e.sessions.upsert s }.evictSessions.persist s save) := by
  have hvacuous : ∀ r, e.chatSessions.find s.id = some r → Grown r.messages s.messages :=
    fun r hr => absurd (hnew.symm.trans hr) (by simp)
  have hsynced := synced_upsert h hvacuous
  obtain ⟨hevict, hrows⟩ := evictSessions_spec hsynced
  obtain ⟨hpersist, hpersisted⟩ := persist_spec hsynced hvacuous save
  obtain ⟨hpersist', hpersisted'⟩ :=
    persist_spec (s := s) hevict (fun r hr => hvacuous r (hrows ▸ hr)) save
  exact ⟨hpersist, hpersisted, hpersist', (RowsGrow.of_eq hrows).trans hpersisted'⟩

theorem branch_spec (h : Synced e) {k messageId newId : Str} {ids : ℕ → Str} {now : ℤ}
    {save : Save} (hfresh : Fresh (.branch k messageId newId ids now save) e) :
    Synced (e.branch k messageId newId ids now save).2 ∧
      RowsGrow e (e.branch k messageId newId ids now save).2 := by
  unfold branch
  rcases hget : e.getSession k with ⟨_ | s, e'⟩
  · exact of_getSession_none h hget
  · obtain ⟨hsynced, hrows, -⟩ := of_getSession h hget rfl (.refl _)
    dsimp only
    rcases hbranch : s.branch messageId newId ids now with _ | b
    · exact ⟨hsynced, hrows⟩
    · have hstore : e'.chatSessions = e.chatSessions := by
        have := (getSession_spec h k).2.1
        rwa [hget] at this
      have hnew : e'.chatSessions.find b.id = none := by
        rw [hstore, ChatSession.id_branch hbranch]
        exact hfresh.2
      obtain ⟨hpersist, hpersisted, -⟩ := new_spec hsynced hnew save
      exact ⟨hpersist, hrows.trans hpersisted⟩

theorem deleteSession_spec (h : Synced e) (k : Str) :
    Synced (e.deleteSession k).2 ∧ ∀ r ∈ e.chatSessions.rows, k ≠ r.id →
      (e.deleteSession k).2.chatSessions.find r.id = some r := by
  constructor
  · intro x hx r hr
    obtain ⟨hr, hid⟩ := Table.find_eq_some_iff.mp hr
    exact h x (List.mem_filter.mp hx).1 r
      (Table.find_eq_some_iff.mpr ⟨(List.mem_filter.mp hr).1, hid⟩)
  · intro r hr hne
    exact Table.find_eq_some_iff.mpr
      ⟨List.mem_filter.mpr ⟨hr, decide_eq_true fun h => hne h.symm⟩, rfl⟩

private theorem mem_foldl_list {l : List ChatSession} (hn : (l.map ChatSession.id).Nodup)
    (T : Table ChatSession.id) (x : ChatSession) :
    x ∈ (l.foldl (fun cache s => if (cache.find s.id).isSome then cache else cache.upsert s)
        T).rows ↔ x ∈ T.rows ∨ x ∈ l ∧ T.find x.id = none := by
  induction l generalizing T with
  | nil => simp
  | cons s l ih =>
    obtain ⟨hs, hn⟩ := List.nodup_cons.mp hn
    rw [List.foldl_cons, ih hn]
    rcases hfind : T.find s.id with _ | y
    · rw [if_neg (by simp)]
      have hkeep : ∀ z ∈ T.rows, z.id ≠ s.id := fun z hz hzs =>
        Table.find_eq_none_iff.mp hfind (List.mem_map.mpr ⟨z, hz, hzs⟩)
      constructor
      · rintro (hx | ⟨hx, hnone⟩)
        · rcases Table.mem_upsert.mp hx with rfl | ⟨hx, -⟩
          · exact Or.inr ⟨List.mem_cons_self, hfind⟩
          · exact Or.inl hx
        · have hne : x.id ≠ s.id := fun h => hs (List.mem_map.mpr ⟨x, hx, h⟩)
          rw [Table.find_upsert_of_ne hne] at hnone
          exact Or.inr ⟨List.mem_cons_of_mem _ hx, hnone⟩
      · rintro (hx | ⟨hx, hnone⟩)
        · exact Or.inl (Table.mem_upsert.mpr (Or.inr ⟨hx, hkeep x hx⟩))
        · rcases List.mem_cons.mp hx with rfl | hx
          · exact Or.inl (Table.mem_upsert.mpr (Or.inl rfl))
          · have hne : x.id ≠ s.id := fun h => hs (List.mem_map.mpr ⟨x, hx, h⟩)
            refine Or.inr ⟨hx, ?_⟩
            rwa [Table.find_upsert_of_ne hne]
    · rw [if_pos (by simp)]
      refine or_congr_right ⟨fun hx => ⟨List.mem_cons_of_mem _ hx.1, hx.2⟩, ?_⟩
      rintro ⟨hx, hnone⟩
      rcases List.mem_cons.mp hx with rfl | hx
      · exact absurd (hfind.symm.trans hnone) (by simp)
      · exact ⟨hx, hnone⟩

/-- A listing keeps memory and rows in step exactly if every listed row that is not in memory has
no messages. -/
theorem synced_listSessions_iff (h : Synced e) :
    Synced e.listSessions.2 ↔ ListsWhole .listSessions e := by
  have hsub : e.listed.Sublist (e.chatSessions.rows.insertionSort fun a b =>
      b.updatedAt ≤ a.updatedAt) := List.take_sublist _ _
  have hmem : ∀ r ∈ e.listed, r ∈ e.chatSessions.rows := fun r hr =>
    (List.mem_insertionSort _).mp (hsub.subset hr)
  have hids : e.listChatSessions.map ChatSession.id = e.listed.map ChatSession.id := by
    rw [listChatSessions, List.map_map]
    rfl
  have hn : (e.listChatSessions.map ChatSession.id).Nodup := by
    rw [hids]
    exact (((List.perm_insertionSort _ _).map _).nodup_iff.mpr e.chatSessions.nodup).sublist
      (hsub.map _)
  have hrows := mem_foldl_list hn e.sessions
  constructor
  · intro hsynced r hr hnone
    have hx := hsynced { r with messages := [] }
      ((hrows _).mpr (Or.inr ⟨List.mem_map_of_mem hr, hnone⟩)) r
      (Table.find_eq_some_iff.mpr ⟨hmem r hr, rfl⟩)
    exact Grown.nil_iff.mp hx
  · intro hwhole x hx r hr
    rcases (hrows x).mp hx with hx | ⟨hx, hnone⟩
    · exact h x hx r hr
    · obtain ⟨row, hrow, rfl⟩ := List.mem_map.mp hx
      have hfind : e.chatSessions.find row.id = some row :=
        Table.find_eq_some_iff.mpr ⟨hmem row hrow, rfl⟩
      obtain rfl := Option.some.inj (hfind.symm.trans hr)
      exact Grown.nil_iff.mpr (hwhole row hrow hnone)

/-! ### Runs -/

/-- A call lets the rows grow, and keeps memory in step exactly if it lists whole sessions. -/
theorem step_spec (c : Call) (e : ChatEngine) (h : Synced e) (hfresh : Fresh c e) :
    Grows c e ∧ (Synced (step c e).2 ↔ ListsWhole c e) := by
  have of_rows {c : Call} (hspec : Synced (step c e).2 ∧ RowsGrow e (step c e).2)
      (hwhole : ListsWhole c e) : Grows c e ∧ (Synced (step c e).2 ↔ ListsWhole c e) :=
    ⟨fun r hr _ => hspec.2 r hr, iff_of_true hspec.1 hwhole⟩
  cases c with
  | createSession mode title clockTitle graphId newId metadata now save =>
    exact of_rows (new_spec (s := newSession mode title clockTitle graphId newId metadata now) h
      hfresh.2 save).2.2 trivial
  | getSession k =>
    obtain ⟨hsynced, hrows, -⟩ := getSession_spec h k
    exact of_rows ⟨hsynced, .of_eq hrows⟩ trivial
  | listSessions =>
    exact ⟨fun r hr _ => RowsGrow.of_eq rfl r hr, synced_listSessions_iff h⟩
  | deleteSession k =>
    obtain ⟨hsynced, hrows⟩ := deleteSession_spec h k
    exact ⟨fun r hr hk => ⟨r, hrows r hr (hk k rfl), .refl _⟩, iff_of_true hsynced trivial⟩
  | send k c save => exact of_rows (send_spec h hfresh) trivial
  | branch k messageId newId ids now save => exact of_rows (branch_spec h hfresh) trivial
  | edit k messageId content editedId now save =>
    exact of_rows (edit_spec h k messageId content editedId now save) trivial
  | switchBranch k messageId save => exact of_rows (switchBranch_spec h k messageId save) trivial
  | evictSessions =>
    obtain ⟨hsynced, hrows⟩ := evictSessions_spec h
    exact of_rows ⟨hsynced, .of_eq hrows⟩ trivial

/-- In every state `get_session` returns all stored messages, and every call lets the rows grow. -/
def KeepsMessages (cs : List Call) (e : ChatEngine) : Prop :=
  (∀ n, Complete (run step (cs.take n) e).2) ∧ Along step Grows cs e

/-- **No message is lost exactly if no listing reads a stored session with messages that is not in
memory.** The engine starts with an empty dictionary over any table. -/
theorem keepsMessages_iff (cs : List Call) (hstart : e.sessions.rows = [])
    (hfresh : Along step Fresh cs e) : KeepsMessages cs e ↔ Along step ListsWhole cs e := by
  have hsynced : Synced e := by
    intro s hs
    rw [hstart] at hs
    exact absurd hs List.not_mem_nil
  have hiff : (∀ n, Complete (run step (cs.take n) e).2) ↔ Along step ListsWhole cs e := by
    simp only [complete_iff]
    rw [run_throughout_iff_along (J := fun _ => True) (fun _ _ _ _ => trivial)
      (fun c e _ hfresh h => (step_spec c e h hfresh).2) cs trivial hfresh]
    exact and_iff_right hsynced
  refine (and_iff_left_of_imp fun hcomplete => ?_).trans hiff
  have hok : Along step (fun c e => Fresh c e ∧ ListsWhole c e) cs e :=
    along_and.mpr ⟨hfresh, hiff.mp hcomplete⟩
  refine along_of_invariant (fun c e h hok => ?_) cs hsynced hok
  obtain ⟨hgrows, hkeeps⟩ := step_spec c e h hok.1
  exact ⟨hkeeps.mpr hok.2, hgrows⟩

instance (c : Call) (e : ChatEngine) : Decidable (Fresh c e) :=
  match c with
  | .createSession .. => inferInstanceAs (Decidable (_ ∧ _))
  | .branch .. => inferInstanceAs (Decidable (_ ∧ _))
  | .send .. => inferInstanceAs (Decidable (∀ s ∈ _, _))
  | .getSession .. | .listSessions | .deleteSession .. | .edit .. | .switchBranch ..
  | .evictSessions => isTrue trivial

instance (c : Call) (e : ChatEngine) : Decidable (ListsWhole c e) :=
  match c with
  | .listSessions => inferInstanceAs (Decidable (∀ r ∈ _, _))
  | .createSession .. | .branch .. | .send .. | .getSession .. | .deleteSession .. | .edit ..
  | .switchBranch .. | .evictSessions => isTrue trivial

/-! ### A listing after a restart -/

def exchange (userId assistantId : Str) : ChatSession.SendCall where
  message := "hi"
  mode := []
  content := []
  userId := userId
  assistantId := assistantId
  events := [.token "ok"]
  completed := true
  now := 2

def newEngine : ChatEngine := ⟨.empty, .empty, true⟩

/-- A session with one exchange, listed and read while it is in memory. -/
def listedInMemory : List Call :=
  [.createSession "simple" "t" [] [] "s" [] 1 ⟨1, true⟩,
    .send "s" (exchange "u" "a") ⟨3, true⟩, .listSessions,
    .getSession "s", .evictSessions,
    .send "s" (exchange "v" "b") ⟨5, true⟩]

theorem keepsMessages_listedInMemory :
    Along step ListsWhole listedInMemory newEngine ∧ KeepsMessages listedInMemory newEngine :=
  ⟨by decide, (keepsMessages_iff listedInMemory rfl (by decide)).mpr (by decide)⟩

/-- An engine that has been restarted over the row of a session with one exchange. -/
def restarted : ChatEngine :=
  { (run step (listedInMemory.take 2) newEngine).2 with sessions := .empty }

/-- **A listing after a restart loses the messages.** The session enters the dictionary without
its messages, and `get_session` finds it there. -/
theorem not_keepsMessages : ¬KeepsMessages
    [.listSessions, .send "s".toList (exchange "v".toList "b".toList) ⟨5, true⟩] restarted := by
  intro h
  have hsynced : Synced (restarted.listSessions).2 := complete_iff.mp (h.1 1)
  have hrestarted : Synced restarted := List.forall_mem_nil _
  have hwhole : ListsWhole .listSessions restarted :=
    (synced_listSessions_iff hrestarted).mp hsynced
  exact absurd hwhole (by decide)

end ChatEngine

end AgentStudio.Chats

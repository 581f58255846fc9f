import AgentStudio.Chats.Session
import AgentStudio.Library.Machine
import AgentStudio.Library.Rows

/-!
# The messages of a session as a tree

What `send`, `edit`, `branch` and `switch_branch` of `agent_runtime/chat_engine.py` keep of the
links between messages, as long as the ids that are drawn are new.

`WellFormed` always holds: the ids are distinct, a message names an earlier message as its parent
or none, a child list holds ids of messages, and the active branch names a message. One lemma,
`WellFormed.grow`, covers the messages that `send` and `edit` add.

`Tree` says that only the first message has no parent and that a child list holds the messages
that name it as their parent. `send` and `branch` keep this. `edit` enters the new message in the
child list of the message that was edited, but gives it the parent of that message, so an edit
that goes through breaks it (`tree_step_iff`).
-/

namespace AgentStudio.Chats

open PyText Ancestry Machine ChatSession

variable {s t : ChatSession} {m : ChatMessage}

/-! ### Messages by their ids -/

structure WellFormed (s : ChatSession) : Prop where
  ordered : Ordered ChatMessage.id ChatMessage.parent s.messages
  ids_ne : ∀ m ∈ s.messages, m.id ≠ []
  known : ∀ m ∈ s.messages, ∀ c ∈ m.childrenIds, c ∈ s.messages.map ChatMessage.id
  active : s.activeBranch ∈ s.messages.map ChatMessage.id ∨
    s.messages = [] ∧ s.activeBranch = []

theorem parent_eq_some_iff {k : Str} : m.parent = some k ↔ m.parentId = k ∧ k ≠ [] := by
  unfold ChatMessage.parent
  split_ifs with h
  · simp only [false_iff, not_and, not_not]
    exact fun hk => hk.symm.trans h
  · rw [Option.some.injEq]
    exact ⟨fun hk => ⟨hk, hk ▸ h⟩, fun hk => hk.1⟩

/-- The messages with an entry more in the child list of one of them. -/
def withChild (ms : List ChatMessage) (k c : Str) : List ChatMessage :=
  ms.map (Rows.update ChatMessage.id k (.addChild c))

theorem map_id_withChild (ms : List ChatMessage) (k c : Str) :
    (withChild ms k c).map ChatMessage.id = ms.map ChatMessage.id :=
  Rows.map_key_update k fun _ => rfl

theorem parentId_update (k c : Str) (m : ChatMessage) :
    (Rows.update ChatMessage.id k (.addChild c) m).parentId = m.parentId := by
  unfold Rows.update
  split_ifs <;> rfl

theorem childrenIds_update (k c : Str) (m : ChatMessage) :
    (Rows.update ChatMessage.id k (.addChild c) m).childrenIds =
      m.childrenIds ++ if m.id = k then [c] else [] := by
  unfold Rows.update
  split_ifs
  · rfl
  · exact (List.append_nil _).symm

theorem id_update (k c : Str) (m : ChatMessage) :
    (Rows.update ChatMessage.id k (.addChild c) m).id = m.id := by
  unfold Rows.update
  split_ifs <;> rfl

namespace WellFormed

variable (hs : WellFormed s)
include hs

theorem nodup : (s.messages.map ChatMessage.id).Nodup := hs.ordered.nodup

theorem getMessage_eq_some_iff {k : Str} : s.getMessage k = some m ↔ m ∈ s.messages ∧ m.id = k :=
  Rows.Table.find_eq_some_iff (T := ⟨s.messages, hs.nodup⟩)

theorem modify_messages (k : Str) (f : ChatMessage → ChatMessage) :
    (s.modify k f).messages = s.messages.map (Rows.update ChatMessage.id k f) := by
  have hn := hs.nodup
  unfold ChatSession.modify indexOf
  dsimp only
  generalize s.messages = ms at hn
  induction ms with
  | nil => rfl
  | cons m ms ih =>
    obtain ⟨hm, hn⟩ := List.nodup_cons.mp hn
    rw [List.findIdx_cons]
    by_cases h : m.id = k
    · obtain rfl := h
      rw [decide_eq_true rfl, cond_true, List.modify_zero_cons, List.map_cons,
        Rows.update_self, Rows.map_update_of_notMem hm]
    · rw [decide_eq_false h, cond_false, List.modify_succ_cons, List.map_cons,
        Rows.update_of_ne h, ih hn]

theorem parentId_mem (hm : m ∈ s.messages) (h : m.parentId ≠ []) :
    m.parentId ∈ s.messages.map ChatMessage.id :=
  hs.ordered.parent_mem hm (parent_eq_some_iff.mpr ⟨rfl, h⟩)

theorem parentId_ne_id (hm : m ∈ s.messages) : m.parentId ≠ m.id := by
  intro h
  have hlt := hs.ordered.idxOf_lt hm (parent_eq_some_iff.mpr ⟨h, hs.ids_ne m hm⟩)
  exact absurd hlt (Nat.lt_irrefl _)

/-- A new message below a listed one or without a parent, entered in some child list. -/
theorem grow {k : Str} {x : ChatMessage} (hnew : x.id ∉ s.messages.map ChatMessage.id)
    (hne : x.id ≠ []) (hparent : x.parentId = [] ∨ x.parentId ∈ s.messages.map ChatMessage.id)
    (hchildren : x.childrenIds = []) (ht : t.messages = withChild s.messages k x.id ++ [x])
    (hactive : t.activeBranch = x.id) : WellFormed t where
  ordered := by
    rw [ht]
    refine .snoc (hs.ordered.map (id_update k x.id) fun m => ?_) ?_ fun k' hk' => ?_
    · rw [ChatMessage.parent, ChatMessage.parent, parentId_update]
    · rwa [map_id_withChild]
    · obtain ⟨rfl, hk'⟩ := parent_eq_some_iff.mp hk'
      rw [map_id_withChild]
      exact hparent.resolve_left hk'
  ids_ne m hm := by
    rw [ht] at hm
    rcases mem_snoc.mp hm with hm | rfl
    · obtain ⟨y, hy, rfl⟩ := List.mem_map.mp hm
      rw [id_update]
      exact hs.ids_ne y hy
    · exact hne
  known m hm c hc := by
    rw [ht, List.map_append, map_id_withChild, List.map_singleton, List.mem_append,
      List.mem_singleton]
    rw [ht] at hm
    rcases mem_snoc.mp hm with hm | rfl
    · obtain ⟨y, hy, rfl⟩ := List.mem_map.mp hm
      rw [childrenIds_update, List.mem_append] at hc
      rcases hc with hc | hc
      · exact Or.inl (hs.known y hy c hc)
      · split_ifs at hc
        · exact Or.inr (List.mem_singleton.mp hc)
        · exact absurd hc List.not_mem_nil
    · rw [hchildren] at hc
      exact absurd hc List.not_mem_nil
  active := by
    refine Or.inl ?_
    rw [ht, hactive, List.map_append, List.map_singleton]
    exact List.mem_append_right _ (List.mem_singleton_self _)

end WellFormed

/-! ### The tree -/

/-- Only the first message has no parent, and a child list holds, each once, the messages that
name the message as their parent. -/
structure Tree (s : ChatSession) : Prop where
  root : ∀ m ∈ s.messages.tail, m.parentId ≠ []
  children : ∀ m ∈ s.messages, m.childrenIds.Nodup ∧
    ∀ c, c ∈ m.childrenIds ↔ ∃ x ∈ s.messages, x.id = c ∧ x.parentId = m.id

theorem Tree.grow (htree : Tree s) (hs : WellFormed s) {x : ChatMessage}
    (hnew : x.id ∉ s.messages.map ChatMessage.id) (hne : x.id ≠ [])
    (hparent : x.parentId ∈ s.messages.map ChatMessage.id ∨ s.messages = [] ∧ x.parentId = [])
    (hchildren : x.childrenIds = [])
    (ht : t.messages = withChild s.messages x.parentId x.id ++ [x]) : Tree t where
  root m hm := by
    rw [ht, withChild] at hm
    rcases hmsgs : s.messages with _ | ⟨r, ms⟩
    · rw [hmsgs] at hm
      exact absurd hm List.not_mem_nil
    · rw [hmsgs, List.map_cons, List.cons_append, List.tail_cons] at hm
      rcases mem_snoc.mp hm with hm | rfl
      · obtain ⟨y, hy, rfl⟩ := List.mem_map.mp hm
        rw [parentId_update]
        refine htree.root y ?_
        rw [hmsgs]
        exact hy
      · rcases hparent with h | h
        · intro hroot
          obtain ⟨p, hp, hpid⟩ := List.mem_map.mp h
          exact hs.ids_ne p hp (hpid.trans hroot)
        · exact absurd (hmsgs.symm.trans h.1) (List.cons_ne_nil r ms)
  children m hm := by
    have hmem : ∀ c, (∃ y ∈ t.messages, y.id = c ∧ y.parentId = m.id) ↔
        (∃ y ∈ s.messages, y.id = c ∧ y.parentId = m.id) ∨ x.id = c ∧ x.parentId = m.id := by
      intro c
      rw [ht]
      constructor
      · rintro ⟨y, hy, hyc⟩
        rcases mem_snoc.mp hy with hy | rfl
        · obtain ⟨z, hz, rfl⟩ := List.mem_map.mp hy
          rw [id_update, parentId_update] at hyc
          exact Or.inl ⟨z, hz, hyc⟩
        · exact Or.inr hyc
      · rintro (⟨y, hy, hyc⟩ | hx)
        · refine ⟨_, List.mem_append_left _ (List.mem_map_of_mem hy), ?_⟩
          rwa [id_update, parentId_update]
        · exact ⟨x, List.mem_append_right _ (List.mem_singleton_self x), hx⟩
    simp only [hmem]
    rw [ht] at hm
    rcases mem_snoc.mp hm with hm | rfl
    · obtain ⟨z, hz, rfl⟩ := List.mem_map.mp hm
      obtain ⟨hn, hiff⟩ := htree.children z hz
      have hfresh : x.id ∉ z.childrenIds := fun h => hnew (hs.known z hz _ h)
      rw [childrenIds_update, id_update]
      split_ifs with h
      · refine ⟨List.nodup_append.mpr ⟨hn, List.nodup_singleton _, fun a ha b hb hab => hfresh ?_⟩,
          fun c => ?_⟩
        · rwa [← List.mem_singleton.mp hb, ← hab]
        · rw [List.mem_append, hiff, List.mem_singleton]
          exact or_congr_right ⟨fun hc => ⟨hc.symm, h.symm⟩, fun hc => hc.1.symm⟩
      · rw [List.append_nil]
        exact ⟨hn, fun c => (hiff c).trans (or_iff_left fun hc => h hc.2.symm).symm⟩
    · rw [hchildren]
      refine ⟨List.nodup_nil, fun c => iff_of_false List.not_mem_nil ?_⟩
      rintro (⟨y, hy, -, hyx⟩ | ⟨-, hxx⟩)
      · exact hnew (hyx ▸ hs.parentId_mem hy (hyx ▸ hne))
      · rcases hparent with h | h
        · exact hnew (hxx ▸ h)
        · exact hne (hxx.symm.trans h.2)

/-! ### The operations -/

theorem addMessage_active (hs : WellFormed s) (hparent : m.parentId = [])
    (hnew : m.id ∉ s.messages.map ChatMessage.id) (now : ℤ) :
    (s.addMessage m s.activeBranch now).messages =
        withChild s.messages s.activeBranch m.id ++ [{ m with parentId := s.activeBranch }] ∧
      (s.addMessage m s.activeBranch now).activeBranch = m.id := by
  rcases hs.active with hmem | ⟨hmsgs, hactive⟩
  · obtain ⟨p, hp, hpid⟩ := List.mem_map.mp hmem
    have hne : s.activeBranch ≠ [] := hpid ▸ hs.ids_ne p hp
    have hget : s.getMessage s.activeBranch = some p := hs.getMessage_eq_some_iff.mpr ⟨hp, hpid⟩
    have hattach : s.attach m s.activeBranch = ({ m with parentId := s.activeBranch },
        s.modify s.activeBranch (.addChild m.id)) := by
      rw [attach, if_neg hne, hget]
      exact congrArg _ (if_neg fun h => hnew (hs.known p hp _ h))
    have hroot : (s.modify s.activeBranch (.addChild m.id)).attachToRoot
        { m with parentId := s.activeBranch } =
          ({ m with parentId := s.activeBranch }, s.modify s.activeBranch (.addChild m.id)) :=
      if_neg fun h => hne h.1
    rw [addMessage, hattach]
    dsimp only
    rw [hroot]
    exact ⟨congrArg (· ++ _) (hs.modify_messages _ _), rfl⟩
  · have hattach : s.attach m s.activeBranch = (m, s) := if_pos hactive
    have hroot : s.attachToRoot m = (m, s) := if_neg fun h => h.2 hmsgs
    rw [addMessage, hattach]
    dsimp only
    rw [hroot, hactive, ← hparent, hmsgs]
    exact ⟨rfl, rfl⟩

theorem WellFormed.addMessage (hs : WellFormed s) (hparent : m.parentId = [])
    (hchildren : m.childrenIds = []) (hnew : m.id ∉ s.messages.map ChatMessage.id)
    (hne : m.id ≠ []) (now : ℤ) : WellFormed (s.addMessage m s.activeBranch now) := by
  obtain ⟨hmsgs, hactive⟩ := addMessage_active hs hparent hnew now
  exact hs.grow (x := { m with parentId := s.activeBranch }) hnew hne
    (hs.active.symm.imp (fun h => h.2) id) hchildren hmsgs hactive

theorem Tree.addMessage (htree : Tree s) (hs : WellFormed s) (hparent : m.parentId = [])
    (hchildren : m.childrenIds = []) (hnew : m.id ∉ s.messages.map ChatMessage.id)
    (hne : m.id ≠ []) (now : ℤ) : Tree (s.addMessage m s.activeBranch now) := by
  obtain ⟨hmsgs, -⟩ := addMessage_active hs hparent hnew now
  exact htree.grow (x := { m with parentId := s.activeBranch }) hs hnew hne hs.active hchildren
    hmsgs

theorem WellFormed.congr (hs : WellFormed s) (hactive : t.activeBranch = s.activeBranch)
    {f : ChatMessage → ChatMessage} (hmsgs : t.messages = s.messages.map f)
    (hid : ∀ m, (f m).id = m.id) (hparent : ∀ m, (f m).parentId = m.parentId)
    (hchildren : ∀ m, (f m).childrenIds = m.childrenIds) : WellFormed t := by
  have hids : t.messages.map ChatMessage.id = s.messages.map ChatMessage.id := by
    rw [hmsgs, List.map_map]
    exact List.map_congr_left fun m _ => hid m
  refine ⟨?_, fun m hm => ?_, fun m hm c hc => ?_, ?_⟩
  · rw [hmsgs]
    refine hs.ordered.map hid fun m => ?_
    rw [ChatMessage.parent, ChatMessage.parent, hparent]
  · obtain ⟨y, hy, rfl⟩ := List.mem_map.mp (hmsgs ▸ hm)
    rw [hid]
    exact hs.ids_ne y hy
  · obtain ⟨y, hy, rfl⟩ := List.mem_map.mp (hmsgs ▸ hm)
    rw [hids]
    exact hs.known y hy c (hchildren y ▸ hc)
  · rw [hids, hactive, hmsgs, List.map_eq_nil_iff]
    exact hs.active

theorem Tree.congr (htree : Tree s) {f : ChatMessage → ChatMessage}
    (hmsgs : t.messages = s.messages.map f) (hid : ∀ m, (f m).id = m.id)
    (hparent : ∀ m, (f m).parentId = m.parentId)
    (hchildren : ∀ m, (f m).childrenIds = m.childrenIds) : Tree t := by
  refine ⟨fun m hm => ?_, fun m hm => ?_⟩
  · rw [hmsgs, ← List.map_tail] at hm
    obtain ⟨y, hy, rfl⟩ := List.mem_map.mp hm
    rw [hparent]
    exact htree.root y hy
  · obtain ⟨y, hy, rfl⟩ := List.mem_map.mp (hmsgs ▸ hm)
    obtain ⟨hn, hiff⟩ := htree.children y hy
    rw [hchildren, hid]
    refine ⟨hn, fun c => (hiff c).trans ?_⟩
    simp only [hmsgs, List.mem_map, exists_exists_and_eq_and, hid, hparent]

/-- An operation on a session; after `branch` it is the new session. -/
inductive Operation where
  | send (c : SendCall) (runtime : Bool)
  | edit (messageId content editedId : Str) (now : ℤ)
  | branch (messageId newId : Str) (ids : ℕ → Str) (now : ℤ)
  | switchBranch (messageId : Str)

/-- One operation; one that fails leaves the session alone. -/
def step (op : Operation) (s : ChatSession) : Unit × ChatSession :=
  match op with
  | .send c runtime => ((), s.send c runtime)
  | .edit messageId content editedId now =>
    ((), ((s.edit messageId content editedId now).map Prod.snd).getD s)
  | .branch messageId newId ids now => ((), (s.branch messageId newId ids now).getD s)
  | .switchBranch messageId => ((), (s.switchBranch messageId).getD s)

/-- The ids that an operation gives to messages are new, distinct and not empty. -/
def Fresh : Operation → ChatSession → Prop
  | .send c _, s => c.userId ∉ s.messages.map ChatMessage.id ∧
      c.assistantId ∉ s.messages.map ChatMessage.id ∧ c.assistantId ≠ c.userId ∧
      c.userId ≠ [] ∧ c.assistantId ≠ []
  | .edit _ _ editedId _, s => editedId ∉ s.messages.map ChatMessage.id ∧ editedId ≠ []
  | .branch _ _ ids _, s => ((List.range s.messages.length).map ids).Nodup ∧
      ∀ i < s.messages.length, ids i ≠ []
  | .switchBranch _, _ => True

/-- The operation is not an edit that goes through. -/
def NoEdit : Operation → ChatSession → Prop
  | .edit messageId _ _ _, s =>
    (s.getMessage messageId).map ChatMessage.role ≠ some "user".toList
  | _, _ => True

instance (op : Operation) (s : ChatSession) : Decidable (Fresh op s) :=
  match op with
  | .send _ _ => inferInstanceAs (Decidable (_ ∧ _ ∧ _ ∧ _ ∧ _))
  | .edit _ _ _ _ => inferInstanceAs (Decidable (_ ∧ _))
  | .branch _ _ _ _ => inferInstanceAs (Decidable (_ ∧ _))
  | .switchBranch _ => isTrue trivial

instance (op : Operation) (s : ChatSession) : Decidable (NoEdit op s) :=
  match op with
  | .send _ _ => isTrue trivial
  | .edit _ _ _ _ => inferInstanceAs (Decidable (_ ≠ _))
  | .branch _ _ _ _ => isTrue trivial
  | .switchBranch _ => isTrue trivial

private theorem send_spec (hs : WellFormed s) {c : SendCall} {runtime : Bool}
    (hfresh : Fresh (.send c runtime) s) :
    WellFormed (s.send c runtime) ∧ (Tree s → Tree (s.send c runtime)) := by
  obtain ⟨huser, hassistant, hdistinct, hune, hane⟩ := hfresh
  set mode := c.effectiveMode s with hmode
  set u := c.userMessage mode
  set a : ChatMessage := .new c.assistantId "assistant".toList (.text []) mode c.now
  obtain ⟨hmsgs, hactive⟩ := addMessage_active (m := u) hs rfl huser c.now
  have hs₁ : WellFormed (s.addMessage u s.activeBranch c.now) :=
    hs.addMessage rfl rfl huser hune c.now
  have hnew : a.id ∉ (s.addMessage u s.activeBranch c.now).messages.map ChatMessage.id := by
    rw [hmsgs, List.map_append, map_id_withChild, List.map_singleton, List.mem_append,
      List.mem_singleton, not_or]
    exact ⟨hassistant, hdistinct⟩
  have hs₂ := hs₁.addMessage (m := a) rfl rfl hnew hane c.now
  have htree₂ : Tree s → Tree ((s.addMessage u s.activeBranch c.now).addMessage a
      (s.addMessage u s.activeBranch c.now).activeBranch c.now) := fun htree =>
    (htree.addMessage hs rfl rfl huser hune c.now).addMessage hs₁ rfl rfl hnew hane c.now
  rw [hactive] at hs₂ htree₂
  -- what is written into the answer is no link
  set agent := decide (mode = "agent".toList) && runtime
  have hsend : (s.send c runtime).activeBranch =
        ((s.addMessage u s.activeBranch c.now).addMessage a u.id c.now).activeBranch ∧
      (s.send c runtime).messages =
        ((s.addMessage u s.activeBranch c.now).addMessage a u.id c.now).messages.map
          (Rows.update ChatMessage.id c.assistantId (c.answer agent)) := by
    rw [← hs₂.modify_messages, ChatSession.send]
    split_ifs <;> exact ⟨rfl, rfl⟩
  have hlink (m : ChatMessage) :
      (Rows.update ChatMessage.id c.assistantId (c.answer agent) m).id = m.id ∧
        (Rows.update ChatMessage.id c.assistantId (c.answer agent) m).parentId = m.parentId ∧
        (Rows.update ChatMessage.id c.assistantId (c.answer agent) m).childrenIds =
          m.childrenIds := by
    unfold Rows.update
    split_ifs <;> exact ⟨rfl, rfl, rfl⟩
  exact ⟨hs₂.congr hsend.1 hsend.2 (fun m => (hlink m).1) (fun m => (hlink m).2.1)
      fun m => (hlink m).2.2,
    fun htree => (htree₂ htree).congr hsend.2 (fun m => (hlink m).1) (fun m => (hlink m).2.1)
      fun m => (hlink m).2.2⟩

private theorem foldl_addCopy (now : ℤ) (l : List (ChatMessage × Str)) (ht : WellFormed t)
    (htree : Tree t) (hn : (l.map Prod.snd).Nodup)
    (hnew : ∀ p ∈ l, p.2 ∉ t.messages.map ChatMessage.id) (hne : ∀ p ∈ l, p.2 ≠ []) :
    WellFormed (l.foldl (addCopy now) t) ∧ Tree (l.foldl (addCopy now) t) := by
  induction l generalizing t with
  | nil => exact ⟨ht, htree⟩
  | cons p l ih =>
    obtain ⟨hp, hn⟩ := List.nodup_cons.mp hn
    have hparent : (if t.messages = [] then [] else t.activeBranch) = t.activeBranch := by
      split_ifs with h
      · rcases ht.active with hmem | hempty
        · rw [h] at hmem
          exact absurd hmem List.not_mem_nil
        · exact hempty.2.symm
      · rfl
    have hadd : addCopy now t p = t.addMessage (copyMessage p.1 p.2 now) t.activeBranch now :=
      congrArg (t.addMessage _ · now) hparent
    obtain ⟨hmsgs, -⟩ :=
      addMessage_active (m := copyMessage p.1 p.2 now) ht rfl (hnew p List.mem_cons_self) now
    rw [List.foldl_cons, hadd]
    refine ih (ht.addMessage rfl rfl (hnew p List.mem_cons_self) (hne p List.mem_cons_self) now)
      (htree.addMessage ht rfl rfl (hnew p List.mem_cons_self) (hne p List.mem_cons_self) now)
      hn (fun q hq => ?_) fun q hq => hne q (List.mem_cons_of_mem _ hq)
    rw [hmsgs, List.map_append, map_id_withChild, List.map_singleton, List.mem_append,
      List.mem_singleton, not_or]
    exact ⟨hnew q (List.mem_cons_of_mem _ hq), fun h => hp (List.mem_map.mpr ⟨q, hq, h⟩)⟩

theorem length_linearBranch_le (s : ChatSession) (leafId : Str) :
    (s.linearBranch leafId).length ≤ s.messages.length := by
  unfold linearBranch
  dsimp only
  split_ifs
  · exact Nat.zero_le _
  · exact Nat.le_refl _
  all_goals
    rw [List.length_reverse]
    exact length_ascend_le _ _

variable {messageId : Str}

private theorem branch_spec {newId : Str} {ids : ℕ → Str} {now : ℤ}
    (hfresh : Fresh (.branch messageId newId ids now) s)
    (h : s.branch messageId newId ids now = some t) : WellFormed t ∧ Tree t := by
  obtain ⟨m, -, rfl⟩ := Option.map_eq_some_iff.mp h
  obtain ⟨hn, hne⟩ := hfresh
  have hempty : WellFormed (s.branchStart messageId newId now) :=
    ⟨.nil, List.forall_mem_nil _, List.forall_mem_nil _,
      Or.inr ⟨rfl, rfl⟩⟩
  have hlen := length_linearBranch_le s messageId
  have hsnd : ((s.linearBranch messageId).zipIdx.map fun m => (m.1, ids m.2)).map Prod.snd =
      (List.range (s.linearBranch messageId).length).map ids := by
    rw [List.range_eq_range', ← List.zipIdx_map_snd 0 (s.linearBranch messageId), List.map_map,
      List.map_map]
    rfl
  refine foldl_addCopy now _ hempty
    ⟨List.forall_mem_nil _, List.forall_mem_nil _⟩ ?_
    (fun _ _ => List.not_mem_nil) fun p hp => ?_
  · rw [hsnd]
    exact hn.sublist ((List.range_sublist.mpr hlen).map ids)
  · have hmem := hsnd ▸ List.mem_map_of_mem (f := Prod.snd) hp
    obtain ⟨i, hi, hip⟩ := List.mem_map.mp hmem
    rw [← hip]
    exact hne i (Nat.lt_of_lt_of_le (List.mem_range.mp hi) hlen)

/-- An edit that goes through keeps the session well formed, but not a tree: the new message is in
the child list of the message that was edited and has another parent. -/
private theorem edit_spec (hs : WellFormed s) {content editedId : Str} {now : ℤ}
    (hfresh : Fresh (.edit messageId content editedId now) s) (hm : s.getMessage messageId = some m)
    (hrole : m.role = "user".toList) :
    ∃ t, ((s.edit messageId content editedId now).map Prod.snd) = some t ∧ WellFormed t ∧
      ¬Tree t := by
  obtain ⟨hmem, rfl⟩ := hs.getMessage_eq_some_iff.mp hm
  set x := editedMessage m m.id content editedId now
  have hedit : s.edit m.id content editedId now = some (x,
      { s.modify m.id (.addChild editedId) with
        messages := (s.modify m.id (.addChild editedId)).messages ++ [x]
        activeBranch := editedId }) := by
    rw [ChatSession.edit, hm]
    exact if_pos hrole
  refine ⟨_, congrArg (Option.map Prod.snd) hedit, ?_⟩
  have hmsgs : (s.modify m.id (.addChild editedId)).messages ++ [x] =
      withChild s.messages m.id x.id ++ [x] := by
    rw [hs.modify_messages]
    rfl
  have hwf : WellFormed { s.modify m.id (.addChild editedId) with
      messages := (s.modify m.id (.addChild editedId)).messages ++ [x]
      activeBranch := editedId } := by
    refine hs.grow (k := m.id) (x := x) hfresh.1 hfresh.2 ?_ rfl hmsgs rfl
    by_cases h : m.parentId = []
    · exact Or.inl h
    · have hparent := hs.parentId_mem hmem h
      exact Or.inr hparent
  refine ⟨hwf, fun htree => hs.parentId_ne_id hmem ?_⟩
  have hupdated : Rows.update ChatMessage.id m.id (.addChild x.id) m ∈
      withChild s.messages m.id x.id ++ [x] :=
    List.mem_append_left _ (List.mem_map_of_mem hmem)
  have hlast : x ∈ withChild s.messages m.id x.id ++ [x] :=
    List.mem_append_right _ (List.mem_singleton_self x)
  rw [← hmsgs] at hupdated hlast
  obtain ⟨-, hiff⟩ := htree.children _ hupdated
  rw [childrenIds_update, if_pos rfl] at hiff
  obtain ⟨y, hy, hyx, hparent⟩ := (hiff x.id).mp (List.mem_append_right _
    (List.mem_singleton_self _))
  obtain rfl : y = x := Rows.eq_of_key_eq hwf.nodup hy hlast hyx
  rw [id_update] at hparent
  exact hparent

private theorem switchBranch_spec (hs : WellFormed s) (h : s.switchBranch messageId = some t) :
    WellFormed t ∧ t.messages = s.messages := by
  unfold ChatSession.switchBranch at h
  split at h
  · exact absurd h.symm (Option.some_ne_none _)
  · rename_i m hm
    split_ifs at h
    obtain rfl := Option.some.inj h
    obtain ⟨hmem, hid⟩ := hs.getMessage_eq_some_iff.mp hm
    exact ⟨⟨hs.ordered, hs.ids_ne, hs.known, Or.inl (List.mem_map.mpr ⟨m, hmem, hid⟩)⟩, rfl⟩

private theorem edit_eq_none {content editedId : Str} {now : ℤ}
    (h : NoEdit (.edit messageId content editedId now) s) :
    s.edit messageId content editedId now = none := by
  rw [ChatSession.edit]
  rcases hm : s.getMessage messageId with _ | m
  · rfl
  · exact if_neg fun hrole => h (by rw [hm, Option.map_some, hrole])

theorem wellFormed_step (op : Operation) (s : ChatSession) (hs : WellFormed s)
    (hfresh : Fresh op s) : WellFormed (step op s).2 := by
  cases op with
  | send c runtime => exact (send_spec hs hfresh).1
  | edit messageId content editedId now =>
    by_cases h : NoEdit (.edit messageId content editedId now) s
    · rw [step, edit_eq_none h]
      exact hs
    · obtain ⟨m, hm, hrole⟩ := Option.map_eq_some_iff.mp (not_not.mp h)
      obtain ⟨t, ht, hwf, -⟩ := edit_spec hs hfresh hm hrole
      rw [step, ht]
      exact hwf
  | branch messageId newId ids now =>
    rcases h : s.branch messageId newId ids now with _ | t
    · rw [step, h]
      exact hs
    · rw [step, h]
      exact (branch_spec hfresh h).1
  | switchBranch messageId =>
    rcases h : s.switchBranch messageId with _ | t
    · rw [step, h]
      exact hs
    · rw [step, h]
      exact (switchBranch_spec hs h).1

theorem tree_step_iff (op : Operation) (s : ChatSession) (hs : WellFormed s)
    (hfresh : Fresh op s) (htree : Tree s) : Tree (step op s).2 ↔ NoEdit op s := by
  cases op with
  | send c runtime => exact iff_of_true ((send_spec hs hfresh).2 htree) trivial
  | edit messageId content editedId now =>
    by_cases h : NoEdit (.edit messageId content editedId now) s
    · rw [step, edit_eq_none h]
      exact iff_of_true htree h
    · refine iff_of_false ?_ h
      obtain ⟨m, hm, hrole⟩ := Option.map_eq_some_iff.mp (not_not.mp h)
      obtain ⟨t, ht, -, hno⟩ := edit_spec hs hfresh hm hrole
      rw [step, ht]
      exact hno
  | branch messageId newId ids now =>
    refine iff_of_true ?_ trivial
    rcases h : s.branch messageId newId ids now with _ | t
    · rw [step, h]
      exact htree
    · rw [step, h]
      exact (branch_spec hfresh h).2
  | switchBranch messageId =>
    refine iff_of_true ?_ trivial
    rcases h : s.switchBranch messageId with _ | t
    · rw [step, h]
      exact htree
    · rw [step, h]
      have hmsgs := (switchBranch_spec hs h).2
      exact htree.congr (f := id) (hmsgs.trans (List.map_id _).symm) (fun _ => rfl)
        (fun _ => rfl) fun _ => rfl

end AgentStudio.Chats

import AgentStudio.Chats.Tree
import Mathlib.Data.List.Chain

/-!
# Paths and branches of a session

What the readers of a session of `agent_runtime/chat_engine.py` expect (`TreeContract`): the
messages form a tree, `get_linear_branch` is the one path from the first message to a message
(`IsPath`), and `get_branches` lists the messages with the same parent, edited versions included.

Where the session is well formed, this is the same as being a `Tree` (`treeContract_iff`), so in
all states of a session it holds exactly if no edit goes through (`treeContract_throughout_iff`).
One edit of the first message makes a second root (`not_treeContract`).
-/

namespace AgentStudio.Chats

open PyText Ancestry Machine ChatSession

variable {s t : ChatSession} {m : ChatMessage}

/-! ### The contract -/

/-- The messages from the first one to a given one, each the parent of the next. -/
structure IsPath (s : ChatSession) (x : ChatMessage) (l : List ChatMessage) : Prop where
  first : l.head? = s.messages.head?
  last : l.getLast? = some x
  mem : ∀ m ∈ l, m ∈ s.messages
  links : l.IsChain fun a b => b.parentId = a.id

/-- The parent of every message but the first is an earlier one, child lists agree with parents,
the active branch names a message, `get_linear_branch` is the one path to a message, and
`get_branches` lists the messages with the same parent. -/
structure TreeContract (s : ChatSession) : Prop where
  parents : ∀ i m, s.messages[i]? = some m → 0 < i →
    ∃ j p, j < i ∧ s.messages[j]? = some p ∧ p.id = m.parentId
  children : ∀ m ∈ s.messages, m.childrenIds.Nodup ∧
    ∀ c, c ∈ m.childrenIds ↔ ∃ x ∈ s.messages, x.id = c ∧ x.parentId = m.id
  active : s.messages ≠ [] → ∃ m ∈ s.messages, m.id = s.activeBranch
  paths : ∀ x ∈ s.messages, ∀ l, IsPath s x l ↔ l = s.linearBranch x.id
  branches : ∀ x ∈ s.messages, ∀ k, k ∈ (s.getBranches x.id).map BranchInfo.leafId ↔
    ∃ y ∈ s.messages, y.id = k ∧ y.parentId = x.parentId

/-! ### Paths -/

namespace WellFormed

variable (hs : WellFormed s)
include hs

theorem parentId_head {r : ChatMessage} (h : s.messages.head? = some r) : r.parentId = [] := by
  obtain ⟨ms, hms⟩ := List.head?_eq_some_iff.mp h
  have hup : r.parent = none := (hms ▸ hs.ordered).up_head
  unfold ChatMessage.parent at hup
  split_ifs at hup with hroot
  exact hroot

variable {l : List ChatMessage}

theorem linearBranch_eq (hm : m ∈ s.messages)
    (h : Ascent s.getMessage ChatMessage.parent (some m.id) l) :
    s.linearBranch m.id = l.reverse := by
  have hne : s.messages ≠ [] := List.ne_nil_of_mem hm
  have hid : m.id ≠ [] := hs.ids_ne m hm
  obtain ⟨l', hl', hlen⟩ := hs.ordered.exists_ascent hm hs.getMessage_eq_some_iff
  obtain rfl := h.unique hl'
  rw [linearBranch, if_neg hne, if_neg hid]
  dsimp only
  rw [if_neg hid, hl'.ascend_eq hlen]

theorem ascent_of_isChain (hmem : ∀ y ∈ m :: l, y ∈ s.messages)
    (hlast : (m :: l).getLast? = s.messages.head?)
    (hlinks : (m :: l).IsChain fun a b => a.parentId = b.id) :
    Ascent s.getMessage ChatMessage.parent (some m.id) (m :: l) := by
  have hfind : s.getMessage m.id = some m :=
    hs.getMessage_eq_some_iff.mpr ⟨hmem m List.mem_cons_self, rfl⟩
  refine .up hfind ?_
  induction l generalizing m with
  | nil =>
    have hroot : m.parentId = [] := hs.parentId_head hlast.symm
    exact .stop (by rw [ChatMessage.parent, if_pos hroot]; rfl)
  | cons b l ih =>
    obtain ⟨hparent, hlinks⟩ := List.isChain_cons_cons.mp hlinks
    have hb : b ∈ s.messages := hmem b (List.mem_cons_of_mem _ List.mem_cons_self)
    have hup : m.parent = some b.id := parent_eq_some_iff.mpr ⟨hparent, hs.ids_ne b hb⟩
    have hbfind := hs.getMessage_eq_some_iff.mpr ⟨hb, rfl⟩
    rw [hup]
    refine .up hbfind (ih (fun y hy => hmem y (List.mem_cons_of_mem _ hy)) ?_ hlinks hbfind)
    rwa [List.getLast?_cons_cons] at hlast

theorem isChain_of_ascent (htree : Tree s) {k : Option Str}
    (h : Ascent s.getMessage ChatMessage.parent k l)
    (hk : ∀ k', k = some k' → k' ∈ s.messages.map ChatMessage.id) (hne : l ≠ []) :
    (∀ y ∈ l, y ∈ s.messages) ∧ l.getLast? = s.messages.head? ∧
      l.IsChain fun a b => a.parentId = b.id := by
  induction h with
  | stop => exact absurd rfl hne
  | @up k m l hfind hup ih =>
    obtain ⟨hm, rfl⟩ := hs.getMessage_eq_some_iff.mp hfind
    have hparent : ∀ k', m.parent = some k' → k' ∈ s.messages.map ChatMessage.id := fun k' hk' =>
      hs.ordered.parent_mem hm hk'
    rcases l with _ | ⟨b, l⟩
    · refine ⟨fun y hy => List.mem_singleton.mp hy ▸ hm, ?_, .singleton m⟩
      have hroot : m.parentId = [] := by
        by_contra h
        obtain ⟨p, hp, hpid⟩ := List.mem_map.mp (hs.parentId_mem hm h)
        have hstop := hup.of_nil
        rw [parent_eq_some_iff.mpr ⟨rfl, h⟩, Option.bind_some,
          hs.getMessage_eq_some_iff.mpr ⟨hp, hpid⟩] at hstop
        exact absurd hstop (Option.some_ne_none p)
      obtain ⟨r, ms, hms⟩ := List.exists_cons_of_ne_nil (List.ne_nil_of_mem hm)
      have htail : m ∉ s.messages.tail := fun h => htree.root m h hroot
      rw [hms] at hm htail ⊢
      exact congrArg some ((List.mem_cons.mp hm).resolve_right htail)
    · obtain ⟨hmem, hlast, hlinks⟩ := ih hparent (List.cons_ne_nil b l)
      obtain ⟨k', hk', hfind', -⟩ := hup.of_cons
      have hb : m.parentId = b.id :=
        (parent_eq_some_iff.mp hk').1.trans (hs.getMessage_eq_some_iff.mp hfind').2.symm
      refine ⟨List.forall_mem_cons.mpr ⟨hm, hmem⟩, ?_, List.isChain_cons_cons.mpr ⟨hb, hlinks⟩⟩
      rwa [List.getLast?_cons_cons]

theorem isPath_iff (htree : Tree s) (hm : m ∈ s.messages) :
    IsPath s m l ↔ l = s.linearBranch m.id := by
  obtain ⟨l₀, hl₀, -⟩ := hs.ordered.exists_ascent hm hs.getMessage_eq_some_iff
  rw [hs.linearBranch_eq hm hl₀]
  constructor
  · intro h
    obtain ⟨r, hr⟩ := List.head?_eq_some_iff.mp (List.head?_reverse.trans h.last)
    have hup := hs.ascent_of_isChain (m := m) (l := r) (fun y hy => ?_) ?_ ?_
    · rw [← hup.unique hl₀, ← hr, List.reverse_reverse]
    · exact h.mem y (List.mem_reverse.mp (hr ▸ hy))
    · rw [← hr, List.getLast?_reverse]
      exact h.first
    · rw [← hr, List.isChain_reverse]
      exact h.links
  · rintro rfl
    obtain ⟨hmem, hlast, hlinks⟩ := hs.isChain_of_ascent htree hl₀
      (fun k hk => Option.some.inj hk ▸ List.mem_map_of_mem hm) (List.cons_ne_nil m l₀)
    refine ⟨?_, ?_, fun y hy => hmem y (List.mem_reverse.mp hy), List.isChain_reverse.mpr hlinks⟩
    · rw [List.head?_reverse, hlast]
    · rw [List.getLast?_reverse]
      rfl

theorem mem_getBranches (htree : Tree s) (hm : m ∈ s.messages) {k : Str} :
    k ∈ (s.getBranches m.id).map BranchInfo.leafId ↔
      ∃ y ∈ s.messages, y.id = k ∧ y.parentId = m.parentId := by
  have hget : s.getMessage (if m.id = [] then s.activeBranch else m.id) = some m := by
    rw [if_neg (hs.ids_ne m hm)]
    exact hs.getMessage_eq_some_iff.mpr ⟨hm, rfl⟩
  have hleaf (ms : List ChatMessage) :
      (ms.map s.branchInfo).map BranchInfo.leafId = ms.map ChatMessage.id := by
    rw [List.map_map]
    rfl
  rw [getBranches, hget]
  dsimp only
  rw [hleaf]
  by_cases h : m.parentId = []
  · have hparent : m.parent.bind s.getMessage = none := by
      rw [ChatMessage.parent, if_pos h]
      rfl
    rw [hparent, h]
    simp only [List.mem_map, List.mem_filter, decide_eq_true_eq, and_assoc]
    exact exists_congr fun y => and_congr_right fun _ => and_comm
  · obtain ⟨p, hp, hpid⟩ := List.mem_map.mp (hs.parentId_mem hm h)
    have hparent : m.parent.bind s.getMessage = some p := by
      rw [parent_eq_some_iff.mpr ⟨rfl, h⟩]
      exact hs.getMessage_eq_some_iff.mpr ⟨hp, hpid⟩
    rw [hparent, ← hpid, ← (htree.children p hp).2 k]
    simp only [List.mem_map, List.mem_filterMap, hs.getMessage_eq_some_iff]
    constructor
    · rintro ⟨y, ⟨c, hc, -, rfl⟩, rfl⟩
      exact hc
    · intro hk
      obtain ⟨y, hy, rfl, -⟩ := ((htree.children p hp).2 k).mp hk
      exact ⟨y, ⟨y.id, hk, hy, rfl⟩, rfl⟩

end WellFormed

/-! ### The contract and the tree -/

theorem treeContract_iff (hs : WellFormed s) : TreeContract s ↔ Tree s := by
  constructor
  · intro h
    refine ⟨fun m hm hroot => ?_, h.children⟩
    obtain ⟨i, hi⟩ := List.mem_iff_getElem?.mp hm
    obtain ⟨j, p, -, hp, hpid⟩ := h.parents (i + 1) m (List.getElem?_tail ▸ hi) (Nat.succ_pos i)
    exact hs.ids_ne p (List.mem_of_getElem? hp) (hpid.trans hroot)
  · intro htree
    refine ⟨fun i m hm hi => ?_, htree.children, fun hne => ?_,
      fun x hx l => hs.isPath_iff htree hx, fun x hx k => hs.mem_getBranches htree hx⟩
    · have htail : m ∈ s.messages.tail := by
        refine List.mem_iff_getElem?.mpr ⟨i - 1, ?_⟩
        rw [List.getElem?_tail, Nat.sub_add_cancel hi, hm]
      exact hs.ordered.exists_parent hm (parent_eq_some_iff.mpr ⟨rfl, htree.root m htail⟩)
    · rcases hs.active with h | h
      · exact List.mem_map.mp h
      · exact absurd h.1 hne

/-- **A session is a tree in all its states exactly if no edit goes through.** The session starts
without messages; a run follows it and, after `branch`, the new session. -/
theorem treeContract_throughout_iff (ops : List Operation) (hmsgs : s.messages = [])
    (hactive : s.activeBranch = []) (hfresh : Along step Fresh ops s) :
    (∀ n, TreeContract (run step (ops.take n) s).2) ↔ Along step NoEdit ops s := by
  have hs : WellFormed s := by
    refine ⟨hmsgs ▸ .nil, ?_, ?_, Or.inr ⟨hmsgs, hactive⟩⟩
    all_goals
      intro m hm
      rw [hmsgs] at hm
      exact absurd hm List.not_mem_nil
  have htree : Tree s := by
    refine ⟨?_, ?_⟩
    all_goals
      intro m hm
      rw [hmsgs] at hm
      exact absurd hm List.not_mem_nil
  have hstates : ∀ n, WellFormed (run step (ops.take n) s).2 := fun n =>
    run_invariant wellFormed_step _ hs
      (along_append.mp ((List.take_append_drop n ops).symm ▸ hfresh)).1
  calc (∀ n, TreeContract (run step (ops.take n) s).2)
      ↔ ∀ n, Tree (run step (ops.take n) s).2 :=
        forall_congr' fun n => treeContract_iff (hstates n)
    _ ↔ Tree s ∧ Along step NoEdit ops s :=
        run_throughout_iff_along wellFormed_step tree_step_iff ops hs hfresh
    _ ↔ Along step NoEdit ops s := and_iff_right htree

/-! ### A session with an edit -/

def newSession : ChatSession where
  id := "s"
  title := "t"
  mode := "simple"
  messages := []
  activeBranch := []
  graphId := []
  metadata := []
  createdAt := 1
  updatedAt := 1

def sending (userId assistantId : Str) : Operation :=
  .send
    { message := "hi", mode := [], content := [], userId := userId,
      assistantId := assistantId, events := [.token "ok"], completed := true, now := 2 }
    true

/-- Two exchanges, a branch at the first answer, an exchange in it and a switch. -/
def exchanges : List Operation :=
  [sending "u" "a", sending "v" "b",
    .branch "a" "s2" (fun i => [Char.ofNat (97 + i)]) 3,
    sending "w" "c", .switchBranch "b"]

theorem treeContract_exchanges : Along step NoEdit exchanges newSession ∧
    ∀ n, TreeContract (run step (exchanges.take n) newSession).2 :=
  ⟨by decide, (treeContract_throughout_iff exchanges rfl rfl (by decide)).mpr (by decide)⟩

/-- **An edit of the first message makes a second root.** -/
theorem not_treeContract : ¬TreeContract (run step
    [sending "u".toList "a".toList, .edit "u".toList "hello".toList "e".toList 3]
    newSession).2 := by
  intro h
  obtain ⟨j, p, -, hp, hid⟩ := h.parents 2 (editedMessage (.new "u" "user"
    (.text "hi") "simple" 2) "u" "hello" "e" 3) rfl (by decide)
  have hids : ∀ q ∈ (run step [sending "u" "a",
      .edit "u" "hello" "e" 3] newSession).2.messages, q.id ≠ [] := by decide
  exact hids p (List.mem_of_getElem? hp) hid

end AgentStudio.Chats

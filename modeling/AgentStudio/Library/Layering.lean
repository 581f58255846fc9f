import Mathlib.Data.List.Nodup
import Mathlib.Data.List.Perm.Subperm
import Mathlib.Data.Finset.Basic
import Mathlib.Logic.Relation
import Mathlib.Order.WellFoundedSet

/-!
# Layers and cycles

The cycles of a graph, given as a list of links between vertices, found in two ways.

`layersFrom` takes vertices away layer by layer, first those that no link leads to. A vertex comes
later than those with a link to it (`layersFrom_spec`), and if vertices are left over then a cycle
leads to them (`Inv.eq_zero_of_not_cyclic`). `dfs` is a depth-first search that stops at a vertex
of its path, and it does so if and only if there is a cycle (`foldlM_dfs_eq_none_iff`).
-/

namespace Layering

open Relation

variable {α : Type} [DecidableEq α]

/-- The links have a cycle. -/
def Cyclic (links : List (α × α)) : Prop := ∃ a, TransGen (fun a b => (a, b) ∈ links) a a

/-- The targets of the links from a vertex. -/
def targets (links : List (α × α)) (a : α) : List α := (links.filter (·.1 = a)).map Prod.snd

variable {V : List α} {links : List (α × α)} {sort : List α → List α} {done queue : List α}
  {counts : α → ℤ} {a b : α}

theorem mem_targets : b ∈ targets links a ↔ (a, b) ∈ links := by
  simp only [targets, List.mem_map, List.mem_filter, decide_eq_true_eq, Prod.exists]
  constructor
  · rintro ⟨a, b, ⟨h, rfl⟩, rfl⟩
    exact h
  · exact fun h => ⟨a, b, ⟨h, rfl⟩, rfl⟩

/-! ### Layers -/

/-- The loop over some targets: each has one link less to wait for, and joins the next layer when
it waits for none. -/
def release : List α → (α → ℤ) → List α → (α → ℤ) × List α
  | [], counts, next => (counts, next)
  | b :: bs, counts, next =>
    release bs (Function.update counts b (counts b - 1))
      (if counts b - 1 = 0 then next ++ [b] else next)

/-- The loop over the layers: those that it finds, and what is still waited for. -/
def layersFrom (links : List (α × α)) (sort : List α → List α) :
    ℕ → List α → (α → ℤ) → List (List α) × (α → ℤ)
  | 0, _, counts => ([], counts)
  | n + 1, queue, counts =>
    if queue = [] then ([], counts)
    else
      let layer := sort queue
      let released := release (layer.flatMap (targets links)) counts []
      let rest := layersFrom links sort n released.2 released.1
      (layer :: rest.1, rest.2)

/-- The links that lead to a vertex, from the vertices that are not in a list. -/
def waiting (links : List (α × α)) (done : List α) (b : α) : ℕ :=
  links.countP fun e => e.1 ∉ done ∧ e.2 = b

/-- After some layers, the queue has the vertices that wait for nothing and are in no layer. -/
structure Inv (V : List α) (links : List (α × α)) (done queue : List α) (counts : α → ℤ) :
    Prop where
  counted : ∀ b, counts b = waiting links done b
  nodup : (done ++ queue).Nodup
  queued : ∀ b, b ∈ done ++ queue ↔ b ∈ V ∧ counts b = 0

theorem release_fst (bs : List α) (next : List α) (b : α) :
    (release bs counts next).1 b = counts b - bs.count b := by
  induction bs generalizing counts next with
  | nil => simp [release]
  | cons a bs ih =>
    rw [release, ih, Function.update_apply, List.count_cons]
    by_cases hab : b = a
    · simp [hab]
      omega
    · simp [hab, Ne.symm hab]

/-- A target is released once, with its last link. -/
theorem count_release (bs : List α) (h : ∀ b, (bs.count b : ℤ) ≤ counts b) (next : List α) (b : α) :
    (release bs counts next).2.count b =
      next.count b + if b ∈ bs ∧ counts b = bs.count b then 1 else 0 := by
  induction bs generalizing counts next with
  | nil => simp [release]
  | cons a bs ih =>
    have hb := h b
    rw [release, ih fun b => ?_, Function.update_apply]
    · by_cases hab : b = a
      · subst hab
        have hpos : b ∈ bs ↔ bs.count b ≠ 0 := List.count_pos_iff.symm.trans Nat.pos_iff_ne_zero
        rw [List.count_cons_self] at hb ⊢
        simp only [if_true, hpos, List.mem_cons_self, true_and]
        split_ifs <;> simp <;> omega
      · simp only [hab, if_false, List.mem_cons, false_or, List.count_cons_of_ne (Ne.symm hab)]
        split_ifs <;> simp [Ne.symm hab]
    · have hb := h b
      rw [Function.update_apply]
      split_ifs with hab
      · rw [hab, List.count_cons_self] at hb
        rw [hab]
        omega
      · rwa [List.count_cons_of_ne (Ne.symm hab)] at hb

theorem waiting_concat (ha : a ∉ done) (b : α) :
    waiting links done b = (targets links a).count b + waiting links (done ++ [a]) b := by
  induction links with
  | nil => rfl
  | cons e links ih =>
    obtain ⟨x, y⟩ := e
    simp only [waiting, targets, List.countP_cons, List.filter_cons, decide_eq_true_eq] at ih ⊢
    rw [ih]
    by_cases hx : x = a
    · by_cases hy : y = b
      · simp [hx, hy, ha]
        omega
      · simp [hx, hy]
    · simp [hx]
      omega

theorem waiting_append (hnodup : (done ++ queue).Nodup) (b : α) :
    waiting links done b =
      (queue.flatMap (targets links)).count b + waiting links (done ++ queue) b := by
  induction queue generalizing done with
  | nil => simp
  | cons a queue ih =>
    have ha : a ∉ done := fun hmem => (List.disjoint_of_nodup_append hnodup) hmem List.mem_cons_self
    rw [← List.singleton_append, ← List.append_assoc] at hnodup ⊢
    rw [waiting_concat ha, ih hnodup, List.flatMap_append, List.flatMap_singleton,
      List.count_append]
    omega

/-- One layer. -/
theorem Inv.step (hs : ∀ l, (sort l).Perm l) (hV : ∀ e ∈ links, e.2 ∈ V)
    (h : Inv V links done queue counts) :
    let released := release ((sort queue).flatMap (targets links)) counts []
    Inv V links (done ++ sort queue) released.2 released.1 := by
  have hperm : (done ++ queue).Perm (done ++ sort queue) := (hs queue).symm.append_left done
  have hnodup : (done ++ sort queue).Nodup := hperm.nodup_iff.mp h.nodup
  have hin (b : α) : b ∈ done ++ sort queue ↔ b ∈ V ∧ counts b = 0 :=
    hperm.mem_iff.symm.trans (h.queued b)
  have hsplit (b : α) : counts b = ((sort queue).flatMap (targets links)).count b +
      (waiting links (done ++ sort queue) b : ℤ) := by
    rw [h.counted, waiting_append hnodup]
    omega
  have hle (b : α) : (((sort queue).flatMap (targets links)).count b : ℤ) ≤ counts b := by
    rw [hsplit]
    omega
  have hcount := count_release _ hle []
  have hmem (b : α) : b ∈ (release ((sort queue).flatMap (targets links)) counts []).2 ↔
      b ∈ (sort queue).flatMap (targets links) ∧
        counts b = ((sort queue).flatMap (targets links)).count b := by
    rw [← List.count_pos_iff, hcount, List.count_nil]
    split_ifs with hb
    · simp only [zero_add, zero_lt_one, hb, and_self]
    · simp only [zero_add, lt_irrefl, hb]
  have hwaits (b : α) : (release ((sort queue).flatMap (targets links)) counts []).1 b =
      waiting links (done ++ sort queue) b := by
    rw [release_fst, hsplit]
    omega
  refine ⟨hwaits, hnodup.append (List.nodup_iff_count_le_one.mpr fun b => ?_) fun b hb hb' => ?_,
    fun b => ?_⟩
  · rw [hcount]
    split_ifs <;> simp
  · obtain ⟨htarget, heq⟩ := (hmem b).mp hb'
    have := List.count_pos_iff.mpr htarget
    have := ((hin b).mp hb).2
    omega
  · rw [List.mem_append, hin, hmem, hwaits]
    have hb := hsplit b
    by_cases htarget : b ∈ (sort queue).flatMap (targets links)
    · obtain ⟨a, -, ha⟩ := List.mem_flatMap.mp htarget
      have hbV : b ∈ V := hV _ (mem_targets.mp ha)
      have := List.count_pos_iff.mpr htarget
      simp only [htarget, hbV, true_and]
      omega
    · rw [List.count_eq_zero.mpr htarget] at hb
      simp [htarget, hb]

/-- The layers, with those that were there before: they have the vertices that wait for nothing,
and no link leads to a layer but from earlier ones. -/
theorem layersFrom_spec (hs : ∀ l, (sort l).Perm l) (hV : ∀ e ∈ links, e.2 ∈ V) (n : ℕ)
    (h : Inv V links done queue counts) (hn : V.length ≤ done.length + n) :
    let found := layersFrom links sort n queue counts
    Inv V links (done ++ found.1.flatten) [] found.2 ∧
      ∀ pre layer post, found.1 = pre ++ layer :: post →
        ∀ b ∈ layer, ∀ a, (a, b) ∈ links → a ∈ done ++ pre.flatten := by
  have hover (hq : queue = []) : Inv V links (done ++ ([] : List (List α)).flatten) [] counts := by
    simpa [hq] using h
  induction n generalizing done queue counts with
  | zero =>
    have hq : queue = [] := by
      have hlen := (List.subperm_of_subset h.nodup fun b hb => ((h.queued b).mp hb).1).length_le
      rw [List.length_append] at hlen
      exact List.length_eq_zero_iff.mp (by omega)
    exact ⟨hover hq, fun pre layer post heq => absurd heq (by simp [layersFrom])⟩
  | succ n ih =>
    by_cases hq : queue = []
    · rw [layersFrom, if_pos hq]
      exact ⟨hover hq, fun pre layer post heq => absurd heq (by simp)⟩
    · have hpos := List.length_pos_iff.mpr hq
      have hlen := (hs queue).length_eq
      have hstep := h.step hs hV
      obtain ⟨hinv, hlinks⟩ := ih hstep (by rw [List.length_append]; omega)
        fun hq => by simpa [hq] using hstep
      rw [layersFrom, if_neg hq]
      refine ⟨by simpa using hinv, fun pre layer post heq b hb a hab => ?_⟩
      change sort queue :: _ = _ at heq
      cases pre with
      | nil =>
        obtain ⟨rfl, -⟩ := List.cons.inj heq
        have hdone := (h.queued b).mp (List.mem_append_right _ ((hs queue).mem_iff.mp hb))
        by_contra ha
        have hwait : 0 < waiting links done b :=
          List.countP_pos_iff.mpr ⟨(a, b), hab, by simpa using ha⟩
        have := h.counted b
        omega
      | cons layer' pre =>
        obtain ⟨rfl, hpre⟩ := List.cons.inj heq
        simpa using hlinks pre layer post hpre b hb a hab

theorem inv_start (hV : V.Nodup) (links : List (α × α)) :
    Inv V links [] (V.filter fun b => waiting links [] b = 0) fun b => waiting links [] b :=
  ⟨fun _ => rfl, hV.filter _, by simp⟩

omit [DecidableEq α] in
theorem not_cyclic_of_lt {β : Type} [Preorder β] {f : α → β}
    (h : ∀ a b, (a, b) ∈ links → f a < f b) : ¬ Cyclic links := by
  rintro ⟨a, ha⟩
  have hlt : TransGen (· < ·) (f a) (f a) := ha.lift f h
  rw [transGen_eq_self] at hlt
  exact lt_irrefl _ hlt

/-- Vertices that are left over have others before them that are, so that there is a cycle. -/
theorem Inv.eq_zero_of_not_cyclic (h : Inv V links done [] counts)
    (hV : ∀ e ∈ links, e.1 ∈ V) (hacyclic : ¬ Cyclic links) (hb : b ∈ V) : counts b = 0 := by
  have : IsStrictOrder α (TransGen fun a b => (a, b) ∈ links) :=
    { irrefl := fun a ha => hacyclic ⟨a, ha⟩, trans := fun _ _ _ => .trans }
  have hwf := V.finite_toSet.wellFoundedOn (r := TransGen fun a b => (a, b) ∈ links)
  refine hwf.induction (P := fun b => counts b = 0) hb fun b hb ih => ?_
  rw [h.counted, waiting, Int.natCast_eq_zero, List.countP_eq_zero]
  rintro ⟨a, b'⟩ hab he
  simp only [decide_eq_true_eq] at he
  obtain ⟨hdone, rfl⟩ := he
  have ha := hV _ hab
  refine hdone ?_
  rw [← List.append_nil done, h.queued]
  exact ⟨ha, ih a ha (.single hab)⟩

/-! ### Depth-first search -/

/-- The search from a vertex, below a path: the vertices that it has left, unless it meets a vertex
of the path. -/
def dfs (links : List (α × α)) : ℕ → List α → List α → α → Option (List α)
  | 0, _, _, _ => none
  | n + 1, path, left, a =>
    if a ∈ path then none
    else if a ∈ left then some left
    else ((targets links a).foldlM (dfs links n (a :: path)) left).map (a :: ·)

/-- No vertex of a list is on a cycle, nor do links lead from it to others. -/
def Clear (links : List (α × α)) (left : List α) : Prop :=
  ∀ a ∈ left, ¬ TransGen (fun a b => (a, b) ∈ links) a a ∧ ∀ b, (a, b) ∈ links → b ∈ left

/-- A search through some vertices stops at a cycle, or leaves all of them. -/
def Searches (links : List (α × α)) (left bs : List α) (o : Option (List α)) : Prop :=
  (o = none → Cyclic links) ∧
    ∀ left', o = some left' → Clear links left' ∧ left ⊆ left' ∧ bs ⊆ left'

omit [DecidableEq α] in
theorem Searches.foldlM {f : List α → α → Option (List α)} (bs : List α) {left : List α}
    (hleft : Clear links left)
    (hf : ∀ b ∈ bs, ∀ left, Clear links left → Searches links left [b] (f left b)) :
    Searches links left bs (bs.foldlM f left) := by
  induction bs generalizing left with
  | nil => exact ⟨fun h => absurd h (by simp), by simp [hleft]⟩
  | cons b bs ih =>
    rw [List.foldlM_cons]
    obtain ⟨hnone, hsome⟩ := hf b List.mem_cons_self left hleft
    cases hfb : f left b with
    | none => exact ⟨fun _ => hnone hfb, fun _ h => absurd h (by simp)⟩
    | some left' =>
      obtain ⟨hleft', hsub, hb⟩ := hsome left' hfb
      obtain ⟨hnone, hsome⟩ := ih hleft' fun b hb => hf b (List.mem_cons_of_mem _ hb)
      refine ⟨hnone, fun left'' h => ?_⟩
      obtain ⟨hclear, hsub', hbs⟩ := hsome left'' h
      refine ⟨hclear, fun x hx => hsub' (hsub hx), List.cons_subset.mpr ⟨hsub' (hb (by simp)), hbs⟩⟩

theorem searches_dfs (hV : ∀ e ∈ links, e.2 ∈ V) (n : ℕ) {path left : List α}
    (hn : V.length < path.length + n) (hnodup : path.Nodup) (hsub : path ⊆ V) (ha : a ∈ V)
    (hpath : ∀ c ∈ path, TransGen (fun a b => (a, b) ∈ links) c a)
    (hleft : Clear links left) : Searches links left [a] (dfs links n path left a) := by
  induction n generalizing path left a with
  | zero =>
    have := (List.subperm_of_subset hnodup hsub).length_le
    omega
  | succ n ih =>
    rw [dfs]
    split_ifs with hmem hmem'
    · exact ⟨fun _ => ⟨a, hpath a hmem⟩, fun _ h => absurd h (by simp)⟩
    · refine ⟨fun h => absurd h (by simp), fun left' h => ?_⟩
      obtain rfl := Option.some.inj h
      exact ⟨hleft, List.Subset.refl _, by simpa using hmem'⟩
    · obtain ⟨hnone, hsome⟩ := Searches.foldlM (f := dfs links n (a :: path)) (targets links a)
        hleft fun b hb left hleft => by
          have hab := mem_targets.mp hb
          refine ih (by rw [List.length_cons]; omega) (List.nodup_cons.mpr ⟨hmem, hnodup⟩)
            (List.cons_subset.mpr ⟨ha, hsub⟩) (hV _ hab) (fun c hc => ?_) hleft
          rcases List.mem_cons.mp hc with rfl | hc
          · exact .single hab
          · exact (hpath c hc).tail hab
      refine ⟨fun h => hnone (Option.map_eq_none_iff.mp h), fun left' h => ?_⟩
      obtain ⟨left₁, h₁, rfl⟩ := Option.map_eq_some_iff.mp h
      obtain ⟨hclear, hsub', htargets⟩ := hsome left₁ h₁
      refine ⟨fun c hc => ?_, fun x hx => List.mem_cons_of_mem _ (hsub' hx), by simp⟩
      rcases List.mem_cons.mp hc with rfl | hc
      · -- a cycle through the vertex would be one through the next
        have hnext (b : α) (hb : (c, b) ∈ links) : b ∈ left₁ := htargets (mem_targets.mpr hb)
        refine ⟨fun hcycle => ?_, fun b hb => List.mem_cons_of_mem _ (hnext b hb)⟩
        obtain ⟨b, hcb, hbc⟩ := TransGen.head'_iff.mp hcycle
        exact (hclear b (hnext b hcb)).1 (.tail' hbc hcb)
      · exact ⟨(hclear c hc).1, fun b hb => List.mem_cons_of_mem _ ((hclear c hc).2 b hb)⟩

/-- The searches from all vertices find a cycle exactly if there is one. -/
theorem foldlM_dfs_eq_none_iff (hV : ∀ e ∈ links, e.1 ∈ V ∧ e.2 ∈ V) :
    V.foldlM (dfs links (V.length + 1) []) [] = none ↔ Cyclic links := by
  obtain ⟨hnone, hsome⟩ := Searches.foldlM (f := dfs links (V.length + 1) []) V
    (show Clear links [] from List.forall_mem_nil _) fun a ha left hleft =>
      searches_dfs (fun e he => (hV e he).2) _ (by simp) List.nodup_nil (List.nil_subset V) ha
        (List.forall_mem_nil _) hleft
  refine ⟨hnone, fun ⟨a, ha⟩ => Option.eq_none_iff_forall_ne_some.mpr fun left h => ?_⟩
  obtain ⟨hclear, -, hall⟩ := hsome left h
  obtain ⟨b, hab, -⟩ := TransGen.head'_iff.mp ha
  exact (hclear a (hall (hV _ hab).1)).1 ha

end Layering

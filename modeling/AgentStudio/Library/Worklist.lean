import Mathlib.Data.List.Nodup
import Mathlib.Logic.Relation

/-!
# Breadth-first search

A worklist search over a successor function: `search` takes the vertices off a queue, passes
over the ones that it has seen or has to skip, and appends the successors of the others. The
result is the list of the visited vertices, in the order of their discovery.

The search is given as many rounds as a finite list of edges needs (`Within`): every round
takes one vertex off the queue, and a vertex is appended once for every edge that leaves a
visited vertex. `mem_explore_iff` is the specification: the search visits the vertices that
`Reach` relates to the start, and `nodup_explore` says that it visits each one once.
-/

namespace Worklist

variable {α : Type} {succ : α → List α} {skip : α → Bool}

/-- The paths that the search follows: no vertex on them is skipped. -/
def Reach (succ : α → List α) (skip : α → Bool) (a b : α) : Prop :=
  skip a = false ∧ Relation.ReflTransGen (fun x y => y ∈ succ x ∧ skip y = false) a b

theorem Reach.refl {a : α} (h : skip a = false) : Reach succ skip a a := ⟨h, .refl⟩

theorem Reach.tail {a b c : α} (h : Reach succ skip a b) (hc : c ∈ succ b)
    (hskip : skip c = false) : Reach succ skip a c :=
  ⟨h.1, h.2.tail ⟨hc, hskip⟩⟩

/-- The end of a path is not skipped. -/
theorem Reach.skip_eq_false {a b : α} (h : Reach succ skip a b) : skip b = false := by
  obtain ⟨ha, hpath⟩ := h
  cases hpath with
  | refl => exact ha
  | tail _ hstep => exact hstep.2

variable [DecidableEq α]

/-- The search: the queue, and the vertices visited so far. -/
def search (succ : α → List α) (skip : α → Bool) : ℕ → List α → List α → List α
  | 0, _, seen => seen
  | _ + 1, [], seen => seen
  | n + 1, a :: queue, seen =>
    if a ∈ seen ∨ skip a = true then search succ skip n queue seen
    else search succ skip n (queue ++ succ a) (seen ++ [a])

/-- The search from one vertex, with rounds for some number of edges. -/
def explore (succ : α → List α) (skip : α → Bool) (size : ℕ) (start : α) : List α :=
  search succ skip (size + 1) [start] []

/-! ### Soundness -/

theorem search_sound {P : α → Prop} (hP : ∀ a b, P a → b ∈ succ a → skip b = false → P b)
    (n : ℕ) {queue seen : List α} (hqueue : ∀ a ∈ queue, skip a = false → P a)
    (hseen : ∀ a ∈ seen, P a) : ∀ a ∈ search succ skip n queue seen, P a := by
  induction n generalizing queue seen with
  | zero => exact hseen
  | succ n ih =>
    cases queue with
    | nil => exact hseen
    | cons a queue =>
      rw [search]
      have hrest : ∀ b ∈ queue, skip b = false → P b := fun b hb =>
        hqueue b (List.mem_cons_of_mem _ hb)
      split_ifs with h
      · exact ih hrest hseen
      · rw [not_or, Bool.not_eq_true] at h
        have ha : P a := hqueue a List.mem_cons_self h.2
        refine ih (fun b hb hskip => ?_) fun b hb => ?_
        · rcases List.mem_append.mp hb with hb | hb
          · exact hrest b hb hskip
          · exact hP a b ha hb hskip
        · rcases List.mem_append.mp hb with hb | hb
          · exact hseen b hb
          · exact List.mem_singleton.mp hb ▸ ha

theorem nodup_search (n : ℕ) {queue seen : List α} (h : seen.Nodup) :
    (search succ skip n queue seen).Nodup := by
  induction n generalizing queue seen with
  | zero => exact h
  | succ n ih =>
    cases queue with
    | nil => exact h
    | cons a queue =>
      rw [search]
      split_ifs with ha
      · exact ih h
      · refine ih (List.nodup_append.mpr ⟨h, List.nodup_singleton a, ?_⟩)
        rintro b hb c hc rfl
        exact ha (Or.inl (List.mem_singleton.mp hc ▸ hb))

theorem subset_search (n : ℕ) {queue seen : List α} :
    ∀ a ∈ seen, a ∈ search succ skip n queue seen := by
  induction n generalizing queue seen with
  | zero => exact fun _ h => h
  | succ n ih =>
    cases queue with
    | nil => exact fun _ h => h
    | cons b queue =>
      intro a ha
      rw [search]
      split_ifs
      · exact ih a ha
      · exact ih a (List.mem_append_left _ ha)

/-! ### Completeness -/

/-- The successors of a vertex are no more than the edges that leave it. -/
def Within (succ : α → List α) (sources : List α) : Prop :=
  ∀ a, (succ a).length ≤ (sources.filter (· = a)).length

/-- The edges whose source is not visited yet. -/
def pending (sources seen : List α) : ℕ := (sources.filter (· ∉ seen)).length

theorem pending_append (sources seen : List α) {a : α} (ha : a ∉ seen) :
    pending sources (seen ++ [a]) + (sources.filter (· = a)).length = pending sources seen := by
  unfold pending
  induction sources with
  | nil => rfl
  | cons b sources ih =>
    by_cases hba : b = a
    · subst hba
      simp only [List.filter_cons, List.mem_append, List.mem_singleton, ha, or_true, not_true,
        decide_false, Bool.false_eq_true, if_false, not_false_eq_true, decide_true, if_true,
        List.length_cons] at ih ⊢
      omega
    · by_cases hb : b ∈ seen
      · simpa [List.filter_cons, hb, hba] using ih
      · simp only [List.filter_cons, List.mem_append, List.mem_singleton, hb, hba, or_self,
          not_false_eq_true, decide_true, if_true, List.length_cons, decide_false,
          Bool.false_eq_true, if_false] at ih ⊢
        omega

/-- With enough rounds the queue is emptied, and the visited vertices are closed. -/
theorem search_closed {sources : List α} (hwithin : Within succ sources) (skip : α → Bool) (n : ℕ)
    (queue seen : List α) (hn : queue.length + pending sources seen ≤ n)
    (hclosed : ∀ a ∈ seen, ∀ b ∈ succ a, skip b = false → b ∈ seen ∨ b ∈ queue) :
    (∀ a ∈ queue, skip a = false → a ∈ search succ skip n queue seen) ∧
      ∀ a ∈ search succ skip n queue seen, ∀ b ∈ succ a, skip b = false →
        b ∈ search succ skip n queue seen := by
  induction n generalizing queue seen with
  | zero =>
    obtain rfl : queue = [] := List.eq_nil_of_length_eq_zero (by omega)
    refine ⟨by simp, fun a ha b hb hskip => ?_⟩
    exact (hclosed a ha b hb hskip).resolve_right List.not_mem_nil
  | succ n ih =>
    cases queue with
    | nil =>
      refine ⟨by simp, fun a ha b hb hskip => ?_⟩
      exact (hclosed a ha b hb hskip).resolve_right List.not_mem_nil
    | cons q queue =>
      rw [search]
      split_ifs with h
      · -- the vertex was visited before, or is skipped
        have hclosed' : ∀ a ∈ seen, ∀ b ∈ succ a, skip b = false → b ∈ seen ∨ b ∈ queue := by
          intro a ha b hb hskip
          rcases hclosed a ha b hb hskip with hs | hs
          · exact Or.inl hs
          · rcases List.mem_cons.mp hs with rfl | hs
            · refine Or.inl (h.resolve_right ?_)
              simp [hskip]
            · exact Or.inr hs
        obtain ⟨hqueue, hend⟩ := ih queue seen (by simp at hn; omega) hclosed'
        refine ⟨fun a ha hskip => ?_, hend⟩
        rcases List.mem_cons.mp ha with rfl | ha
        · refine subset_search n a (h.resolve_right ?_)
          simp [hskip]
        · exact hqueue a ha hskip
      · rw [not_or, Bool.not_eq_true] at h
        have hpending := pending_append sources seen h.1
        have hdegree := hwithin q
        have hclosed' : ∀ a ∈ seen ++ [q], ∀ b ∈ succ a, skip b = false →
            b ∈ seen ++ [q] ∨ b ∈ queue ++ succ q := by
          intro a ha b hb hskip
          rcases List.mem_append.mp ha with ha | ha
          · rcases hclosed a ha b hb hskip with hs | hs
            · exact Or.inl (List.mem_append_left _ hs)
            · rcases List.mem_cons.mp hs with rfl | hs
              · exact Or.inl (by simp)
              · exact Or.inr (List.mem_append_left _ hs)
          · obtain rfl := List.mem_singleton.mp ha
            exact Or.inr (List.mem_append_right _ hb)
        have hlength : (queue ++ succ q).length + pending sources (seen ++ [q]) ≤ n := by
          simp at hn ⊢; omega
        obtain ⟨hqueue, hend⟩ := ih (queue ++ succ q) (seen ++ [q]) hlength hclosed'
        refine ⟨fun a ha hskip => ?_, hend⟩
        rcases List.mem_cons.mp ha with rfl | ha
        · exact subset_search n a (by simp)
        · exact hqueue a (List.mem_append_left _ ha) hskip

/-- **Specification.** The search visits the vertices that can be reached. -/
theorem mem_explore_iff {sources : List α} (hwithin : Within succ sources) (skip : α → Bool)
    (start a : α) :
    a ∈ explore succ skip sources.length start ↔ Reach succ skip start a := by
  have hpending : pending sources [] = sources.length := by simp [pending]
  obtain ⟨hstart, hclosed⟩ := search_closed hwithin skip (sources.length + 1) [start] []
    (by simp; omega) (by simp)
  constructor
  · refine search_sound (P := Reach succ skip start) (fun x y hx hy => hx.tail hy) _ ?_ (by simp) a
    intro b hb hskip
    obtain rfl := List.mem_singleton.mp hb
    exact Reach.refl hskip
  · rintro ⟨hskip, hpath⟩
    induction hpath with
    | refl => exact hstart start List.mem_cons_self hskip
    | tail _ hstep ih => exact hclosed _ ih _ hstep.1 hstep.2

theorem nodup_explore (size : ℕ) (start : α) : (explore succ skip size start).Nodup :=
  nodup_search _ List.nodup_nil

end Worklist

import Mathlib.Algebra.BigOperators.Group.List.Basic
import Mathlib.Data.Int.Basic
import Mathlib.Order.WellFounded
import Mathlib.Tactic.Ring

/-!
# Programs that ask questions

A `Program A α` returns a value, or asks a question `q` and goes on with the answer, of type
`A q`. Whatever a program does not decide itself is an answer: what its environment does, and
in `interleave` which of two programs goes on. So a run of a program is a list of questions with
their answers (`Traced`), and `run` follows an environment.

A `Ledger` says what is watched along runs: what every question has to meet, and what it is
charged. `Meets` computes from a program what holds of all its runs (`Meets.traced`), with one rule
for each way to put programs together: `meets_bind`, `Meets.interleave` and `Free.gather`. Where
only the values that a program returns matter, `Always` does the same without a ledger.

`Returns p r` says that some run of a program returns `r`, whatever its environment answers. It is
`Traced` without the trace: a run that is put together from parts (`returns_bind`) is looked at
part by part, and what `Always` holds of a program holds of each value that it can return
(`always_iff`). Where the trace matters it is put together in the same way (`traced_bind`).
-/

namespace Programs

variable {Q : Type} {A : Q → Type} {α β σ : Type}

/-- A program. -/
inductive Program (A : Q → Type) (α : Type) : Type where
  | ret (a : α) : Program A α
  | ask (q : Q) (next : A q → Program A α) : Program A α

/-- A question with its answer. -/
abbrev Event (A : Q → Type) : Type := (q : Q) × A q

namespace Program

/-- A program and what it goes on with. -/
def bind : Program A α → (α → Program A β) → Program A β
  | ret a, f => f a
  | ask q next, f => ask q fun a => (next a).bind f

/-- A program whose value is changed. -/
def map (f : α → β) (p : Program A α) : Program A β := p.bind fun a => ret (f a)

/-! ### Runs -/

/-- The events of a run and the value that it returns. -/
inductive Traced : Program A α → List (Event A) → α → Prop
  | ret (a : α) : Traced (ret a) [] a
  | ask {q : Q} {next : A q → Program A α} (a : A q) {t : List (Event A)} {r : α}
      (h : Traced (next a) t r) : Traced (ask q next) (⟨q, a⟩ :: t) r

/-- The run in an environment that has a state. -/
def run (respond : (q : Q) → σ → A q × σ) : Program A α → σ → List (Event A) × α
  | ret a, _ => ([], a)
  | ask q next, s =>
    let answer := respond q s
    let rest := (next answer.1).run respond answer.2
    (⟨q, answer.1⟩ :: rest.1, rest.2)

theorem traced_run (respond : (q : Q) → σ → A q × σ) (p : Program A α) (s : σ) :
    Traced p (p.run respond s).1 (p.run respond s).2 := by
  induction p generalizing s with
  | ret a => exact .ret a
  | ask q next ih => exact .ask _ (ih _ _)

/-! ### Programs at the same time -/

section Interleave

variable (turn : Q) (first : A turn → Bool)

/-- A program that is at a question, at the same time as another one: `rest` is the first one
after an answer, with what is left of the second one. -/
def interleaveAsk (q : Q) (rest : A q → Program A β → Program A (α × β)) (p : Program A α) :
    Program A β → Program A (α × β)
  | ret b => p.map (·, b)
  | ask q' next =>
    ask turn fun answer =>
      if first answer then ask q fun a => rest a (ask q' next)
      else ask q' fun b => interleaveAsk q rest p (next b)

/-- Two programs at the same time: `turn` asks which of them goes on. -/
def interleave : Program A α → Program A β → Program A (α × β)
  | ret a, p => p.map (a, ·)
  | ask q next, p =>
    interleaveAsk turn first q (fun a p => interleave (next a) p) (ask q next) p

/-- Any number of programs at the same time. -/
def gather : List (Program A α) → Program A (List α)
  | [] => ret []
  | p :: ps => (interleave turn first p (gather ps)).map fun r => r.1 :: r.2

end Interleave

/-! ### The end of a program -/

/-- What is left of a program after an answer. -/
inductive After : Program A α → Program A α → Prop
  | answer {q : Q} (next : A q → Program A α) (a : A q) : After (next a) (ask q next)

theorem wellFounded_after : WellFounded (After : Program A α → Program A α → Prop) := by
  refine ⟨fun p => ?_⟩
  induction p with
  | ret a => exact ⟨_, fun p h => nomatch h⟩
  | ask q next ih =>
    refine ⟨_, fun p h => ?_⟩
    cases h with
    | answer _ a => exact ih a

/-- If every question is answered, there is no endless run. -/
theorem not_endless (run : ℕ → Program A α) : ¬ ∀ n, (run (n + 1)).After (run n) := fun h =>
  (wellFounded_iff_isEmpty_descending_chain.mp wellFounded_after).false ⟨run, h⟩

/-! ### What a program returns -/

/-- Every value that a program returns meets a condition. -/
def Always : Program A α → (α → Prop) → Prop
  | ret a, P => P a
  | ask _ next, P => ∀ a, (next a).Always P

theorem Always.mono {p : Program A α} {P P' : α → Prop} (h : p.Always P)
    (hP : ∀ r, P r → P' r) : p.Always P' := by
  induction p with
  | ret a => exact hP a h
  | ask q next ih => exact fun a => ih a (h a)

theorem always_bind {p : Program A α} {f : α → Program A β} {P : β → Prop} :
    (p.bind f).Always P ↔ p.Always fun a => (f a).Always P := by
  induction p with
  | ret a => exact Iff.rfl
  | ask q next ih => simp only [bind, Always, ih]

/-- What a program goes on with only matters after the values that it can return. -/
theorem Always.bind_congr {p : Program A α} {f f' : α → Program A β}
    (h : p.Always fun a => f a = f' a) : p.bind f = p.bind f' := by
  induction p with
  | ret a => exact h
  | ask q next ih => exact congrArg (ask q) (funext fun a => ih a (h a))

end Program

/-! ### Ledgers -/

/-- What is watched along runs. -/
structure Ledger (A : Q → Type) where
  grants : (q : Q) → Prop
  charge : (q : Q) → A q → ℤ

namespace Program

variable (L : Ledger A)

/-- In every run every question meets what it has to, and the sum of the charges and the value
that is returned are as the condition says. -/
def Meets : Program A α → (ℤ → α → Prop) → Prop
  | ret a, P => P 0 a
  | ask q next, P => L.grants q ∧ ∀ a, (next a).Meets fun n r => P (L.charge q a + n) r

variable {L}

variable {p : Program A α} {P : ℤ → α → Prop}

theorem Meets.mono {P' : ℤ → α → Prop} (h : p.Meets L P) (hP : ∀ n r, P n r → P' n r) :
    p.Meets L P' := by
  induction p generalizing P P' with
  | ret a => exact hP 0 a h
  | ask q next ih => exact ⟨h.1, fun a => ih a (h.2 a) fun n r => hP _ r⟩

/-- A program and what it goes on with. -/
theorem meets_bind {f : α → Program A β} {P : ℤ → β → Prop} :
    (p.bind f).Meets L P ↔ p.Meets L fun n a => (f a).Meets L fun m b => P (n + m) b := by
  induction p generalizing P with
  | ret a => simp only [bind, Meets, zero_add]
  | ask q next ih => simp only [bind, Meets, ih, add_assoc]

theorem meets_map {f : α → β} {P : ℤ → β → Prop} :
    (p.map f).Meets L P ↔ p.Meets L fun n a => P n (f a) := by
  simp only [map, meets_bind, Meets, add_zero]

/-- **All runs.** What `Meets` computes holds of every run. -/
theorem Meets.traced (h : p.Meets L P) {t : List (Event A)} {r : α} (ht : Traced p t r) :
    (∀ e ∈ t, L.grants e.1) ∧ P ((t.map fun e => L.charge e.1 e.2).sum) r := by
  induction ht generalizing P with
  | ret a => exact ⟨by simp, h⟩
  | ask a ht ih =>
    obtain ⟨hgrants, hP⟩ := ih (h.2 a)
    exact ⟨List.forall_mem_cons.mpr ⟨h.1, hgrants⟩, by simpa using hP⟩

theorem Meets.always {P' : α → Prop} (h : p.Meets L P) (hP : ∀ n r, P n r → P' r) :
    p.Always P' := by
  induction p generalizing P with
  | ret a => exact hP 0 a h
  | ask q next ih => exact fun a => ih a (h.2 a) fun n r => hP _ r

theorem Meets.and_always {P' : α → Prop} (h : p.Meets L P) (h' : p.Always P') :
    p.Meets L fun n r => P n r ∧ P' r := by
  induction p generalizing P with
  | ret a => exact ⟨h, h'⟩
  | ask q next ih => exact ⟨h.1, fun a => ih a (h.2 a) (h' a)⟩

/-! ### Programs at the same time -/

section Interleave

variable {turn : Q} {first : A turn → Bool}

/-- A program that costs nothing and returns a value that meets a condition. -/
def Free (L : Ledger A) (p : Program A α) (P : α → Prop) : Prop :=
  p.Meets L fun n r => n = 0 ∧ P r

private theorem Meets.interleaveAsk {q : Q} {rest : A q → Program A β → Program A (α × β)}
    {p : Program A α} {P : ℤ → α → Prop} {R : ℤ → β → Prop}
    (hturn : L.grants turn ∧ ∀ a, L.charge turn a = 0) (hp : p.Meets L P)
    (hgrants : L.grants q)
    (hrest : ∀ a {p' : Program A β} {R : ℤ → β → Prop}, p'.Meets L R → (rest a p').Meets L
      fun n r => ∃ m k, L.charge q a + n = m + k ∧ P m r.1 ∧ R k r.2)
    {p' : Program A β} (hp' : p'.Meets L R) :
    (interleaveAsk turn first q rest p p').Meets L fun n r =>
      ∃ m k, n = m + k ∧ P m r.1 ∧ R k r.2 := by
  induction p' generalizing R with
  | ret b =>
    refine meets_map.mpr (hp.mono fun n r hr => ⟨n, 0, (add_zero n).symm, hr, hp'⟩)
  | ask q' next ih =>
    refine ⟨hturn.1, fun answer => ?_⟩
    dsimp only
    rw [hturn.2 answer]
    split_ifs
    · refine ⟨hgrants, fun a => (hrest a hp').mono fun n r hr => ?_⟩
      simpa only [zero_add] using hr
    · refine ⟨hp'.1, fun b => (ih b (hp'.2 b)).mono ?_⟩
      rintro n r ⟨m, k, rfl, hm, hk⟩
      exact ⟨m, _, by ring, hm, hk⟩

/-- Two programs at the same time cost what they cost, and return what they return. -/
theorem Meets.interleave {p : Program A α} {p' : Program A β} {P : ℤ → α → Prop}
    {R : ℤ → β → Prop} (hturn : L.grants turn ∧ ∀ a, L.charge turn a = 0)
    (hp : p.Meets L P) (hp' : p'.Meets L R) :
    (interleave turn first p p').Meets L fun n r => ∃ m k, n = m + k ∧ P m r.1 ∧ R k r.2 := by
  induction p generalizing p' P R with
  | ret a =>
    exact meets_map.mpr (hp'.mono fun n r hr => ⟨0, n, (zero_add n).symm, hp, hr⟩)
  | ask q next ih =>
    refine Meets.interleaveAsk hturn hp hp.1 (fun a _ _ hp' => ?_) hp'
    refine (ih a (hp.2 a) hp').mono ?_
    rintro n r ⟨m, k, rfl, hm, hk⟩
    exact ⟨_, k, by ring, hm, hk⟩

/-- Programs at the same time cost nothing if none of them does. -/
theorem Free.gather {ps : List (Program A α)} {P : α → Prop}
    (hturn : L.grants turn ∧ ∀ a, L.charge turn a = 0) (h : ∀ p ∈ ps, p.Free L P) :
    (gather turn first ps).Free L fun rs => ∀ r ∈ rs, P r := by
  induction ps with
  | nil => exact ⟨rfl, by simp⟩
  | cons p ps ih =>
    rw [List.forall_mem_cons] at h
    refine meets_map.mpr ((Meets.interleave hturn h.1 (ih h.2)).mono ?_)
    rintro n r ⟨m, k, rfl, ⟨rfl, hr⟩, rfl, hrs⟩
    exact ⟨rfl, List.forall_mem_cons.mpr ⟨hr, hrs⟩⟩

end Interleave

/-! ### What programs can return -/

section Returns

/-- Some run of the program returns the value. -/
def Returns (p : Program A α) (r : α) : Prop := ∃ t, Traced p t r

variable {γ : Type} {t : List (Event A)}

theorem Traced.returns {r : α} (h : Traced p t r) : p.Returns r := ⟨t, h⟩

theorem returns_ret {a r : α} : (ret a : Program A α).Returns r ↔ r = a := by
  constructor
  · rintro ⟨t, h⟩
    cases h
    rfl
  · rintro rfl
    exact ⟨[], .ret _⟩

theorem returns_ask {q : Q} {next : A q → Program A α} {r : α} :
    (ask q next).Returns r ↔ ∃ a, (next a).Returns r := by
  constructor
  · rintro ⟨t, h⟩
    cases h with
    | ask a h => exact ⟨a, _, h⟩
  · rintro ⟨a, t, h⟩
    exact ⟨_, .ask a h⟩

/-- A program and what it goes on with. -/
theorem returns_bind {f : α → Program A β} {r : β} :
    (p.bind f).Returns r ↔ ∃ a, p.Returns a ∧ (f a).Returns r := by
  induction p with
  | ret a => simp only [bind, returns_ret, exists_eq_left]
  | ask q next ih =>
    simp only [bind, returns_ask, ih]
    constructor
    · rintro ⟨a, b, h, h'⟩
      exact ⟨b, ⟨a, h⟩, h'⟩
    · rintro ⟨b, ⟨a, h⟩, h'⟩
      exact ⟨a, b, h, h'⟩

theorem returns_map {f : α → β} {r : β} : (p.map f).Returns r ↔ ∃ a, p.Returns a ∧ r = f a := by
  simp only [map, returns_bind, returns_ret]

/-- What always holds of what a program returns. -/
theorem always_iff {P : α → Prop} : p.Always P ↔ ∀ r, p.Returns r → P r := by
  induction p with
  | ret a => simp only [Always, returns_ret, forall_eq]
  | ask q next ih =>
    simp only [Always, ih, returns_ask]
    constructor
    · rintro h r ⟨a, ha⟩
      exact h a r ha
    · exact fun h a r ha => h r ⟨a, ha⟩

/-- The run in an environment returns what the program can return. -/
theorem returns_run {σ : Type} (respond : (q : Q) → σ → A q × σ) (p : Program A α) (s : σ) :
    p.Returns (p.run respond s).2 := (traced_run respond p s).returns

/-! ### Traces -/

theorem traced_ret {a r : α} : Traced (ret a) t r ↔ t = [] ∧ r = a := by
  constructor
  · intro h
    cases h
    exact ⟨rfl, rfl⟩
  · rintro ⟨rfl, rfl⟩
    exact .ret _

theorem traced_ask {q : Q} {next : A q → Program A α} {r : α} :
    Traced (ask q next) t r ↔ ∃ a t', t = ⟨q, a⟩ :: t' ∧ Traced (next a) t' r := by
  constructor
  · intro h
    cases h with
    | ask a h => exact ⟨a, _, rfl, h⟩
  · rintro ⟨a, t', rfl, h⟩
    exact .ask a h

/-- A program and what it goes on with. -/
theorem traced_bind {f : α → Program A β} {r : β} :
    Traced (p.bind f) t r ↔ ∃ t₁ t₂ a, t = t₁ ++ t₂ ∧ Traced p t₁ a ∧ Traced (f a) t₂ r := by
  induction p generalizing t with
  | ret a =>
    constructor
    · exact fun h => ⟨[], t, a, rfl, .ret a, h⟩
    · rintro ⟨t₁, t₂, b, rfl, h₁, h₂⟩
      obtain ⟨rfl, rfl⟩ := traced_ret.mp h₁
      exact h₂
  | ask q next ih =>
    constructor
    · intro h
      obtain ⟨a, t', rfl, h'⟩ := traced_ask.mp h
      obtain ⟨t₁, t₂, b, rfl, h₁, h₂⟩ := (ih a).mp h'
      exact ⟨_, t₂, b, rfl, .ask a h₁, h₂⟩
    · rintro ⟨t₁, t₂, b, rfl, h₁, h₂⟩
      obtain ⟨a, t', rfl, h⟩ := traced_ask.mp h₁
      exact .ask a ((ih a).mpr ⟨t', t₂, b, rfl, h, h₂⟩)

theorem traced_of_run {σ : Type} {respond : (q : Q) → σ → A q × σ} {p : Program A (α × β)} {s : σ}
    {a : α} (h : (p.run respond s).2.1 = a) :
    Traced p (p.run respond s).1 (a, (p.run respond s).2.2) := by
  rw [← h]
  exact traced_run respond p s

/-- A trace is cut in one place only. -/
theorem Traced.unique {t₁ t₁' t₂ t₂' : List (Event A)} {a a' : α} (h : Traced p t₁ a)
    (h' : Traced p t₁' a') (ht : t₁ ++ t₂ = t₁' ++ t₂') : a = a' ∧ t₂ = t₂' := by
  induction h generalizing t₁' with
  | ret a =>
    obtain ⟨rfl, rfl⟩ := traced_ret.mp h'
    exact ⟨rfl, ht⟩
  | ask a h ih =>
    obtain ⟨b, t, rfl, hnext⟩ := traced_ask.mp h'
    obtain ⟨hevent, htail⟩ := List.cons.inj ht
    obtain rfl := eq_of_heq (Sigma.mk.inj hevent).2
    exact ih hnext htail

/-! ### Programs at the same time -/

/-- Programs at the same time, each with a condition of its own on what it returns. -/
theorem Free.gather_map {L : Ledger A} {turn : Q} {first : A turn → Bool}
    {f : β → Program A α} {P : β → α → Prop} {xs : List β}
    (hturn : L.grants turn ∧ ∀ a, L.charge turn a = 0) (h : ∀ x ∈ xs, (f x).Free L (P x)) :
    (Program.gather turn first (xs.map f)).Free L fun rs => List.Forall₂ P xs rs := by
  induction xs with
  | nil => exact ⟨rfl, .nil⟩
  | cons x xs ih =>
    rw [List.forall_mem_cons] at h
    refine meets_map.mpr ((Meets.interleave hturn h.1 (ih h.2)).mono ?_)
    rintro n r ⟨m, k, rfl, ⟨rfl, hr⟩, rfl, hrs⟩
    exact ⟨rfl, .cons hr hrs⟩

/-! ### Programs that are put together -/

theorem bind_assoc (p : Program A α) (f : α → Program A β) (g : β → Program A γ) :
    (p.bind f).bind g = p.bind fun a => (f a).bind g := by
  induction p with
  | ret a => rfl
  | ask q next ih => exact congrArg (ask q) (funext ih)

end Returns

end Program

end Programs

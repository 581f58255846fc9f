import AgentStudio.Library.Program

/-!
# Traces of programs at the same time

A run of several programs at the same time consists of one run of each of them, whose events come in
some order, and of the questions whose turn it is: `traced_interleave` takes a run of two programs
apart, and `traced_gather` a run of any number of them. What is counted along the trace, without
regard to the order, is then counted along the runs of the programs one by one.
-/

namespace Programs

namespace Program

variable {Q : Type} {A : Q → Type} {α β : Type} {turn : Q} {first : A turn → Bool}

/-- The events of a run of two programs: those of a run of each, and the questions for the turn. -/
def Shuffled (turn : Q) (t t₁ t₂ : List (Event A)) : Prop :=
  ∃ turns : List (Event A), t.Perm (turns ++ (t₁ ++ t₂)) ∧ ∀ e ∈ turns, e.1 = turn

namespace Shuffled

variable {t t₁ t₂ : List (Event A)}

theorem of_left (t₁ : List (Event A)) : Shuffled turn t₁ t₁ [] :=
  ⟨[], by simp, by simp⟩

theorem of_right (t₂ : List (Event A)) : Shuffled turn t₂ [] t₂ :=
  ⟨[], by simp, by simp⟩

theorem turn_cons (h : Shuffled turn t t₁ t₂) (answer : A turn) :
    Shuffled turn (⟨turn, answer⟩ :: t) t₁ t₂ := by
  obtain ⟨turns, hperm, hturns⟩ := h
  exact ⟨⟨turn, answer⟩ :: turns, hperm.cons _, List.forall_mem_cons.mpr ⟨rfl, hturns⟩⟩

theorem cons_left (h : Shuffled turn t t₁ t₂) (e : Event A) :
    Shuffled turn (e :: t) (e :: t₁) t₂ := by
  obtain ⟨turns, hperm, hturns⟩ := h
  exact ⟨turns, (hperm.cons e).trans List.perm_middle.symm, hturns⟩

theorem cons_right (h : Shuffled turn t t₁ t₂) (e : Event A) :
    Shuffled turn (e :: t) t₁ (e :: t₂) := by
  obtain ⟨turns, hperm, hturns⟩ := h
  refine ⟨turns, (hperm.cons e).trans ?_, hturns⟩
  rw [← List.append_assoc, ← List.append_assoc]
  exact List.perm_middle.symm

end Shuffled

private theorem traced_interleaveAsk {q : Q} {next : A q → Program A α}
    {rest : A q → Program A β → Program A (α × β)}
    (hrest : ∀ {a p' t r}, Traced (rest a p') t r → ∃ t₁ t₂, Traced (next a) t₁ r.1 ∧
      Traced p' t₂ r.2 ∧ Shuffled turn t t₁ t₂)
    {p' : Program A β} {t : List (Event A)} {r : α × β}
    (h : Traced (interleaveAsk turn first q rest (ask q next) p') t r) :
    ∃ t₁ t₂, Traced (ask q next) t₁ r.1 ∧ Traced p' t₂ r.2 ∧ Shuffled turn t t₁ t₂ := by
  induction p' generalizing t with
  | ret b =>
    obtain ⟨t₁, t₂, a, rfl, hrun, hret⟩ := traced_bind.mp h
    obtain ⟨rfl, rfl⟩ := traced_ret.mp hret
    rw [List.append_nil]
    exact ⟨t₁, [], hrun, .ret b, .of_left t₁⟩
  | ask q' next' ih =>
    obtain ⟨answer, t', rfl, hturn⟩ := traced_ask.mp h
    split_ifs at hturn
    · -- the first program goes on
      obtain ⟨a, t'', rfl, hnext⟩ := traced_ask.mp hturn
      obtain ⟨t₁, t₂, h₁, h₂, ht⟩ := hrest hnext
      exact ⟨_, t₂, .ask a h₁, h₂, (ht.cons_left _).turn_cons answer⟩
    · obtain ⟨b, t'', rfl, hnext⟩ := traced_ask.mp hturn
      obtain ⟨t₁, t₂, h₁, h₂, ht⟩ := ih b hnext
      exact ⟨t₁, _, h₁, .ask b h₂, (ht.cons_right _).turn_cons answer⟩

/-- A run of two programs at the same time is a run of each. -/
theorem traced_interleave {p : Program A α} {p' : Program A β} {t : List (Event A)} {r : α × β}
    (h : Traced (interleave turn first p p') t r) :
    ∃ t₁ t₂, Traced p t₁ r.1 ∧ Traced p' t₂ r.2 ∧ Shuffled turn t t₁ t₂ := by
  induction p generalizing p' t r with
  | ret a =>
    obtain ⟨t₁, t₂, b, rfl, hrun, hret⟩ := traced_bind.mp h
    obtain ⟨rfl, rfl⟩ := traced_ret.mp hret
    rw [List.append_nil]
    exact ⟨[], t₁, .ret a, hrun, .of_right t₁⟩
  | ask q next ih => exact traced_interleaveAsk (fun hnext => ih _ hnext) h

/-- **A run of any number of programs at the same time is a run of each.** -/
theorem traced_gather {ps : List (Program A α)} {t : List (Event A)} {rs : List α}
    (h : Traced (gather turn first ps) t rs) :
    ∃ (turns : List (Event A)) (runs : List (List (Event A) × α)), rs = runs.map Prod.snd ∧
      List.Forall₂ (fun p x => Traced p x.1 x.2) ps runs ∧
      t.Perm (turns ++ (runs.map Prod.fst).flatten) ∧ ∀ e ∈ turns, e.1 = turn := by
  induction ps generalizing t rs with
  | nil =>
    obtain ⟨rfl, rfl⟩ := traced_ret.mp h
    exact ⟨[], [], rfl, .nil, .nil, by simp⟩
  | cons p ps ih =>
    obtain ⟨t', t'', r, rfl, hboth, hret⟩ := traced_bind.mp h
    obtain ⟨rfl, rfl⟩ := traced_ret.mp hret
    obtain ⟨t₁, t₂, h₁, h₂, turns, hperm, hturns⟩ := traced_interleave hboth
    obtain ⟨turns', runs, hruns, hall, hperm', hturns'⟩ := ih h₂
    refine ⟨turns ++ turns', (t₁, r.1) :: runs, congrArg (r.1 :: ·) hruns, .cons h₁ hall, ?_,
      List.forall_mem_append.mpr ⟨hturns, hturns'⟩⟩
    rw [List.append_nil, List.map_cons, List.flatten_cons, List.append_assoc]
    refine hperm.trans (.append_left turns ?_)
    refine (hperm'.append_left t₁).trans ?_
    rw [← List.append_assoc, ← List.append_assoc]
    exact .append_right _ List.perm_append_comm

end Program

end Programs

import AgentStudio.Execution.Inherited
import Mathlib.Algebra.Order.BigOperators.Group.List

/-!
# Tools are found before they are executed

A tool of the registry is executed only after `self.tools.get` has found it: in a run, a tool has
been found at least as often as it is executed, since the property is inherited and holds of the two
places that call a tool. So no run executes a tool that the registry does not have
(`exists_found_of_executed`), whatever the LLM answers and whatever a node names. All this is said
of the questions of some scopes (`FindsIn`), as those of a run without the runs inside it.
-/

namespace AgentStudio.Execution

open PyText PyJson AgentStudio.Graph Programs

def Call.finds (name : Str) : (call : Call) → call.Answer → Bool
  | .getTool name', found => name' = name && found
  | _, _ => false

/-- What a question counts for a tool: one if the tool is found, minus one if it is executed. -/
def Call.lookups (name : Str) : (call : Call) → call.Answer → ℤ
  | .getTool name', found => if name' = name ∧ found = true then 1 else 0
  | .execute _ name' _, _ => if name' = name then -1 else 0
  | _, _ => 0

/-- The ledger of the look-ups of a tool in some scopes. -/
def lookupsIn (own : Scope → Bool) (name : Str) : Ledger Step.Answer where
  grants _ := True
  charge q a := if own q.scope then q.call.lookups name a else 0

/-- In some scopes, the tool has been found at least as often as it is executed. -/
def FindsIn (own : Scope → Bool) (name : Str) (α : Type) (p : Program Step.Answer α) : Prop :=
  p.Meets (lookupsIn own name) fun n _ => 0 ≤ n

variable {own : Scope → Bool} {name : Str} {α : Type}

theorem Call.lookups_nonneg {call : Call} (h : call.isExecute = false) (a : call.Answer) :
    0 ≤ call.lookups name a := by
  cases call with
  | getTool name' =>
    change (0 : ℤ) ≤ if name' = name ∧ a = true then 1 else 0
    split_ifs
    · exact zero_le_one
    · exact le_rfl
  | execute site name' args => exact absurd h Bool.true_eq_false.mp
  | _ => exact le_rfl

theorem Call.finds_of_lookups_pos {call : Call} {a : call.Answer} (h : 0 < call.lookups name a) :
    call.finds name a = true := by
  cases call with
  | getTool name' =>
    by_cases hfound : name' = name ∧ a = true
    · simp [finds, hfound.1, hfound.2]
    · exact absurd h (by simp [lookups, hfound])
  | execute site name' args =>
    refine absurd h (not_lt.mpr ?_)
    change (if name' = name then -1 else 0 : ℤ) ≤ 0
    split_ifs <;> decide
  | _ => exact absurd h (lt_irrefl _)

theorem lookupsIn_nonneg {q : Step} (h : q.call.isExecute = false) (a : q.Answer) :
    0 ≤ (lookupsIn own name).charge q a := by
  simp only [lookupsIn]
  split_ifs
  · exact Call.lookups_nonneg h a
  · exact le_rfl

theorem FindsIn.ret (a : α) : FindsIn own name α (.ret a) := le_refl (0 : ℤ)

theorem FindsIn.ask {q : Step} (h : q.call.isExecute = false)
    {next : q.Answer → Program Step.Answer α} (hnext : ∀ a, FindsIn own name α (next a)) :
    FindsIn own name α (.ask q next) :=
  ⟨trivial, fun a => (hnext a).mono fun _ _ hn => add_nonneg (lookupsIn_nonneg h a) hn⟩

theorem FindsIn.bind {β : Type} {p : Program Step.Answer α} {f : α → Program Step.Answer β}
    (hp : FindsIn own name α p) (hf : ∀ a, FindsIn own name β (f a)) :
    FindsIn own name β (p.bind f) :=
  Program.meets_bind.mpr (hp.mono fun _ a hn => (hf a).mono fun _ _ hm => add_nonneg hn hm)

theorem FindsIn.gather (c : Scope) (ctx : AgentContext) (ps : List (Program Step.Answer α))
    (h : ∀ p ∈ ps, FindsIn own name α p) :
    FindsIn own name (List α) (.gather ⟨c, ctx, .schedule⟩ id ps) := by
  have hturn (a : Bool) : (lookupsIn own name).charge ⟨c, ctx, .schedule⟩ a = 0 :=
    ite_self _
  induction ps with
  | nil => exact .ret _
  | cons p ps ih =>
    rw [List.forall_mem_cons] at h
    refine Program.meets_map.mpr ((Program.Meets.interleave ⟨trivial, hturn⟩ h.1
      (ih h.2)).mono ?_)
    rintro n r ⟨m, k, rfl, hm, hk⟩
    exact add_nonneg hm hk

/-! ### Calls of tools -/

theorem Call.lookups_found (site : ToolSite) (toolName : Str) (args : Dict)
    (a : (Call.execute site toolName args).Answer) :
    0 ≤ (Call.getTool toolName).lookups name true +
      (Call.execute site toolName args).lookups name a := by
  change (0 : ℤ) ≤ (if toolName = name ∧ true = true then 1 else 0) +
    if toolName = name then -1 else 0
  by_cases hname : toolName = name
  · rw [if_pos ⟨hname, rfl⟩, if_pos hname]
    decide
  · rw [if_neg fun h => hname h.1, if_neg hname]
    decide

theorem lookupsIn_found (c : Scope) (ctx : AgentContext) (site : ToolSite) (toolName : Str)
    (args : Dict) (a : (Call.execute site toolName args).Answer) :
    0 ≤ (lookupsIn own name).charge ⟨c, ctx, .getTool toolName⟩ true +
      (lookupsIn own name).charge ⟨c, ctx, .execute site toolName args⟩ a := by
  simp only [lookupsIn]
  split_ifs
  · exact Call.lookups_found site toolName args a
  · exact le_rfl

theorem findsIn_callTool (site : ToolSite) (toolName : Str) (args : Dict) (c : Scope) (s : Run) :
    FindsIn own name _ (Exec.callTool site toolName args c s) := by
  have hfound (found : Bool) :
      0 ≤ (lookupsIn own name).charge ⟨c, s.ctx, .getTool toolName⟩ found + 0 :=
    add_nonneg (lookupsIn_nonneg rfl _) le_rfl
  have hprepared (answer : ToolAnswer Dict) :
      (lookupsIn own name).charge ⟨c, s.ctx, .prepareArgs toolName args⟩ answer = 0 := ite_self _
  refine ⟨trivial, fun found => ?_⟩
  cases found with
  | false => exact hfound false
  | true =>
    refine ⟨trivial, fun answer => ?_⟩
    dsimp only
    rw [hprepared]
    cases answer with
    | keyError | failed => exact (add_zero (0 : ℤ)).symm ▸ hfound true
    | ok args =>
      refine ⟨trivial, fun a => ?_⟩
      have h : 0 ≤ (lookupsIn own name).charge ⟨c, s.ctx, .getTool toolName⟩ true +
          (0 + ((lookupsIn own name).charge ⟨c, s.ctx, .execute site toolName args⟩ a + 0)) := by
        rw [zero_add, add_zero]
        exact lookupsIn_found c s.ctx site toolName args a
      exact h

theorem findsIn_captureFrame (c : Scope) (s : Run) :
    FindsIn own name _ (Exec.captureFrame c s) := by
  refine ⟨trivial, fun found => ?_⟩
  cases found with
  | false => exact add_nonneg (lookupsIn_nonneg (q := ⟨c, s.ctx, .getTool _⟩) rfl false) le_rfl
  | true =>
    refine ⟨trivial, fun a => ?_⟩
    have h (rest : ℤ) (hrest : 0 ≤ rest) :
        0 ≤ (lookupsIn own name).charge ⟨c, s.ctx, .getTool "screenshot"⟩ true +
          ((lookupsIn own name).charge
            ⟨c, s.ctx, .execute .postActionCapture "screenshot" Dict.empty⟩ a + rest) := by
      rw [← add_assoc]
      exact add_nonneg (lookupsIn_found c s.ctx _ _ _ a) hrest
    cases a with
    | keyError | failed => exact h 0 le_rfl
    | ok capture =>
      refine ⟨trivial, fun text => h _ ?_⟩
      exact add_nonneg (lookupsIn_nonneg (q := ⟨c, s.ctx, .readFrame capture⟩) rfl text) le_rfl

/-! ### Runs -/

/-- A run finds a tool at least as often as it executes it, in any scopes. -/
instance inherited_findsIn : Inherited (FindsIn own name) where
  ret := .ret
  bind := .bind
  ask _ h := .ask h .ret
  gather := .gather
  callTool := findsIn_callTool
  captureFrame := findsIn_captureFrame

/-- **A tool that a run executes has been found**, in one of the scopes that are looked at if it
is executed in one of them. -/
theorem exists_found_of_executed_in (own : Scope → Bool) {e : Entry} {t : List (Event Step.Answer)}
    {r : Except Stop Unit × Run} (ht : (executeGraph e).Traced t r) {ev : Event Step.Answer}
    (hmem : ev ∈ t) (hown : own ev.1.scope = true) {site : ToolSite} {args : Dict}
    (hev : ev.1.call = .execute site name args) :
    ∃ ev ∈ t, own ev.1.scope = true ∧ ev.1.call.finds name ev.2 = true := by
  have hsum : 0 ≤ (t.map fun ev => (lookupsIn own name).charge ev.1 ev.2).sum :=
    ((inherited_executeGraph (K := FindsIn own name) e).traced ht).2
  have hexec : (lookupsIn own name).charge ev.1 ev.2 < 0 := by
    obtain ⟨⟨c, ctx, call⟩, a⟩ := ev
    obtain rfl : call = .execute site name args := hev
    change (if own c = true then (if name = name then -1 else 0 : ℤ) else 0) < 0
    rw [if_pos hown, if_pos rfl]
    decide
  by_contra hnone
  have hle : ∀ ev ∈ t, (lookupsIn own name).charge ev.1 ev.2 ≤ 0 := by
    intro ev hev
    simp only [lookupsIn]
    split_ifs with hscope
    · exact not_lt.mp fun hlt => hnone ⟨ev, hev, hscope, Call.finds_of_lookups_pos hlt⟩
    · exact le_rfl
  have hlt := List.sum_lt_sum _ (fun _ => (0 : ℤ)) hle ⟨ev, hmem, hexec⟩
  rw [List.map_const', List.sum_replicate, nsmul_zero] at hlt
  exact absurd hsum (not_le.mpr hlt)

/-- **A tool that a run executes has been found.** -/
theorem exists_found_of_executed {e : Entry} {t : List (Event Step.Answer)}
    {r : Except Stop Unit × Run} (ht : (executeGraph e).Traced t r) {ev : Event Step.Answer}
    (hmem : ev ∈ t) {site : ToolSite} {args : Dict} (hev : ev.1.call = .execute site name args) :
    ∃ ev ∈ t, ev.1.call.finds name ev.2 = true := by
  obtain ⟨ev', hev', -, hfound⟩ :=
    exists_found_of_executed_in (fun _ => true) ht hmem rfl hev
  exact ⟨ev', hev', hfound⟩

end AgentStudio.Execution

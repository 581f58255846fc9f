import AgentStudio.Execution.Runs

/-!
# The audit of an execution

What is watched along the runs of `executeGraph`. A question is `Lawful` if it calls no tool that
`plan_mode` forbids, the capture after a tool node apart, and if a run inside a run in `plan_mode`
starts in `plan_mode`. A question is charged what its LLM calls use, with what a budget is charged
beyond that (`Step.surplus`) and without what the budget records (`Step.recorded`).

An executor `Settles` if all its questions are lawful, if its charges come to the change of the
`balance`, the usage of the messages that the budget is still to record, and if the context
`Advances`. It `Reads` if it changes nothing. Each way to put executors together has a rule, and so
has each of the executors that do only one thing.
-/

namespace AgentStudio.Execution

open PyText PyJson PyDict AgentStudio.Graph Programs

/-! ### Tokens -/

/-- What several LLM calls count against a budget. -/
def totals (usages : List (Option Usage)) : ℤ := (usages.map totalOf).sum

/-- The tokens that the LLM calls behind a question use. -/
def Call.tokens : (call : Call) → call.Answer → ℤ
  | .chat _ _, a => totalOf a.usage
  | .artifactCompaction, a => totals ((a.map Compaction.usages).getD [])
  | .compact, a => totals a.usages
  | .createPlan, a => totalOf (a.bind Plan.usage)
  | .verify, a => totals ((a.map Verification.usages).getD [])
  | _, _ => 0

def ChatAnswer.accepted (stream : Bool) : ChatAnswer → Bool
  | .failed _ _ => false
  | .answered r => stream || r.checked.isOk

/-- What the budget of a run is charged with at a question, beyond the tokens of its LLM calls:
what the messages already count when the dispatch loop asks for an answer, less the calls that are
not stored, and less what is dropped before it is recorded. -/
def Call.surplus (hop : Hop) (messages : List Message) : (call : Call) → call.Answer → ℤ
  | .chat (.answer stream) _, a =>
    if hop = .dispatched ∧ a.accepted stream then spent messages else -totalOf a.usage
  | .chat (.streamFallback reported) _, .answered r =>
    if hop ≠ .dispatched then -totalOf r.usage
    else if r.usage.isSome then -totalOf reported
    else 0
  | .trimmed dropped, _ => if hop = .answered then -spent dropped else 0
  | .storeUsage usage, _ =>
    if hop = .answered then
      ((messages.getLast?.map fun m => usage.total - totalOf m.usage).getD 0)
    else 0
  | .leave, _ => if hop = .answered then -spent messages else 0
  | call, a => -call.tokens a

variable (B : BudgetRef)

/-- What a budget is charged with at a step, beyond the tokens of its LLM calls. -/
def Step.surplus (q : Step) (a : q.Answer) : ℤ :=
  if q.scope.budget = some B then q.call.surplus q.scope.hop q.ctx.messages a
  else -q.call.tokens a

def Step.recorded (q : Step) : ℤ :=
  match q.call with
  | .recordUsage budget usage => if budget = B then usage.total else 0
  | _ => 0

/-! ### The ledger -/

def Step.Lawful (q : Step) : Prop :=
  match q.call with
  | .execute .postActionCapture toolName _ => toolName = "screenshot"
  | .execute _ toolName _ => q.ctx.planMode = true → toolName ∈ planReadonlyTools
  | .start parent => parent = some true → q.ctx.planMode = true
  | _ => True

def audit : Ledger Step.Answer where
  grants := Step.Lawful
  charge q a := q.call.tokens a + q.surplus B a - q.recorded B

/-- A question that is lawful anyway, and whose charges come to nothing. -/
def Call.IsPlain : Call → Prop
  | .trimmed _ | .storeUsage _ | .leave | .chat (.answer _) _ | .chat (.streamFallback _) _
  | .recordUsage _ _ | .execute _ _ _ | .start _ => False
  | _ => True

variable {B}

theorem Call.IsPlain.lawful {q : Step} (h : q.call.IsPlain) : q.Lawful := by
  obtain ⟨c, ctx, call⟩ := q
  cases call <;> first | exact trivial | exact h.elim

theorem Call.IsPlain.charge {q : Step} (h : q.call.IsPlain) (a : q.Answer) :
    (audit B).charge q a = 0 := by
  obtain ⟨c, ctx, call⟩ := q
  have hsurplus : call.surplus c.hop ctx.messages a = -call.tokens a := by
    cases call <;> try rfl
    case chat site model => cases site <;> first | rfl | exact h.elim
    all_goals exact h.elim
  have hrecorded : Step.recorded B ⟨c, ctx, call⟩ = 0 := by
    cases call <;> first | rfl | exact h.elim
  simp only [audit, Step.surplus, hsurplus, hrecorded, ite_self]
  ring

theorem charge_of_answered {c : Scope} {ctx : AgentContext} {call : Call} {a : call.Answer} {n : ℤ}
    (htokens : call.tokens a = 0) (hrecorded : Step.recorded B ⟨c, ctx, call⟩ = 0)
    (hsurplus : call.surplus c.hop ctx.messages a = if c.hop = .answered then n else 0) :
    (audit B).charge ⟨c, ctx, call⟩ a =
      if c.budget = some B ∧ c.hop = .answered then n else 0 := by
  simp only [audit, Step.surplus, htokens, hrecorded, hsurplus, neg_zero, zero_add, sub_zero,
    ite_and]

/-! ### The context -/

/-- How a context changes in a run. -/
structure Advances (ctx ctx' : AgentContext) : Prop where
  maxIterations : ctx'.maxIterations = ctx.maxIterations
  iterationCount : ctx.iterationCount ≤ ctx'.iterationCount
  planMode : ctx'.planMode = true → ctx.planMode = true

theorem Advances.refl (ctx : AgentContext) : Advances ctx ctx := ⟨rfl, le_rfl, id⟩

theorem Advances.trans {ctx ctx' ctx'' : AgentContext} (h : Advances ctx ctx')
    (h' : Advances ctx' ctx'') : Advances ctx ctx'' :=
  ⟨h'.maxIterations.trans h.maxIterations, h.iterationCount.trans h'.iterationCount,
    fun hplan => h.planMode (h'.planMode hplan)⟩

/-- What the messages count that the budget is still to record. -/
def balance (B : BudgetRef) (c : Scope) (ctx : AgentContext) : ℤ :=
  if c.budget = some B ∧ c.hop = .answered then spent ctx.messages else 0

/-- What is counted for the budget of a run, and for no other. -/
def owned (B : BudgetRef) (c : Scope) (n : ℤ) : ℤ := if c.budget = some B then n else 0

theorem owned_add (c : Scope) (n m : ℤ) : owned B c n + owned B c m = owned B c (n + m) := by
  unfold owned
  split_ifs
  · rfl
  · exact add_zero 0

def owed (B : BudgetRef) (c : Scope) (usage : Option Usage) : ℤ :=
  if c.budget = some B ∧ c.hop = .answered then totalOf usage else 0

theorem balance_of_ne {c : Scope} (h : c.hop ≠ .answered) (ctx : AgentContext) :
    balance B c ctx = 0 := if_neg fun h' => h h'.2

theorem balance_congr {c : Scope} {ctx ctx' : AgentContext}
    (h : spent ctx.messages = spent ctx'.messages) : balance B c ctx = balance B c ctx' := by
  rw [balance, balance, h]

/-! ### Executors that settle -/

variable {α β : Type} {H : Hop → Prop} {P P' : Prop}

/-- The executor changes nothing, and its questions are lawful and charged nothing, if it runs on
behalf of one of some things and `plan_mode` is off unless a condition is met. -/
def Reads (B : BudgetRef) (H : Hop → Prop) (P : Prop) (x : Exec α) : Prop :=
  ∀ c s, H c.hop → (s.ctx.planMode = true → P) → (x c s).Free (audit B) fun r => r.2 = s

/-- The questions of the executor are lawful, its charges come to the change of the balance, and
the context advances. -/
def Settles (B : BudgetRef) (H : Hop → Prop) (P : Prop) (x : Exec α) : Prop :=
  ∀ c s, H c.hop → (s.ctx.planMode = true → P) → (x c s).Meets (audit B) fun n r =>
    n = balance B c r.2.ctx - balance B c s.ctx ∧ Advances s.ctx r.2.ctx

theorem bind_apply (x : Exec α) (f : α → Exec β) (c : Scope) (s : Run) :
    (x >>= f) c s = (x c s).bind fun
      | (.ok a, s') => f a c s'
      | (.error e, s') => .ret (.error e, s') := rfl

namespace Reads

theorem settles {x : Exec α} (h : Reads B H P x) : Settles B H P x := fun c s hhop hplan =>
  (h c s hhop hplan).mono fun _ _ ⟨hn, hr⟩ => by
    rw [hn, hr, sub_self]
    exact ⟨rfl, .refl _⟩

theorem pure (a : α) : Reads B H P (Pure.pure a : Exec α) := fun _ _ _ _ => ⟨rfl, rfl⟩

theorem scope : Reads B H P Exec.scope := fun _ _ _ _ => ⟨rfl, rfl⟩

theorem ctx : Reads B H P Exec.ctx := fun _ _ _ _ => ⟨rfl, rfl⟩

theorem stop (e : Stop) : Reads B H P (Exec.stop e : Exec α) := fun _ _ _ _ => ⟨rfl, rfl⟩

theorem bind {x : Exec α} {f : α → Exec β} (hx : Reads B H P x) (hf : ∀ a, Reads B H P (f a)) :
    Reads B H P (x >>= f) := by
  intro c s hhop hplan
  rw [bind_apply]
  refine Program.meets_bind.mpr ((hx c s hhop hplan).mono ?_)
  rintro _ ⟨r, s'⟩ ⟨rfl, hs'⟩
  obtain rfl : s' = s := hs'
  cases r with
  | ok a => exact (hf a c s' hhop hplan).mono fun n r ⟨hn, hr⟩ => ⟨(zero_add n).trans hn, hr⟩
  | error e => exact ⟨zero_add 0, rfl⟩

theorem ask_of {call : Call} (hlawful : ∀ c ctx, H c.hop → (ctx.planMode = true → P) →
      Step.Lawful ⟨c, ctx, call⟩)
    (hcharge : ∀ c ctx a, H c.hop → (audit B).charge ⟨c, ctx, call⟩ a = 0) :
    Reads B H P (Exec.ask call) := fun c s hhop hplan =>
  ⟨hlawful c s.ctx hhop hplan, fun a => ⟨by rw [hcharge c s.ctx a hhop, zero_add], rfl⟩⟩

theorem ask {call : Call} (h : call.IsPlain) : Reads B H P (Exec.ask call) :=
  ask_of (fun _ _ _ _ => Call.IsPlain.lawful h) fun _ _ a _ => Call.IsPlain.charge h a

theorem vars : Reads B H P Exec.vars := .bind .ctx fun _ => .bind .scope fun _ => .pure _

theorem policy : Reads B H P Exec.policy := .bind .ctx fun _ => .bind .scope fun _ => .pure _

theorem ite {p : Prop} [Decidable p] {x y : Exec α} (hx : p → Reads B H P x)
    (hy : ¬p → Reads B H P y) : Reads B H P (if p then x else y) := by
  split_ifs with h
  · exact hx h
  · exact hy h

theorem gatherAll {xs : List (Exec α)} (h : ∀ x ∈ xs, Reads B H P x) :
    Reads B H P (Exec.gatherAll xs) := by
  intro c s hhop hplan
  have hturn : (audit B).grants ⟨c, s.ctx, .schedule⟩ ∧
      ∀ a, (audit B).charge ⟨c, s.ctx, .schedule⟩ a = 0 :=
    ⟨trivial, fun a => Call.IsPlain.charge (q := ⟨c, s.ctx, .schedule⟩) trivial a⟩
  refine Program.meets_bind.mpr ((Program.Free.gather (P := fun _ => True) hturn ?_).mono ?_)
  · intro p hp
    obtain ⟨x, hx, rfl⟩ := List.mem_map.mp hp
    exact Program.meets_map.mpr ((h x hx c s hhop hplan).mono fun _ _ hr => ⟨hr.1, trivial⟩)
  · rintro _ rs ⟨rfl, -⟩
    exact ⟨zero_add 0, rfl⟩

end Reads

namespace Settles

theorem pure (a : α) : Settles B H P (Pure.pure a : Exec α) := (Reads.pure a).settles

theorem stop (e : Stop) : Settles B H P (Exec.stop e : Exec α) := (Reads.stop e).settles

theorem ask {call : Call} (h : call.IsPlain) : Settles B H P (Exec.ask call) :=
  (Reads.ask h).settles

theorem bind {x : Exec α} {f : α → Exec β} (hx : Settles B H P x)
    (hf : ∀ a, Settles B H P (f a)) : Settles B H P (x >>= f) := by
  intro c s hhop hplan
  rw [bind_apply]
  refine Program.meets_bind.mpr ((hx c s hhop hplan).mono ?_)
  rintro n ⟨r, s'⟩ ⟨rfl, hadv⟩
  cases r with
  | ok a =>
    refine (hf a c s' hhop fun hs' => hplan (hadv.planMode hs')).mono ?_
    rintro m ⟨r, s''⟩ ⟨rfl, hadv'⟩
    exact ⟨by ring, hadv.trans hadv'⟩
  | error e => exact ⟨add_zero _, hadv⟩

theorem bind_reads {x : Exec α} {f : α → Exec β} (hx : Reads B H P x)
    (hf : ∀ a, Settles B H P (f a)) : Settles B H P (x >>= f) := .bind hx.settles hf

theorem ctx {f : AgentContext → Exec α}
    (h : ∀ ctx, Settles B H (P ∧ ctx.planMode = true) (f ctx)) :
    Settles B H P (Exec.ctx >>= f) := fun c s hhop hplan =>
  h s.ctx c s hhop fun hs => ⟨hplan hs, hs⟩

theorem modify {f : AgentContext → AgentContext}
    (hmessages : ∀ ctx, (f ctx).messages = ctx.messages)
    (hadv : ∀ ctx, Advances ctx (f ctx)) : Settles B H P (Exec.modify f) := fun c s _ _ =>
  ⟨by rw [balance_congr (congrArg spent (hmessages s.ctx)), sub_self], hadv s.ctx⟩

theorem modify_messages {f : List Message → List Message}
    (h : ∀ ms, spent (f ms) = spent ms) :
    Settles B H P (Exec.modify fun ctx => { ctx with messages := f ctx.messages }) :=
  fun c s _ _ => ⟨by rw [balance_congr (h s.ctx.messages), sub_self], ⟨rfl, le_rfl, id⟩⟩

theorem body {x : Exec Unit} (h : Settles B H P x) : Settles B H P (Exec.body x) := by
  intro c s hhop hplan
  refine Program.meets_bind.mpr ((h c s hhop hplan).mono ?_)
  rintro n ⟨r, s'⟩ ⟨hn, hadv⟩
  rcases r with e | a
  · cases e <;> exact ⟨(add_zero n).trans hn, hadv⟩
  · exact ⟨(add_zero n).trans hn, hadv⟩

theorem consumed {x : Exec α} (h : Settles B H P x) : Settles B H P (Exec.consumed x) :=
  fun c s hhop hplan => h { c with errorStops := some (c.errorStops.getD 0) } s hhop hplan

theorem onBehalf {hop : Hop} {x : Exec α} (hhop : hop ≠ .answered)
    (hH : ∀ hop', H hop' → hop' ≠ .answered) (h : Settles B (· = hop) P x) :
    Settles B H P (Exec.onBehalf hop x) := fun c s hc hplan =>
  (h { c with hop } s rfl hplan).mono fun n r ⟨hn, hadv⟩ => by
    rw [balance_of_ne (hH _ hc), balance_of_ne (hH _ hc)]
    rw [balance_of_ne hhop, balance_of_ne hhop] at hn
    exact ⟨hn, hadv⟩

/-! ### What executors do -/

theorem absorb (events : List AgentEvent) : Settles B H P (Exec.absorb events) :=
  fun _ _ _ _ => ⟨(sub_self _).symm, .refl _⟩

theorem emit (e : AgentEvent) : Settles B H P (Exec.emit e) := by
  refine .bind (.ask trivial) fun _ => .bind (.absorb [e]) fun _ => ?_
  split_ifs
  · refine .bind_reads .scope fun c => ?_
    cases c.errorStops with
    | none => exact .pure _
    | some runs => exact .stop _
  · exact .pure _

theorem addMessage_meets (m : Message) (c : Scope) (s : Run) :
    (Exec.addMessage m c s).Meets (audit B) fun n r =>
      n = balance B c r.2.ctx - balance B c s.ctx - owed B c m.usage ∧
        Advances s.ctx r.2.ctx := by
  have hspent := spent_trim c.rt.process.contextMaxMessages (s.ctx.messages ++ [m])
  rw [spent_append, spent_singleton] at hspent
  have hadv (messages : List Message) : Advances s.ctx { s.ctx with messages } :=
    ⟨rfl, le_rfl, id⟩
  simp only [Exec.addMessage, bind_apply, Exec.scope, Exec.ctx, Program.bind]
  by_cases hdropped : (trim c.rt.process.contextMaxMessages (s.ctx.messages ++ [m])).2 = []
  · rw [if_neg (not_not_intro hdropped)]
    refine ⟨?_, hadv _⟩
    rw [hdropped, spent_nil, add_zero] at hspent
    by_cases hown : c.budget = some B ∧ c.hop = .answered
    · simp only [balance, owed, if_pos hown, hspent]
      ring
    · simp only [balance, owed, if_neg hown, sub_zero]
  · rw [if_pos hdropped]
    refine ⟨trivial, fun a => ⟨?_, hadv _⟩⟩
    rw [charge_of_answered rfl rfl rfl]
    by_cases hown : c.budget = some B ∧ c.hop = .answered
    · simp only [balance, owed, if_pos hown]
      omega
    · simp only [balance, owed, if_neg hown, sub_zero, add_zero]

theorem addMessage {m : Message} (h : m.usage = none) : Settles B H P (Exec.addMessage m) :=
  fun c s _ _ => (addMessage_meets m c s).mono fun n r hr => by
    simpa only [h, owed, totalOf_none, ite_self, sub_zero] using hr

end Settles

end AgentStudio.Execution

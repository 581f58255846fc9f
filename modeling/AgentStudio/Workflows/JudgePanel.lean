import AgentStudio.Workflows.Engine

/-!
# Judge panels

A judge panel of `agent_runtime/workflow_engine.py` asks a judge which of several approaches is the
best, in JSON. The answer of the judge is a text of a model, and may be anything.

`Decides` says that the panel ends with one of the approaches and its index. It does so if and only
if the answer of the judge is no JSON at all, or is a dictionary whose winner, if it has one, is an
index from zero on, or a floating-point number beyond the last index (`Readable`, `decides_iff`).
-/

namespace AgentStudio.Workflows

open PyText

/-! ### The property -/

/-- The panel ends with one of the approaches, and its index. -/
def Decides (approaches : List (Str × Str)) (judgeOutput : Str) (r : Except Str Result) : Prop :=
  ∃ (winner : ℕ) (a : Str × Str), approaches[winner]? = some a ∧
    r = .ok { output := a.2, detail := .judge approaches winner judgeOutput }

/-! ### The condition -/

/-- A winner that the panel finds: an index from zero on, or a number after the last index. -/
def Loaded.Usable (last : ℤ) : Loaded → Prop
  | .bool _ => True
  | .int i => 0 ≤ i
  | .float below => below last = true
  | _ => False

/-- An answer of the judge that the panel makes something of. -/
def Readable (last : ℤ) : Except LoadError Loaded → Prop
  | .error (.caught _) => True
  | .ok (.obj members) => ∀ v, members.lookup "winner".toList = some v → v.Usable last
  | _ => False

variable {env : Env}

/-! ### Indices -/

variable {approaches : List (Str × Str)}

theorem approachAt_natCast {winner : ℕ} {a : Str × Str} (h : approaches[winner]? = some a) :
    approachAt approaches (.int winner) = .ok ((winner : ℤ), a) := by
  have hnot : ¬ ((winner : ℤ) < 0) := by omega
  rw [approachAt, if_neg hnot, if_neg hnot, Int.toNat_natCast, h]
  rfl

theorem of_approachAt {index : Index} {found : ℤ × Str × Str}
    (h : approachAt approaches index = .ok found) : index = .int found.1 := by
  cases index with
  | float below => cases h
  | int i =>
    rw [approachAt] at h
    split_ifs at h <;>
      · cases hat : approaches[(_ : ℤ).toNat]? with
        | none => rw [hat] at h; cases h
        | some a =>
          rw [hat] at h
          obtain rfl := Except.ok.inj h
          rfl

theorem min_int_iff {i last : ℤ} (hlast : 0 ≤ last) :
    (∃ winner, (Index.int i).min last = .int winner ∧ 0 ≤ winner) ↔ 0 ≤ i := by
  rw [Index.min]
  split_ifs with hlt
  · simp only [Index.int.injEq, exists_eq_left']
    omega
  · simp only [Index.int.injEq, exists_eq_left']

theorem min_float_iff {below : ℤ → Bool} {last : ℤ} (hlast : 0 ≤ last) :
    (∃ winner, (Index.float below).min last = .int winner ∧ 0 ≤ winner) ↔
      below last = true := by
  rw [Index.min]
  split_ifs with hlt
  · simp [hlt, hlast]
  · simp [hlt]

theorem usable_iff {v : Loaded} {last : ℤ} (hlast : 0 ≤ last) :
    v.Usable last ↔ ∃ index, v.index = some index ∧
      ∃ winner, index.min last = .int winner ∧ 0 ≤ winner := by
  cases v with
  | bool b =>
    simp only [Loaded.index, Option.some.injEq, exists_eq_left', min_int_iff hlast]
    cases b <;> simp [Loaded.Usable]
  | int i => simp only [Loaded.index, Option.some.injEq, exists_eq_left', min_int_iff hlast]; rfl
  | float below =>
    simp only [Loaded.index, Option.some.injEq, exists_eq_left', min_float_iff hlast]
    rfl
  | null | str | arr | obj => simp [Loaded.Usable, Loaded.index]

/-! ### Panels -/

theorem decides_of_winnerOf_iff {judgeOutput : Str} {v : Loaded} (hne : approaches ≠ [])
    (h : winnerOf env judgeOutput = .ok v) :
    Decides approaches judgeOutput (pickWinner env approaches judgeOutput) ↔
      v.Usable (approaches.length - 1) := by
  have hpos : 0 < approaches.length := List.length_pos_of_ne_nil hne
  have hlast : (0 : ℤ) ≤ approaches.length - 1 := by omega
  rw [usable_iff hlast]
  simp only [pickWinner, h, bind, Except.bind, pure, Except.pure]
  constructor
  · rintro ⟨winner, a, -, hr⟩
    cases hindex : v.index with
    | none => rw [hindex] at hr; cases hr
    | some index =>
      rw [hindex] at hr
      dsimp only at hr
      cases hfound : approachAt approaches (index.min (approaches.length - 1)) with
      | error e => rw [hfound] at hr; cases hr
      | ok found =>
        rw [hfound] at hr
        have hwinner : found.1 = winner := by
          have hdetail := congrArg Result.detail (Except.ok.inj hr)
          simpa using hdetail
        exact ⟨index, rfl, found.1, of_approachAt hfound, by omega⟩
  · rintro ⟨index, hindex, i, hmin, hi⟩
    obtain ⟨winner, rfl⟩ := Int.eq_ofNat_of_zero_le hi
    have hle : (winner : ℤ) ≤ approaches.length - 1 := by
      cases index with
      | int j =>
        rw [Index.min] at hmin
        split_ifs at hmin
        · have hj := Index.int.inj hmin
          omega
        · have hj := Index.int.inj hmin
          omega
      | float below => rw [Index.min] at hmin; split_ifs at hmin; exact (Index.int.inj hmin).ge
    have hget : approaches[winner]? = some approaches[winner] :=
      List.getElem?_eq_getElem (by omega)
    refine ⟨winner, approaches[winner], hget, ?_⟩
    rw [hindex]
    dsimp only
    rw [hmin, approachAt_natCast hget]

/-- **Winners.** A panel picks one of its approaches if and only if the answer of its judge is
readable. -/
theorem decides_pickWinner_iff (hne : approaches ≠ []) (judgeOutput : Str) :
    Decides approaches judgeOutput (pickWinner env approaches judgeOutput) ↔
      Readable (approaches.length - 1) (env.loads judgeOutput) := by
  have hraises {e : Str} (h : winnerOf env judgeOutput = .error e) :
      ¬ Decides approaches judgeOutput (pickWinner env approaches judgeOutput) := by
    rintro ⟨winner, a, -, hr⟩
    rw [pickWinner, h] at hr
    cases hr
  cases hloads : env.loads judgeOutput with
  | error e =>
    cases e with
    | caught text =>
      have hwinner : winnerOf env judgeOutput = .ok (.int 0) := by rw [winnerOf, hloads]
      rw [decides_of_winnerOf_iff hne hwinner]
      exact iff_of_true (le_refl (0 : ℤ)) trivial
    | other text =>
      have hwinner : winnerOf env judgeOutput = .error text := by rw [winnerOf, hloads]
      exact iff_of_false (hraises hwinner) id
  | ok v =>
    cases v with
    | obj members =>
      have hwinner : winnerOf env judgeOutput =
          .ok ((members.lookup "winner".toList).getD (.int 0)) := by rw [winnerOf, hloads]
      rw [decides_of_winnerOf_iff hne hwinner, Readable]
      cases members.lookup "winner".toList with
      | none => exact iff_of_true (le_refl (0 : ℤ)) fun v hv => absurd hv (by simp)
      | some v => simp
    | _ =>
      obtain ⟨e, he⟩ : ∃ e, winnerOf env judgeOutput = .error e :=
        ⟨_, by rw [winnerOf, hloads]⟩
      exact iff_of_false (hraises he) id

/-- The approaches of a panel have been run, and its judge has answered. -/
structure Judged (env : Env) (phase : Phase) (input : Str) (n : ℕ)
    (approaches : List (Str × Str)) (judgeOutput : Str) : Prop where
  nonempty : approaches ≠ []
  ran : (runApproaches env input phase.agentConfigs n).1 = .ok approaches
  answered : (runAgent env (phase.config.judgeAgent.getD (phase.agentConfigs.headD []))
    (scoringPrompt approaches) none
      (n + (runApproaches env input phase.agentConfigs n).2.length)).1 = .ok judgeOutput

/-- **Judge panels.** Whatever its judge answers, a panel completes with one of its approaches and
the index of this if and only if the answer is readable. -/
theorem decides_iff {phase : Phase} {input : Str} {n : ℕ} {approaches : List (Str × Str)}
    {judgeOutput : Str} (h : Judged env phase input n approaches judgeOutput) :
    Decides approaches judgeOutput (execJudgePanel env phase input n).1 ↔
      Readable (approaches.length - 1) (env.loads judgeOutput) := by
  rw [← decides_pickWinner_iff h.nonempty]
  obtain ⟨first, rest, hconfigs⟩ : ∃ first rest, phase.agentConfigs = first :: rest := by
    refine List.exists_cons_of_ne_nil fun hnil => h.nonempty ?_
    have hran := h.ran
    rw [hnil] at hran
    exact (Except.ok.inj hran).symm
  have hanswered := h.answered
  have hran := h.ran
  rcases hrun : runApproaches env input phase.agentConfigs n with ⟨r, tr⟩
  rw [hrun] at hran hanswered
  obtain rfl : r = .ok approaches := hran
  rw [hconfigs, List.headD_cons] at hanswered
  rcases hanswer : runAgent env (phase.config.judgeAgent.getD first) (scoringPrompt approaches) none
    (n + tr.length) with ⟨r, acc, trs⟩
  rw [hanswer] at hanswered
  obtain rfl : r = .ok judgeOutput := hanswered
  rw [execJudgePanel, hconfigs]
  dsimp only
  rw [← hconfigs, hrun]
  dsimp only
  rw [hanswer]

/-! ### A judge that answers with a list -/

/-- Agents that all answer with the same text; as JSON, it is a list. -/
def listing (answer : Str) : Env where
  backend := true
  answer _ _ _ := ⟨.ok answer, 1, 1⟩
  loads s := if s = answer then .ok .arr else .error (.caught [])
  maxBranches := 32
  cancelled _ := false
  interrupted _ := false

def panel : Phase := ⟨"judge", .judgePanel, [[("name", "agent")]], {}⟩

theorem judged_panel (answer : Str) :
    Judged (listing answer) panel [] 0 [("agent", answer)] answer :=
  ⟨List.cons_ne_nil _ _, rfl, rfl⟩

theorem decides_panel :
    Decides [("agent".toList, "[0]".toList)] "[0]".toList
      (execJudgePanel (listing "[0]".toList) panel [] 0).1 ↔
        Readable (([("agent".toList, "[0]".toList)] : List (Str × Str)).length - 1)
          ((listing "[0]".toList).loads "[0]".toList) :=
  decides_iff (judged_panel "[0]")

/-- A panel raises an exception if its judge answers `[0]`. -/
theorem not_decides : ¬ ∀ (env : Env) (phase : Phase) (input : Str) (n : ℕ)
    (approaches : List (Str × Str)) (judgeOutput : Str),
    Judged env phase input n approaches judgeOutput →
      Decides approaches judgeOutput (execJudgePanel env phase input n).1 := by
  intro h
  obtain ⟨winner, a, -, hr⟩ := h _ _ _ _ _ _ (judged_panel "[0]")
  cases hr

end AgentStudio.Workflows

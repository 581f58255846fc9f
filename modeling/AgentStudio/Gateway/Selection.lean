import AgentStudio.Gateway.Chat

/-!
# What the gateway selects

What `route`, `resolveTarget` and `getFallbackChain` answer, and what they leave. All three ask
the breaker, and what that leaves is a gateway whose circuits have `Rested`: no answer at this
time changes. A `Candidate` of `route` is a registered model whose circuit is closed, and
`Selects`, `Resolves` and `FirstOther` say where an answer comes from if not from a candidate.
-/

namespace AgentStudio.Gateway

open PyText PyDict

variable {now : ℚ}

namespace LLMGateway

/-- A gateway that differs by circuits that have rested. -/
def Rested (now : ℚ) (g g' : LLMGateway) : Prop :=
  ∃ cb, g' = { g with cb } ∧ g.cb.Rested now cb

theorem Rested.refl (g : LLMGateway) : Rested now g g := ⟨g.cb, rfl, .refl _⟩

variable {g g' : LLMGateway} {want : ModelConfig → Bool}

theorem Rested.trans {g₁ g₂ : LLMGateway} (h₁ : Rested now g g₁) (h₂ : Rested now g₁ g₂) :
    Rested now g g₂ := by
  obtain ⟨cb₁, rfl, h₁⟩ := h₁
  obtain ⟨cb₂, rfl, h₂⟩ := h₂
  exact ⟨cb₂, rfl, h₁.trans h₂⟩

theorem Rested.kept (h : Rested now g g') (hg : g.cb.Kept) : g'.cb.Kept := by
  obtain ⟨cb, rfl, hcb⟩ := h
  exact hcb.kept hg

/-- A model that `route` may select: it is registered, its circuit is closed, it is wanted. -/
def Candidate (g : LLMGateway) (want : ModelConfig → Bool) (now : ℚ) (m : ModelConfig) : Prop :=
  m ∈ g.models.map Prod.snd ∧ g.cb.tripped m.name now = false ∧ want m = true

theorem candidates_spec (want : ModelConfig → Bool) (ms : List ModelConfig)
    (cb : ModelCircuitBreaker) :
    (candidates now want ms cb).1 = ms.filter (fun m => !cb.tripped m.name now && want m) ∧
      cb.Rested now (candidates now want ms cb).2 := by
  induction ms generalizing cb with
  | nil => exact ⟨rfl, .refl cb⟩
  | cons m ms ih =>
    obtain ⟨hfound, hrested⟩ := ih (cb.isOpen m.name now).2
    have hfirst : cb.Rested now (cb.isOpen m.name now).2 := ModelCircuitBreaker.rested_isOpen
    refine ⟨?_, hfirst.trans hrested⟩
    rw [candidates, List.filter_cons, ← @ModelCircuitBreaker.isOpen_fst cb]
    simp only [hfound, hfirst.tripped]

/-- What `route` selects. -/
inductive Selects (g : LLMGateway) (want : ModelConfig → Bool) (exclude : List Str) (now : ℚ) :
    Option ModelConfig → Prop
  /-- A candidate. -/
  | candidate {m} (h : g.Candidate want now m) : Selects g want exclude now (some m)
  /-- Without a candidate, the default model. -/
  | fromDefault (hnone : ∀ m, ¬ g.Candidate want now m) (hset : g.defaultModel ≠ [])
      (hfresh : g.defaultModel ∉ exclude) : Selects g want exclude now (some g.defaultConfig)
  /-- Without a candidate and a default model, nothing. -/
  | nothing (hnone : ∀ m, ¬ g.Candidate want now m)
      (hdefault : g.defaultModel = [] ∨ g.defaultModel ∈ exclude) : Selects g want exclude now none

theorem route_spec (capability : Str) (minContext : ℤ) (exclude : List Str) (g : LLMGateway) :
    Selects g (wants capability minContext exclude) exclude now
        (g.route capability minContext exclude now).1 ∧
      Rested now g (g.route capability minContext exclude now).2 := by
  obtain ⟨hfound, hrested⟩ := @candidates_spec now
    (wants capability minContext exclude) (g.models.map Prod.snd) g.cb
  have hmem : ∀ m, m ∈ (candidates now (wants capability minContext exclude)
      (g.models.map Prod.snd) g.cb).1.insertionSort Preferred ↔
      g.Candidate (wants capability minContext exclude) now m := fun m => by
    rw [List.mem_insertionSort, hfound, List.mem_filter, Candidate, Bool.and_eq_true,
      Bool.not_eq_true']
  rw [route]
  dsimp only
  cases hsort : (candidates now (wants capability minContext exclude)
      (g.models.map Prod.snd) g.cb).1.insertionSort Preferred with
  | cons m ms =>
    exact ⟨.candidate ((hmem m).mp (hsort ▸ List.mem_cons_self)), _, rfl, hrested⟩
  | nil =>
    have hnone : ∀ m, ¬ g.Candidate (wants capability minContext exclude) now m := fun m h =>
      List.not_mem_nil (hsort ▸ (hmem m).mpr h)
    dsimp only
    split_ifs with hdefault
    · exact ⟨.fromDefault hnone hdefault.1 hdefault.2, _, rfl, hrested⟩
    · refine ⟨.nothing hnone ?_, _, rfl, hrested⟩
      by_contra h
      rw [not_or] at h
      exact hdefault h

/-- What `resolveTarget` selects. -/
inductive Resolves (g : LLMGateway) (model capability : Str) (now : ℚ) :
    Option ModelConfig → Prop
  /-- The model that was named, if its circuit is closed. -/
  | named {config} (h : g.named model = some config)
    (hclosed : g.cb.tripped config.name now = false) : Resolves g model capability now (some config)
  /-- Another name is passed on to the default client. -/
  | passedOn
    (hopen : ∀ config, g.named model = some config → g.cb.tripped config.name now = true)
    (hpass : model ≠ [] ∧ model ≠ "default" ∧ g.defaultClient.isSome) :
    Resolves g model capability now none
  /-- What `route` selects. -/
  | routed {answer}
    (hopen : ∀ config, g.named model = some config → g.cb.tripped config.name now = true)
    (hpass : ¬ (model ≠ [] ∧ model ≠ "default" ∧ g.defaultClient.isSome))
    (hselects : Selects g (wants capability 0 []) [] now answer) :
    Resolves g model capability now answer

theorem Rested.candidate_iff (h : Rested now g g') {m : ModelConfig} :
    g'.Candidate want now m ↔ g.Candidate want now m := by
  obtain ⟨cb, rfl, hcb⟩ := h
  rw [Candidate, Candidate, hcb.tripped]

theorem candidate_exclude {capability : Str} {minContext : ℤ} {t : Str} {m : ModelConfig} :
    g.Candidate (wants capability minContext [t]) now m ↔
      g.Candidate (wants capability minContext []) now m ∧ m.name ≠ t := by
  simp only [Candidate, wants, List.not_mem_nil, List.mem_singleton, not_false_eq_true, and_true,
    decide_eq_true_eq, and_assoc, ne_eq]

/-- The first model of a fallback chain whose name is not that of the target. -/
inductive FirstOther (g : LLMGateway) (want : ModelConfig → Bool) (t : Str) (now : ℚ) :
    Option ModelConfig → Prop
  | candidate {m} (h : g.Candidate want now m) (hother : m.name ≠ t) :
    FirstOther g want t now (some m)
  | fromDefault (hnone : ∀ m, g.Candidate want now m → m.name = t) (hset : g.defaultModel ≠ [])
      (hother : g.defaultModel ≠ t) : FirstOther g want t now (some g.defaultConfig)
  | nothing (hnone : ∀ m, g.Candidate want now m → m.name = t)
      (hdefault : g.defaultModel = [] ∨ g.defaultModel = t) : FirstOther g want t now none

theorem Rested.firstOther (h : Rested now g g') {t : Str} {answer : Option ModelConfig}
    (hfirst : FirstOther g' want t now answer) : FirstOther g want t now answer := by
  have hcandidate : ∀ m, g'.Candidate want now m ↔ g.Candidate want now m :=
    fun _ => h.candidate_iff
  obtain ⟨cb, rfl, -⟩ := h
  cases hfirst with
  | candidate hm hother => exact .candidate ((hcandidate _).mp hm) hother
  | fromDefault hnone hset hother =>
    exact .fromDefault (fun m hm => hnone m ((hcandidate m).mpr hm)) hset hother
  | nothing hnone hdefault => exact .nothing (fun m hm => hnone m ((hcandidate m).mpr hm)) hdefault

theorem Rested.selects (h : Rested now g g') {exclude : List Str} {answer : Option ModelConfig}
    (hselects : Selects g' want exclude now answer) : Selects g want exclude now answer := by
  have hcandidate : ∀ m, g'.Candidate want now m ↔ g.Candidate want now m :=
    fun _ => h.candidate_iff
  obtain ⟨cb, rfl, -⟩ := h
  cases hselects with
  | candidate hm => exact .candidate ((hcandidate _).mp hm)
  | fromDefault hnone hset hfresh =>
    exact .fromDefault (fun m hm => hnone m ((hcandidate m).mpr hm)) hset hfresh
  | nothing hnone hdefault => exact .nothing (fun m hm => hnone m ((hcandidate m).mpr hm)) hdefault

theorem resolveTarget_spec (model capability : Str) (g : LLMGateway) :
    Resolves g model capability now (g.resolveTarget model capability now).1 ∧
      Rested now g (g.resolveTarget model capability now).2 := by
  rw [resolveTarget]
  cases hnamed : g.named model with
  | none =>
    have hopen : ∀ config, g.named model = some config → g.cb.tripped config.name now = true :=
      fun config h => absurd (hnamed.symm.trans h) (by simp)
    dsimp only
    split_ifs with hpass
    · exact ⟨.passedOn hopen hpass, .refl g⟩
    · obtain ⟨hselects, hrested⟩ := @route_spec now capability 0 [] g
      exact ⟨.routed hopen hpass hselects, hrested⟩
  | some config =>
    have hasked : Rested now g { g with cb := (g.cb.isOpen config.name now).2 } :=
      ⟨_, rfl, ModelCircuitBreaker.rested_isOpen⟩
    dsimp only
    rw [ModelCircuitBreaker.isOpen_fst]
    cases hopen : g.cb.tripped config.name now with
    | false => exact ⟨.named hnamed hopen, hasked⟩
    | true =>
      have hopen' : ∀ config, g.named model = some config →
          g.cb.tripped config.name now = true := fun config' h => by
        rw [← Option.some.inj (hnamed.symm.trans h), hopen]
      rw [if_pos rfl]
      split_ifs with hpass
      · exact ⟨.passedOn hopen' hpass, hasked⟩
      · obtain ⟨hselects, hrested⟩ := @route_spec now capability 0 []
          { g with cb := (g.cb.isOpen config.name now).2 }
        exact ⟨.routed hopen' hpass (hasked.selects hselects), hasked.trans hrested⟩

theorem rested_extendChain (capability : Str) (minContext : ℤ) (n : ℕ) (exclude : List Str)
    (g : LLMGateway) : Rested now g (extendChain capability minContext now n exclude g).2 := by
  induction n generalizing exclude g with
  | zero => exact .refl g
  | succ n ih =>
    have hroute := (@route_spec now capability minContext exclude g).2
    rw [extendChain]
    rcases hr : g.route capability minContext exclude now with ⟨_ | m, g'⟩
    · rw [hr] at hroute
      exact hroute
    · rw [hr] at hroute
      exact hroute.trans (ih (m.name :: exclude) g')

theorem find?_other {t : Str} {m : ModelConfig} (h : m.name ≠ t)
    (chain : List ModelConfig) : (m :: chain).find? (·.name ≠ t) = some m :=
  List.find?_cons_of_pos (decide_eq_true h)

private theorem extendChain_exclude (capability : Str) (minContext : ℤ) (n : ℕ) (t : Str)
    (g : LLMGateway) : FirstOther g (wants capability minContext []) t now
      ((extendChain capability minContext now (n + 1) [t] g).1.find? (·.name ≠ t)) := by
  have hroute := (@route_spec now capability minContext [t] g).1
  rw [extendChain]
  rcases hr : g.route capability minContext [t] now with ⟨answer, g'⟩
  rw [hr] at hroute
  cases hroute with
  | candidate h =>
    obtain ⟨hcandidate, hother⟩ := candidate_exclude.mp h
    dsimp only
    rw [find?_other hother]
    exact .candidate hcandidate hother
  | fromDefault hnone hset hfresh =>
    have hother : g.defaultModel ≠ t := fun h => hfresh (List.mem_singleton.mpr h)
    dsimp only
    rw [@find?_other t g.defaultConfig hother]
    exact .fromDefault
      (fun m hm => by_contra fun hne => hnone m (candidate_exclude.mpr ⟨hm, hne⟩)) hset hother
  | nothing hnone hdefault =>
    rw [List.mem_singleton] at hdefault
    exact .nothing
      (fun m hm => by_contra fun hne => hnone m (candidate_exclude.mpr ⟨hm, hne⟩)) hdefault

/-- **What `chat` falls back to first**, and what computing the chain leaves. -/
theorem getFallbackChain_spec (capability : Str) (minContext : ℤ) (t : Str) (g : LLMGateway) :
    FirstOther g (wants capability minContext []) t now
        ((g.getFallbackChain capability minContext now).1.find? (·.name ≠ t)) ∧
      Rested now g (g.getFallbackChain capability minContext now).2 := by
  refine ⟨?_, rested_extendChain capability minContext _ [] g⟩
  -- two rounds of the loop: the first may find the target, the second excludes it
  obtain ⟨n, hn⟩ : ∃ n, max g.models.length 1 = n + 1 :=
    ⟨max g.models.length 1 - 1, by have := le_max_right g.models.length 1; omega⟩
  obtain ⟨hroute, hrested⟩ := @route_spec now capability minContext [] g
  rw [getFallbackChain, hn, extendChain]
  rcases hr : g.route capability minContext [] now with ⟨answer, g'⟩
  rw [hr] at hroute hrested
  have hsecond : ∀ m : ModelConfig, m.name = t →
      FirstOther g (wants capability minContext []) t now
        ((m :: (extendChain capability minContext now (n + 1) [m.name] g').1).find?
          (·.name ≠ t)) := by
    intro m hm
    rw [List.find?_cons_of_neg (by simpa using hm), hm]
    exact hrested.firstOther (extendChain_exclude capability minContext n t g')
  cases hroute with
  | @candidate m h =>
    by_cases hm : m.name = t
    · exact hsecond m hm
    · dsimp only
      rw [find?_other hm]
      exact .candidate h hm
  | fromDefault hnone hset hfresh =>
    by_cases hm : g.defaultModel = t
    · exact hsecond g.defaultConfig hm
    · dsimp only
      rw [@find?_other t g.defaultConfig hm]
      exact .fromDefault (fun m hm => absurd hm (hnone m)) hset hm
  | nothing hnone hdefault =>
    exact .nothing (fun m hm => absurd hm (hnone m))
      (hdefault.imp_right fun h => absurd h (by simp))

theorem kept_execute (hg : g.cb.Kept) (model capability : Str) (calls : ℕ → Bool × ℚ) :
    (g.execute model capability calls now).cb.Kept := by
  have hfallbacks : ∀ (target : Str) (chain : List ModelConfig) (n : ℕ) (now : ℚ) (g : LLMGateway),
      g.cb.Kept → (g.executeFallbacks target calls chain n now).cb.Kept := by
    intro target chain
    induction chain with
    | nil => exact fun _ _ _ hg => hg
    | cons f rest ih =>
      intro n now g hg
      rw [executeFallbacks]
      split_ifs
      · exact ih n now g hg
      · dsimp only
        split_ifs
        · exact ModelCircuitBreaker.kept_recordSuccess hg
        · exact ih _ _ _ (ModelCircuitBreaker.kept_recordFailure hg)
  -- whichever way the target was found, it is called and then the chain is
  have htarget : ∀ (g : LLMGateway) (target : ModelConfig), g.cb.Kept →
      (if (calls 0).1 then g.recordSuccess target.name ((calls 0).2 - now) (calls 0).2
        else executeFallbacks target.name calls
          ((g.recordFailure target.name ((calls 0).2 - now) (calls 0).2).getFallbackChain capability
            0 (calls 0).2).1 1 (calls 0).2
          ((g.recordFailure target.name ((calls 0).2 - now) (calls 0).2).getFallbackChain capability
            0 (calls 0).2).2).cb.Kept := by
    intro g target hg
    split_ifs
    · exact ModelCircuitBreaker.kept_recordSuccess hg
    · exact hfallbacks _ _ _ _ _ ((getFallbackChain_spec capability 0 target.name
        _).2.kept (ModelCircuitBreaker.kept_recordFailure hg))
  rw [execute]
  cases g.named model with
  | some config => exact htarget g config hg
  | none =>
    have hrouted := (@route_spec now capability 0 [] g).2.kept hg
    dsimp only
    rcases hr : route capability 0 [] now g with ⟨_ | target, g'⟩ <;> rw [hr] at hrouted
    · exact hrouted
    · exact htarget g' target hrouted

end LLMGateway

end AgentStudio.Gateway

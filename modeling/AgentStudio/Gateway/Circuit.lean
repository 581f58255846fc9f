import AgentStudio.Gateway.Selection

/-!
# Open circuits and the requests of the gateway

A request is `Barred` when the circuit of its model is open as it is sent. `chat` asks the
breaker only where it selects a registered model by its name and where `route` finds a
candidate. On four ways to a request it does not ask: when a model named by the caller is passed
on to the default client, when `route` finds no candidate and makes up a model from the default
model, when it repeats a request with stripped messages, and when it turns to the default client
at the end of the chain. And what was selected can be open by the time it is sent, for a model
further down the chain and for a call that waits at the semaphore.

`Guarded` says of the state before a step that none of these ways leads to an open circuit now.
`not_barred_iff` is the result: no request of a run is barred if and only if every step of the
run is guarded. `outage_barred` is a run with a barred request: three calls fail, the fourth names
the model and is passed on.

One lemma for each function of the model says when it keeps the requests `Unbarred`;
`Machine.run_invariant_iff` makes a run of them.
-/

namespace AgentStudio.Gateway

open PyText PyDict

variable {o : Outside} {now : ℚ}

/-! ### The guard -/

namespace State

/-- A request that is sent now, to a model or to the default client, goes to no open circuit. -/
def Spares (o : Outside) (model : Str) (now : ℚ) (s : State) : Option ModelConfig → Prop
  | some config => s.Reaches o config → s.gateway.cb.tripped config.name now = false
  | none => s.gateway.defaultClient.isSome →
    s.gateway.cb.tripped (s.gateway.resolvedModel model) now = false

/-- A call that gets a slot now sends no request to an open circuit. -/
def SparesStage (o : Outside) (model : Str) (now : ℚ) (s : State) : Stage → Prop
  | .primary config _ | .retry config _ _ _ | .fallback _ _ config _ _ =>
    s.Spares o model now (some config)
  | .direct _ => s.Spares o model now none
  | .stream => True

/-- The first request of a call. A registered model whose circuit is closed needs no guard, nor
does a candidate of `route`; the name that is passed on and the default model do. -/
def ChatGuarded (o : Outside) (model capability : Str) (now : ℚ) (s : State) : Prop :=
  (∀ config, s.gateway.named model = some config →
      s.gateway.cb.tripped config.name now = true) → s.FreeSlot →
      if model ≠ [] ∧ model ≠ "default" ∧ s.gateway.defaultClient.isSome then
        s.Spares o model now none
      else (∀ m, ¬ s.gateway.Candidate (LLMGateway.wants capability 0 []) now m) →
        s.Spares o model now
          (if s.gateway.defaultModel = [] then none else some s.gateway.defaultConfig)

/-- The first request after a target has failed. Another candidate of `route` needs no guard;
the default model and the default client do. -/
def ChainGuarded (o : Outside) (c : Chat) (target : ModelConfig) (now : ℚ) (s : State) : Prop :=
  (∀ m, s.gateway.Candidate (LLMGateway.wants c.capability 0 []) now m → m.name = target.name) →
    s.FreeSlot → s.Spares o c.model now
      (if s.gateway.defaultModel = [] ∨ s.gateway.defaultModel = target.name then none
        else some s.gateway.defaultConfig)

/-- The next request of a chain that was computed before: its next model, or the default
client. -/
def NextGuarded (o : Outside) (c : Chat) (target : ModelConfig) (rest : List ModelConfig) (now : ℚ)
    (s : State) : Prop :=
  s.FreeSlot → s.Spares o c.model now (rest.find? (·.name ≠ target.name))

/-- The request after a failure. The repetition with stripped messages needs a guard, since the
failure may have tripped the circuit. -/
def FailureGuarded (o : Outside) (c : Chat) (exc : Str) (now : ℚ) (s : State) : Prop :=
  match c.stage with
  | .primary target start =>
    let s := { s with gateway := s.gateway.recordFailure target.name (now - start) now }
    if (s.gateway.reactiveRetry o exc c.messages).isSome then
      s.FreeSlot → s.Spares o c.model now (some target)
    else s.ChainGuarded o c target now
  | .retry target _ _ _ => s.ChainGuarded o c target now
  | .fallback target _ fallback rest fbStart =>
    { s with gateway := s.gateway.recordFailure fallback.name (now - fbStart) now }.NextGuarded o c
      target rest now
  | .direct _ | .stream => True

/-- **No way past the breaker leads to an open circuit** in a step. -/
def Guarded (o : Outside) (i : ℚ × Event) (s : State) : Prop :=
  match i.2 with
  | .chat _ model capability => s.ChatGuarded o model capability i.1
  | .reply id (.error exc) => ∀ c, s.inFlight id = some c → s.release.FailureGuarded o c exc i.1
  | .dispatch => ∀ id c, s.nextWaiter = some (id, c) → s.SparesStage o c.model i.1 c.stage
  | _ => True

/-! ### When the requests stay unbarred -/

/-- No request so far went to a model of which the breaker would have said that its circuit is
open. -/
def Unbarred (s : State) : Prop := ∀ r ∈ s.requests, r.circuit.tripped r.model r.time = false

variable {s s' : State} {id : ℕ} {c : Chat}

theorem unbarred_congr (h : s'.requests = s.requests) : s'.Unbarred ↔ s.Unbarred := by
  rw [Unbarred, h, Unbarred]

theorem unbarred_ite {p Q : Prop} [Decidable p] {t u : State}
    (ht : t.Unbarred ↔ s.Unbarred ∧ Q) (hu : u.Unbarred ↔ s.Unbarred) :
    (if p then t else u).Unbarred ↔ s.Unbarred ∧ (p → Q) := by
  split_ifs with h
  · exact ht.trans (and_congr_right fun _ => (imp_iff_right h).symm)
  · exact hu.trans (and_iff_left fun h' => absurd h' h).symm

theorem unbarred_send (model : Str) (messages : List Message) :
    (s.send id c model messages now).Unbarred ↔
      s.Unbarred ∧ s.gateway.cb.tripped model now = false := by
  simp only [Unbarred, send, List.mem_append, List.mem_singleton, or_imp, forall_and,
    forall_eq]

theorem requests_succeeded (r : LLMResponse) :
    (s.succeeded id c r now).requests = s.requests := by
  rw [succeeded]
  cases c.stage <;> rfl

theorem unbarred_callModel (config : ModelConfig) (messages : List Message) :
    (s.callModel o id c config messages now).Unbarred ↔
      s.Unbarred ∧ s.Spares o c.model now (some config) := by
  rw [callModel, Spares]
  exact unbarred_ite (unbarred_send config.name messages) (unbarred_congr (requests_succeeded _))

theorem unbarred_acquired : (s.acquired o id c now).Unbarred ↔
    s.Unbarred ∧ s.SparesStage o c.model now c.stage := by
  rw [acquired]
  cases hstage : c.stage with
  | primary target _ | retry target _ _ _ => exact unbarred_callModel target _
  | fallback _ _ config _ _ => exact unbarred_callModel config _
  | direct _ => exact unbarred_ite (unbarred_send _ _) Iff.rfl
  | stream => exact (and_iff_left trivial).symm

theorem unbarred_acquire : (s.acquire o id c now).Unbarred ↔
    s.Unbarred ∧ (s.FreeSlot → s.SparesStage o c.model now c.stage) := by
  rw [acquire]
  exact unbarred_ite unbarred_acquired Iff.rfl

theorem unbarred_exhausted (target : ModelConfig) (exc : Str) :
    (s.exhausted o id c target exc now).Unbarred ↔
      s.Unbarred ∧ (s.FreeSlot → s.Spares o c.model now none) := by
  rw [exhausted]
  split_ifs with h
  · rw [unbarred_acquire]
    rfl
  · exact (and_iff_left fun _ h' => absurd h' h).symm

theorem unbarred_nextFallback (target : ModelConfig) (exc : Str) (chain : List ModelConfig) :
    (s.nextFallback o id c target exc now chain).Unbarred ↔
      s.Unbarred ∧ s.NextGuarded o c target chain now := by
  induction chain with
  | nil => exact unbarred_exhausted target exc
  | cons f rest ih =>
    rw [nextFallback, NextGuarded]
    by_cases hf : f.name = target.name
    · rw [if_pos hf, ih, List.find?_cons_of_neg (by simpa using hf)]
      rfl
    · rw [if_neg hf, LLMGateway.find?_other hf, unbarred_acquire]
      rfl

theorem spares_rested {g : LLMGateway} (h : s.gateway.Rested now g) (model : Str)
    (asked : Option ModelConfig) :
    ({ s with gateway := g } : State).Spares o model now asked ↔ s.Spares o model now asked := by
  obtain ⟨cb, rfl, hcb⟩ := h
  cases asked with
  | none | some =>
    rw [Spares, Spares, hcb.tripped]
    rfl

theorem freeSlot_rested {g : LLMGateway} (h : s.gateway.Rested now g) :
    ({ s with gateway := g } : State).FreeSlot ↔ s.FreeSlot := by
  obtain ⟨cb, rfl, -⟩ := h
  rfl

theorem unbarred_enterChain (target : ModelConfig) (exc : Str) :
    (s.enterChain o id c target exc now).Unbarred ↔
      s.Unbarred ∧ s.ChainGuarded o c target now := by
  obtain ⟨hfirst, hrested⟩ :=
    @LLMGateway.getFallbackChain_spec now c.capability 0 target.name s.gateway
  rw [enterChain]
  rcases hchain : s.gateway.getFallbackChain c.capability 0 now with ⟨chain, g⟩
  rw [hchain] at hfirst hrested
  dsimp only at hfirst hrested ⊢
  rw [unbarred_nextFallback]
  refine and_congr Iff.rfl ?_
  rw [NextGuarded, freeSlot_rested hrested, spares_rested hrested, ChainGuarded]
  generalize chain.find? (·.name ≠ target.name) = first at hfirst
  cases hfirst with
  | @candidate m h hother =>
    exact ⟨fun _ hnone => absurd (hnone m h) hother, fun _ _ _ => h.2.1⟩
  | fromDefault hnone hset hother =>
    rw [if_neg (not_or.mpr ⟨hset, hother⟩)]
    exact (imp_iff_right hnone).symm
  | nothing hnone hdefault =>
    rw [if_pos hdefault]
    exact (imp_iff_right hnone).symm

theorem unbarred_failed (exc : Str) : (s.failed o id c exc now).Unbarred ↔
    s.Unbarred ∧ s.FailureGuarded o c exc now := by
  rw [failed, FailureGuarded]
  cases c.stage with
  | primary target start =>
    dsimp only
    cases LLMGateway.reactiveRetry o exc c.messages
        (s.gateway.recordFailure target.name (now - start) now) with
    | none => exact unbarred_enterChain target exc
    | some retryMessages => exact unbarred_acquire
  | retry target _ exc _ => exact unbarred_enterChain target exc
  | fallback target exc fallback rest fbStart => exact unbarred_nextFallback target exc rest
  | direct | stream => exact (and_iff_left trivial).symm

theorem unbarred_chat (messages : List Message) (model capability : Str) :
    (s.chat o messages model capability now).Unbarred ↔
      s.Unbarred ∧ s.ChatGuarded o model capability now := by
  obtain ⟨hresolves, hrested⟩ := @LLMGateway.resolveTarget_spec now model capability s.gateway
  rw [chat]
  rcases htarget : s.gateway.resolveTarget model capability now with ⟨target, g⟩
  rw [htarget] at hresolves hrested
  dsimp only at hresolves hrested ⊢
  have hspares : ∀ asked, ({ s with gateway := g, nextId := s.nextId + 1 } : State).Spares o model
      now asked ↔ s.Spares o model now asked := spares_rested hrested model
  have hfree : ({ s with gateway := g, nextId := s.nextId + 1 } : State).FreeSlot ↔ s.FreeSlot :=
    freeSlot_rested hrested
  have hclient : g.defaultClient = s.gateway.defaultClient := by
    obtain ⟨cb, rfl, -⟩ := hrested
    rfl
  -- a selected model whose circuit is closed is spared
  have hclosed : ∀ m : ModelConfig, s.gateway.cb.tripped m.name now = false →
      ((({ s with gateway := g, nextId := s.nextId + 1 } : State).acquire o s.nextId
        ⟨messages, model, capability, .primary m now⟩ now).Unbarred ↔ s.Unbarred) := fun m hm => by
    rw [unbarred_acquire]
    exact and_iff_left fun _ => (hspares (some m)).mpr fun _ => hm
  cases hresolves with
  | named h hm =>
    dsimp only
    rw [hclosed _ hm]
    exact (and_iff_left fun hopen => absurd (hopen _ h) (by simp [hm])).symm
  | passedOn hopen hpass =>
    dsimp only
    rw [hclient, if_pos hpass.2.2, unbarred_acquire, ChatGuarded, if_pos hpass]
    exact and_congr Iff.rfl
      ((imp_congr hfree (hspares none)).trans (imp_iff_right hopen).symm)
  | routed hopen hpass hselects =>
    rw [ChatGuarded, if_neg hpass, imp_iff_right hopen]
    cases hselects with
    | candidate h =>
      dsimp only
      rw [hclosed _ h.2.1]
      exact (and_iff_left fun _ hnone => absurd h (hnone _)).symm
    | fromDefault hnone hset hfresh =>
      dsimp only
      rw [if_neg hset, unbarred_acquire]
      exact and_congr Iff.rfl ((imp_congr hfree (hspares (some s.gateway.defaultConfig))).trans
        (imp_congr Iff.rfl (imp_iff_right hnone).symm))
    | nothing hnone hdefault =>
      dsimp only
      rw [if_pos (hdefault.resolve_right List.not_mem_nil), hclient]
      split_ifs with hsome
      · rw [unbarred_acquire]
        exact and_congr Iff.rfl ((imp_congr hfree (hspares none)).trans
          (imp_congr Iff.rfl (imp_iff_right hnone).symm))
      · exact (and_iff_left fun _ _ h => absurd h hsome).symm

theorem unbarred_chatStream (messages : List Message) (model capability : Str) :
    (s.chatStream o messages model capability now).Unbarred ↔ s.Unbarred ∧ True := by
  rw [chatStream]
  rcases s.gateway.resolveTarget model capability now with ⟨target, g⟩
  dsimp only
  split_ifs
  · rw [unbarred_acquire]
    exact and_congr Iff.rfl (iff_true_intro fun _ => trivial)
  · exact (and_iff_left trivial).symm

/-- **One step keeps the requests unbarred exactly when it is guarded.** -/
theorem unbarred_machine (i : ℚ × Event) (s : State) :
    (machine o i s).2.Unbarred ↔ s.Unbarred ∧ s.Guarded o i := by
  obtain ⟨now, e⟩ := i
  rw [machine]
  cases e with
  | chat messages model capability => exact unbarred_chat messages model capability
  | chatStream messages model capability => exact unbarred_chatStream messages model capability
  | reply id result =>
    cases result with
    | ok r =>
      dsimp only [step, Guarded]
      cases s.inFlight id with
      | none => exact (and_iff_left trivial).symm
      | some c =>
        dsimp only
        rw [unbarred_congr (requests_succeeded r)]
        exact (and_iff_left trivial).symm
    | error exc =>
      dsimp only [step, Guarded]
      cases s.inFlight id with
      | none => simp
      | some c =>
        dsimp only
        rw [unbarred_failed]
        exact and_congr Iff.rfl (by simp)
  | dispatch =>
    dsimp only [step, Guarded]
    cases s.nextWaiter with
    | none => simp
    | some p =>
      obtain ⟨id, c⟩ := p
      dsimp only
      rw [unbarred_acquired]
      refine and_congr Iff.rfl ⟨fun h id' c' heq => ?_, fun h => h id c rfl⟩
      obtain ⟨-, rfl⟩ := Prod.mk.inj (Option.some.inj heq)
      exact h
  | cancel id =>
    refine (unbarred_congr ?_).trans (and_iff_left trivial).symm
    dsimp only [step]
    rw [cancel]
    split
    · rfl
    · split_ifs <;> rfl
  | _ => exact (and_iff_left trivial).symm

/-! ### The breakers are kept -/

/-- The breaker and its copies in the requests say what was recorded. -/
structure Kept (s : State) : Prop where
  cb : s.gateway.cb.Kept
  requests : ∀ r ∈ s.requests, r.circuit.Kept

theorem kept_gateway (hs : s.Kept) {g : LLMGateway} (hg : g.cb.Kept) :
    ({ s with gateway := g } : State).Kept := ⟨hg, hs.requests⟩

theorem kept_send (hs : s.Kept) (model : Str) (messages : List Message) :
    (s.send id c model messages now).Kept := by
  refine ⟨hs.cb, fun r hr => ?_⟩
  rcases mem_snoc.mp hr with hr | rfl
  · exact hs.requests r hr
  · exact hs.cb

theorem kept_succeeded (hs : s.Kept) (r : LLMResponse) : (s.succeeded id c r now).Kept := by
  rw [succeeded]
  cases c.stage with
  | primary | retry | fallback => exact ⟨ModelCircuitBreaker.kept_recordSuccess hs.cb, hs.requests⟩
  | direct | stream => exact ⟨hs.cb, hs.requests⟩

theorem kept_callModel (hs : s.Kept) (config : ModelConfig) (messages : List Message) :
    (s.callModel o id c config messages now).Kept := by
  rw [callModel]
  split_ifs
  · exact kept_send hs config.name messages
  · exact kept_succeeded hs (stub config)

theorem kept_acquired (hs : s.Kept) : (s.acquired o id c now).Kept := by
  rw [acquired]
  cases c.stage with
  | primary target _ | retry target _ _ _ => exact kept_callModel hs target _
  | fallback _ _ config _ _ => exact kept_callModel hs config _
  | direct _ =>
    dsimp only
    split_ifs
    · exact kept_send hs _ _
    · exact ⟨hs.cb, hs.requests⟩
  | stream => exact ⟨hs.cb, hs.requests⟩

theorem kept_acquire (hs : s.Kept) : (s.acquire o id c now).Kept := by
  rw [acquire]
  split_ifs
  · exact kept_acquired hs
  · exact ⟨hs.cb, hs.requests⟩

theorem kept_nextFallback (hs : s.Kept) (target : ModelConfig) (exc : Str)
    (chain : List ModelConfig) : (s.nextFallback o id c target exc now chain).Kept := by
  induction chain with
  | nil =>
    rw [nextFallback, exhausted]
    split_ifs
    · exact kept_acquire hs
    · exact ⟨hs.cb, hs.requests⟩
  | cons f rest ih =>
    rw [nextFallback]
    split_ifs
    · exact ih
    · exact kept_acquire hs

theorem kept_enterChain (hs : s.Kept) (target : ModelConfig) (exc : Str) :
    (s.enterChain o id c target exc now).Kept :=
  kept_nextFallback (kept_gateway hs
    ((s.gateway.getFallbackChain_spec c.capability 0 target.name).2.kept hs.cb)) target exc _

theorem kept_failed (hs : s.Kept) (exc : Str) : (s.failed o id c exc now).Kept := by
  rw [failed]
  cases c.stage with
  | primary target start =>
    have hfailed := @kept_gateway s hs (s.gateway.recordFailure target.name (now - start) now)
      (ModelCircuitBreaker.kept_recordFailure hs.cb)
    dsimp only
    cases LLMGateway.reactiveRetry o exc c.messages
        (s.gateway.recordFailure target.name (now - start) now) with
    | none => exact kept_enterChain hfailed target exc
    | some retryMessages => exact kept_acquire ⟨hfailed.cb, hfailed.requests⟩
  | retry target _ exc _ => exact kept_enterChain hs target exc
  | fallback target exc fallback rest fbStart =>
    exact kept_nextFallback (kept_gateway hs (ModelCircuitBreaker.kept_recordFailure hs.cb))
      target exc rest
  | direct | stream => exact ⟨hs.cb, hs.requests⟩

theorem kept_machine (i : ℚ × Event) (hs : s.Kept) : (machine o i s).2.Kept := by
  obtain ⟨now, e⟩ := i
  rw [machine]
  cases e with
  | chat messages model capability =>
    have hg := (@LLMGateway.resolveTarget_spec now model capability s.gateway).2.kept hs.cb
    dsimp only [step, chat]
    cases (s.gateway.resolveTarget model capability now).1 with
    | some target => exact kept_acquire ⟨hg, hs.requests⟩
    | none =>
      dsimp only
      split_ifs
      · exact kept_acquire ⟨hg, hs.requests⟩
      · exact ⟨hg, hs.requests⟩
  | chatStream messages model capability =>
    have hg := (@LLMGateway.resolveTarget_spec now model capability s.gateway).2.kept hs.cb
    dsimp only [step, chatStream]
    split_ifs
    · exact kept_acquire ⟨hg, hs.requests⟩
    · exact ⟨hg, hs.requests⟩
  | reply id result =>
    dsimp only [step]
    cases s.inFlight id with
    | none => cases result <;> exact hs
    | some c =>
      have hrelease : s.release.Kept := ⟨hs.cb, hs.requests⟩
      cases result with
      | ok r => exact kept_succeeded hrelease r
      | error exc => exact kept_failed hrelease exc
  | dispatch =>
    dsimp only [step]
    cases s.nextWaiter with
    | none => exact hs
    | some p => exact kept_acquired ⟨hs.cb, hs.requests⟩
  | cancel id =>
    dsimp only [step]
    rw [cancel]
    split
    · exact hs
    · split_ifs <;> exact ⟨hs.cb, hs.requests⟩
  | route capability minContext exclude =>
    exact kept_gateway hs ((s.gateway.route_spec capability minContext exclude).2.kept hs.cb)
  | getFallbackChain capability minContext =>
    exact kept_gateway hs ((s.gateway.getFallbackChain_spec capability minContext []).2.kept hs.cb)
  | execute model capability calls =>
    exact kept_gateway hs (LLMGateway.kept_execute hs.cb model capability calls)
  | _ => exact ⟨hs.cb, hs.requests⟩

theorem kept_start (defaultModel : Str) (compactor : Option (List Message → List Message))
    (limit : Option ℕ) : (start defaultModel compactor limit).Kept :=
  ⟨ModelCircuitBreaker.kept_new, List.forall_mem_nil _⟩

theorem kept_run (o : Outside) (inputs : List (ℚ × Event)) (defaultModel : Str)
    (compactor : Option (List Message → List Message)) (limit : Option ℕ) :
    (Machine.run (machine o) inputs (start defaultModel compactor limit)).2.Kept :=
  Machine.run_invariant_always (fun i _ hs => kept_machine i hs) inputs
    (kept_start defaultModel compactor limit)

end State

/-! ### The result -/

/-- **A barred request**: by what was recorded the circuit of its model was open as it was
sent. -/
def Request.Barred (r : Request) : Prop := r.circuit.Open r.model r.time

/-- **No request of a run is barred if and only if every step is guarded**: whatever the
configuration of the gateway, the models that are registered, the calls of `chat`, their order
and the failures. -/
theorem not_barred_iff (o : Outside) (defaultModel : Str)
    (compactor : Option (List Message → List Message)) (limit : Option ℕ)
    (inputs : List (ℚ × Event)) :
    (∀ r ∈ (Machine.run (State.machine o) inputs
        (State.start defaultModel compactor limit)).2.requests, ¬ r.Barred) ↔
      Machine.Along (State.machine o) (State.Guarded o) inputs
        (State.start defaultModel compactor limit) := by
  have hkept := State.kept_run o inputs defaultModel compactor limit
  have hstart : (State.start defaultModel compactor limit).Unbarred :=
    List.forall_mem_nil _
  calc (∀ r ∈ (Machine.run (State.machine o) inputs
          (State.start defaultModel compactor limit)).2.requests, ¬ r.Barred)
      ↔ (Machine.run (State.machine o) inputs
          (State.start defaultModel compactor limit)).2.Unbarred := by
        refine forall₂_congr fun r hr => ?_
        rw [Request.Barred, ← ModelCircuitBreaker.tripped_iff_open (hkept.requests r hr),
          Bool.not_eq_true]
    _ ↔ (State.start defaultModel compactor limit).Unbarred ∧
          Machine.Along (State.machine o) (State.Guarded o) inputs
            (State.start defaultModel compactor limit) :=
        Machine.run_invariant_iff State.unbarred_machine inputs _
    _ ↔ _ := and_iff_right hstart

/-! ### A request that is barred -/

section Outage

/-- A model that is down: it is registered and the default client is set. Three calls fail, and
a second later a fourth one names the model. -/
def outage : List (ℚ × Event) :=
  [(0, .registerModel { name := "m", baseUrl := [] }),
    (0, .setDefaultClient (some ⟨[], []⟩)),
    (0, .chat [] "m" []), (1, .reply 0 (.error [])), (1, .reply 0 (.error [])),
    (2, .chat [] "m" []), (3, .reply 1 (.error [])), (3, .reply 1 (.error [])),
    (4, .chat [] "m" []), (5, .reply 2 (.error [])), (5, .reply 2 (.error [])),
    (6, .chat [] "m" [])]

def quiet : Outside := ⟨id, true⟩

/-- The fourth call is passed on to the default client, which asks the model of the open
circuit. -/
theorem outage_barred : ∃ r ∈ (Machine.run (State.machine quiet) outage
    (State.start [] none (some 8))).2.requests, r.chat = 3 ∧ r.Barred := by
  have hkept := State.kept_run quiet outage [] none (some 8)
  have hany : ((Machine.run (State.machine quiet) outage
      (State.start [] none (some 8))).2.requests.any fun r =>
        r.chat = 3 && r.circuit.tripped r.model r.time) = true := by decide +kernel
  obtain ⟨r, hr, hbarred⟩ := List.any_eq_true.mp hany
  rw [Bool.and_eq_true, decide_eq_true_eq] at hbarred
  exact ⟨r, hr, hbarred.1,
    (ModelCircuitBreaker.tripped_iff_open (hkept.requests r hr)).mp hbarred.2⟩

/-- **A request goes to a model while its circuit is open.** -/
theorem not_unbarred : ¬ ∀ (o : Outside) (defaultModel : Str)
    (compactor : Option (List Message → List Message)) (limit : Option ℕ)
    (inputs : List (ℚ × Event)), ∀ r ∈ (Machine.run (State.machine o) inputs
      (State.start defaultModel compactor limit)).2.requests, ¬ r.Barred := by
  intro h
  obtain ⟨r, hr, -, hbarred⟩ := outage_barred
  exact h quiet [] none (some 8) outage r hr hbarred

end Outage

end AgentStudio.Gateway

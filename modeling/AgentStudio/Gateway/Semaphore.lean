import AgentStudio.Gateway.Selection
import AgentStudio.Library.Machine
import Mathlib.Data.Finset.Card

/-!
# The semaphore of the gateway

Calls of `chat` and `chat_stream` share a semaphore: a call holds a slot while its request is in
flight, gives it back between two requests, and is cancelled where it waits or at its request.

`Slots` says that the slots in use are those of the calls that are under way and do not wait, that
they are within the limit, and that a call has been answered once at most and is over then. While a
step works on a call, the others are counted without it (`Holding`). `slots_machine` is the step;
`inFlight_le_limit` and `answered_once` are about all runs, whatever the requests answer and
whichever calls are cancelled.
-/

namespace AgentStudio.Gateway

open PyText PyDict

variable {o : Outside} {now : ℚ} {L : Option ℕ}

namespace LLMGateway

variable {g g' : LLMGateway}

theorem Rested.limit (h : Rested now g g') :
    g'.llmConcurrencyLimit = g.llmConcurrencyLimit := by
  obtain ⟨cb, rfl, -⟩ := h
  rfl

theorem limit_execute (model capability : Str) (calls : ℕ → Bool × ℚ) (g : LLMGateway) :
    (g.execute model capability calls now).llmConcurrencyLimit = g.llmConcurrencyLimit := by
  have hfallbacks (target : Str) (chain : List ModelConfig) (n : ℕ) (now : ℚ) (g : LLMGateway) :
      (g.executeFallbacks target calls chain n now).llmConcurrencyLimit =
        g.llmConcurrencyLimit := by
    induction chain generalizing n now g with
    | nil => rfl
    | cons f rest ih =>
      rw [executeFallbacks]
      split_ifs
      · exact ih n now g
      · dsimp only
        split_ifs
        · rfl
        · exact ih _ _ _
  have hchain (now : ℚ) (g : LLMGateway) :=
    (@getFallbackChain_spec now capability 0 [] g).2.limit
  rw [execute]
  cases g.named model with
  | some config =>
    dsimp only
    split_ifs
    · rfl
    · exact (hfallbacks ..).trans (hchain ..)
  | none =>
    have hrouted := (@route_spec now capability 0 [] g).2.limit
    dsimp only
    rcases hr : route capability 0 [] now g with ⟨_ | target, g'⟩ <;> rw [hr] at hrouted
    · exact hrouted
    · dsimp only
      split_ifs
      · exact hrouted
      · exact (hfallbacks ..).trans ((hchain ..).trans hrouted)

end LLMGateway

namespace State

variable {s : State} {U : Finset ℕ} {id k : ℕ} {c : Chat}

/-! ### The slots -/

def underWay (s : State) : Finset ℕ := (s.chats.map Prod.fst).toFinset

/-- The slots are those of these calls, except for the ones that wait, and the calls that have been
answered are others. -/
structure Accounts (L : Option ℕ) (U : Finset ℕ) (s : State) : Prop where
  limit : s.gateway.llmConcurrencyLimit = L
  nodup : s.waiters.Nodup
  waiting : ∀ id ∈ s.waiters, id ∈ U
  count : s.active + s.waiters.length = U.card
  bound : ∀ limit, L = some limit → s.active ≤ limit
  begun : ∀ id ∈ U, id < s.nextId
  answered : ∀ id ∈ s.responses.map Prod.fst, id < s.nextId ∧ id ∉ U
  once : (s.responses.map Prod.fst).Nodup

/-- The slots are those of the calls under way. -/
def Slots (L : Option ℕ) (s : State) : Prop := Accounts L s.underWay s

/-- A step works on a call, which holds no slot and has not been answered. -/
structure Holding (L : Option ℕ) (id : ℕ) (s : State) : Prop where
  others : Accounts L (s.underWay.erase id) s
  begun : id < s.nextId
  unanswered : id ∉ s.responses.map Prod.fst

/-- Another slot may be used. -/
def Room (L : Option ℕ) (s : State) : Prop := ∀ limit, L = some limit → s.active < limit

theorem underWay_setItem (id : ℕ) (c : Chat) (chats : List (ℕ × Chat)) :
    ((setItem id c chats).map Prod.fst).toFinset = insert id (chats.map Prod.fst).toFinset := by
  rw [keys_setItem]
  split_ifs with h
  · rw [Finset.insert_eq_of_mem (List.mem_toFinset.mpr h)]
  · ext
    simp

theorem underWay_pop (id : ℕ) (chats : List (ℕ × Chat)) :
    ((pop id chats).map Prod.fst).toFinset = (chats.map Prod.fst).toFinset.erase id := by
  ext k
  simp only [pop, List.mem_toFinset, List.mem_map, List.mem_filter, Finset.mem_erase,
    decide_eq_true_eq]
  constructor
  · rintro ⟨m, ⟨hm, hne⟩, rfl⟩
    exact ⟨hne, m, hm, rfl⟩
  · rintro ⟨hne, m, hm, rfl⟩
    exact ⟨m, ⟨hm, hne⟩, rfl⟩

theorem underWay_of_lookup (h : s.chats.lookup id = some c) : id ∈ s.underWay :=
  List.mem_toFinset.mpr (List.mem_map_of_mem (f := Prod.fst) (mem_of_lookup h))

theorem Accounts.mono {V : Finset ℕ} (h : Accounts L U s) (hV : V ⊆ U) {waiters : List ℕ}
    {active : ℕ} (hnodup : waiters.Nodup) (hwaiting : ∀ k ∈ waiters, k ∈ V)
    (hcount : active + waiters.length = V.card) (hactive : active ≤ s.active) :
    Accounts L V { s with waiters, active } where
  limit := h.limit
  nodup := hnodup
  waiting := hwaiting
  count := hcount
  bound limit hL := hactive.trans (h.bound limit hL)
  begun k hk := h.begun k (hV hk)
  answered k hk := ⟨(h.answered k hk).1, fun hmem => (h.answered k hk).2 (hV hmem)⟩
  once := h.once

namespace Holding

variable (h : Holding L id s)
include h

theorem gateway (g : LLMGateway) (hg : g.llmConcurrencyLimit = s.gateway.llmConcurrencyLimit) :
    Holding L id { s with gateway := g } :=
  ⟨{ h.others with limit := hg.trans h.others.limit }, h.begun, h.unanswered⟩

/-- The call is under way again, with a slot or at the end of the queue. -/
theorem goesOn (active : ℕ) (waiters : List ℕ) (requests : List Request) (c : Chat)
    (hnodup : waiters.Nodup) (hwaiting : ∀ k ∈ waiters, k = id ∨ k ∈ s.waiters)
    (hcount : active + waiters.length = s.active + s.waiters.length + 1)
    (hbound : ∀ limit, L = some limit → active ≤ limit) :
    Slots L { s with chats := setItem id c s.chats, active, waiters, requests } := by
  have hunder : State.underWay { s with chats := setItem id c s.chats, active, waiters, requests } =
      insert id (s.underWay.erase id) := by
    refine (underWay_setItem id c s.chats).trans ?_
    ext
    simp [underWay, or_and_left, em]
  rw [Slots, hunder]
  refine ⟨h.others.limit, hnodup, fun k hk => ?_, ?_, hbound, fun k hk => ?_, fun k hk => ?_,
    h.others.once⟩
  · exact Finset.mem_insert.mpr ((hwaiting k hk).imp_right (h.others.waiting k))
  · rw [Finset.card_insert_of_notMem (Finset.notMem_erase _ _), ← h.others.count]
    exact hcount
  · rcases Finset.mem_insert.mp hk with rfl | hk
    · exact h.begun
    · exact h.others.begun k hk
  · refine ⟨(h.others.answered k hk).1, fun hmem => ?_⟩
    rcases Finset.mem_insert.mp hmem with rfl | hmem
    · exact h.unanswered hk
    · exact (h.others.answered k hk).2 hmem

theorem takesSlot (hroom : s.Room L) (requests : List Request) (c : Chat) :
    Slots L { s with chats := setItem id c s.chats, active := s.active + 1, requests } :=
  h.goesOn _ _ _ c h.others.nodup (fun _ => .inr) (by omega) hroom

theorem gone : Slots L { s with chats := pop id s.chats } := by
  have hunder : State.underWay { s with chats := pop id s.chats } = s.underWay.erase id :=
    underWay_pop id s.chats
  rw [Slots, hunder]
  exact { h.others with }

theorem respond (r : GatewayResponse) : Slots L (s.respond id r) := by
  have hgone := h.gone
  have hmem {k : ℕ} (hk : k ∈ (s.respond id r).responses.map Prod.fst) :
      k ∈ s.responses.map Prod.fst ∨ k = id := by
    simpa [State.respond] using hk
  refine { hgone with answered := fun k hk => ?_, once := ?_ }
  · rcases hmem hk with hk | rfl
    · exact hgone.answered k hk
    · refine ⟨h.begun, fun hmem => ?_⟩
      rw [State.underWay, State.respond, underWay_pop] at hmem
      exact Finset.notMem_erase _ _ hmem
  · rw [State.respond, List.map_append]
    exact h.others.once.append (List.nodup_singleton id) (by simpa using h.unanswered)

theorem succeeded (r : LLMResponse) : Slots L (s.succeeded id c r now) := by
  rw [State.succeeded]
  cases c.stage with
  | primary | retry | fallback => exact (h.gateway (s.gateway.recordSuccess _ _ _) rfl).respond _
  | direct => exact h.respond _
  | stream => exact h.gone

theorem acquired (hroom : s.Room L) : Slots L (s.acquired o id c now) := by
  have hcall (config : ModelConfig) (messages : List Message) :
      Slots L (s.callModel o id c config messages now) := by
    rw [State.callModel]
    split_ifs
    · exact h.takesSlot hroom _ c
    · exact h.succeeded _
  rw [State.acquired]
  cases c.stage with
  | primary | retry | fallback => exact hcall _ _
  | direct =>
    dsimp only
    split_ifs
    · exact h.takesSlot hroom _ _
    · exact h.respond _
  | stream => exact h.takesSlot hroom _ c

theorem acquire : Slots L (s.acquire o id c now) := by
  have hlimit := h.others.limit
  rw [State.acquire]
  split_ifs with hfree
  · refine h.acquired fun limit hL => ?_
    rw [FreeSlot, hlimit, hL] at hfree
    exact hfree.2
  · have hid : id ∉ s.waiters := fun hid => Finset.notMem_erase _ _ (h.others.waiting id hid)
    refine h.goesOn _ _ _ c ?_ (fun k hk => ?_) ?_ h.others.bound
    · exact h.others.nodup.append (List.nodup_singleton id) (by simpa using hid)
    · simpa [or_comm] using hk
    · rw [List.length_append, List.length_singleton]
      omega

theorem nextFallback (target : ModelConfig) (exc : Str) (chain : List ModelConfig) :
    Slots L (s.nextFallback o id c target exc now chain) := by
  induction chain with
  | nil =>
    rw [State.nextFallback, exhausted]
    split_ifs
    · exact h.acquire
    · exact h.respond _
  | cons f rest ih =>
    rw [State.nextFallback]
    split_ifs
    · exact ih
    · exact h.acquire

theorem enterChain (target : ModelConfig) (exc : Str) :
    Slots L (s.enterChain o id c target exc now) :=
  (h.gateway _ (@LLMGateway.getFallbackChain_spec now c.capability 0 [] _).2.limit).nextFallback ..

theorem failed (exc : Str) : Slots L (s.failed o id c exc now) := by
  rw [State.failed]
  cases c.stage with
  | primary target start =>
    have hfailed := h.gateway (s.gateway.recordFailure target.name (now - start) now) rfl
    dsimp only
    split
    · exact (hfailed.gateway { s.gateway.recordFailure target.name (now - start) now with
        compactGeneration := s.gateway.compactGeneration + 1 } rfl).acquire
    · exact hfailed.enterChain target exc
  | retry target _ exc _ => exact h.enterChain target exc
  | fallback target exc fallback rest _ =>
    exact (h.gateway (s.gateway.recordFailure _ _ _) rfl).nextFallback target exc rest
  | direct => exact h.respond _
  | stream => exact h.gone

end Holding

/-! ### Steps -/

theorem Slots.gateway (h : Slots L s) (g : LLMGateway)
    (hg : g.llmConcurrencyLimit = s.gateway.llmConcurrencyLimit) :
    Slots L { s with gateway := g } := { h with limit := hg.trans h.limit }

/-- A call that begins. -/
theorem Slots.opened (h : Slots L s) (g : LLMGateway)
    (hg : g.llmConcurrencyLimit = s.gateway.llmConcurrencyLimit) :
    Slots L { s with gateway := g, nextId := s.nextId + 1 } ∧
      Holding L s.nextId { s with gateway := g, nextId := s.nextId + 1 } := by
  have hbegun : Slots L { s with gateway := g, nextId := s.nextId + 1 } :=
    { h with
      limit := hg.trans h.limit
      begun := fun k hk => Nat.lt_succ_of_lt (Accounts.begun h k hk)
      answered := fun k hk => ⟨Nat.lt_succ_of_lt (h.answered k hk).1, (h.answered k hk).2⟩ }
  refine ⟨hbegun, ?_, Nat.lt_succ_self _, fun hid => absurd (h.answered _ hid).1 (lt_irrefl _)⟩
  have hnew : s.nextId ∉ s.underWay := fun hid => absurd (Accounts.begun h _ hid) (lt_irrefl _)
  exact (Finset.erase_eq_of_notMem hnew).symm ▸ hbegun

/-- A call that holds a slot or waits, without it. -/
theorem Slots.without (h : Slots L s) (hid : id ∈ s.underWay) {waiters : List ℕ} {active : ℕ}
    (hnodup : waiters.Nodup) (hwaiting : ∀ k ∈ waiters, k ≠ id ∧ k ∈ s.waiters)
    (hcount : active + waiters.length + 1 = s.active + s.waiters.length)
    (hactive : active ≤ s.active) : Holding L id { s with waiters, active } := by
  have hcard := Finset.card_erase_add_one hid
  refine ⟨?_, h.begun id hid, fun hanswered => (h.answered id hanswered).2 hid⟩
  refine Accounts.mono h (Finset.erase_subset id _) hnodup (fun k hk => ?_) ?_ hactive
  · exact Finset.mem_erase.mpr ⟨(hwaiting k hk).1, h.waiting k (hwaiting k hk).2⟩
  · have := h.count
    omega

/-- The call of a request that ended. -/
theorem Slots.released (h : Slots L s) (hid : id ∈ s.underWay) (hflies : id ∉ s.waiters) :
    Holding L id s.release := by
  have hlt : s.waiters.length < s.underWay.card := by
    rw [← List.toFinset_card_of_nodup h.nodup]
    refine Finset.card_lt_card ⟨fun k hk => h.waiting k (List.mem_toFinset.mp hk), fun hsub => ?_⟩
    exact hflies (List.mem_toFinset.mp (hsub hid))
  have := h.count
  exact h.without hid h.nodup (fun k hk => ⟨fun heq => hflies (heq ▸ hk), hk⟩) (by omega)
    (Nat.sub_le _ _)

/-- A call that leaves the queue. -/
theorem Slots.called (h : Slots L s) (hid : id ∈ s.waiters) :
    Holding L id { s with waiters := s.waiters.erase id } := by
  have hlen := List.length_erase_of_mem hid
  have hpos := List.length_pos_of_mem hid
  exact h.without (h.waiting id hid) (h.nodup.erase id)
    (fun k hk => h.nodup.mem_erase_iff.mp hk) (by omega) le_rfl

theorem slots_machine (i : ℚ × Event) (s : State) (h : Slots L s) :
    Slots L (machine o i s).2 := by
  obtain ⟨now, e⟩ := i
  rw [machine]
  cases e with
  | chat messages model capability =>
    have hholds :=
      (h.opened _ (@LLMGateway.resolveTarget_spec now model capability s.gateway).2.limit).2
    dsimp only [step, chat]
    cases (s.gateway.resolveTarget model capability now).1 with
    | some target => exact hholds.acquire
    | none =>
      dsimp only
      split_ifs
      · exact hholds.acquire
      · exact hholds.respond _
  | chatStream messages model capability =>
    obtain ⟨hslots, hholds⟩ :=
      h.opened _ (@LLMGateway.resolveTarget_spec now model capability s.gateway).2.limit
    dsimp only [step, chatStream]
    split_ifs
    · exact hholds.acquire
    · exact hslots
  | reply id result =>
    dsimp only [step]
    cases hflies : s.inFlight id with
    | none => cases result <;> exact h
    | some c =>
      rw [inFlight] at hflies
      split_ifs at hflies with hwaits
      have hholds := h.released (underWay_of_lookup hflies) hwaits
      cases result with
      | ok r => exact hholds.succeeded r
      | error exc => exact hholds.failed exc
  | dispatch =>
    dsimp only [step]
    cases hnext : s.nextWaiter with
    | none => exact h
    | some p =>
      have hlimit := h.limit
      unfold nextWaiter at hnext
      cases hwaits : s.waiters with
      | nil => simp [hwaits] at hnext
      | cons id rest =>
        have hmem : id ∈ s.waiters := hwaits ▸ List.mem_cons_self
        have hcalled := h.called hmem
        rw [hwaits, List.erase_cons_head] at hcalled
        rcases L with _ | limit <;> rw [hlimit, hwaits] at hnext
        · simp at hnext
        · simp only [List.head?_cons] at hnext
          split_ifs at hnext with hlt
          obtain ⟨c, -, rfl⟩ := Option.map_eq_some_iff.mp hnext
          exact hcalled.acquired fun limit' hL => Option.some.inj hL ▸ hlt
  | cancel id =>
    dsimp only [step]
    rw [cancel]
    cases hid : s.chats.lookup id with
    | none => exact h
    | some c =>
      dsimp only
      split_ifs with hwaits
      · exact (h.called hwaits).gone
      · exact (h.released (underWay_of_lookup hid) hwaits).gone
  | route capability minContext exclude =>
    exact h.gateway _ (@LLMGateway.route_spec now capability minContext exclude s.gateway).2.limit
  | getFallbackChain capability minContext =>
    exact h.gateway _
      (@LLMGateway.getFallbackChain_spec now capability minContext [] s.gateway).2.limit
  | execute model capability calls => exact h.gateway _ (LLMGateway.limit_execute ..)
  | _ => exact h.gateway _ rfl

/-! ### Runs -/

theorem slots_run (o : Outside) (inputs : List (ℚ × Event)) (defaultModel : Str)
    (compactor : Option (List Message → List Message)) (L : Option ℕ) :
    Slots L (Machine.run (machine o) inputs (start defaultModel compactor L)).2 :=
  Machine.run_invariant_always slots_machine inputs
    ⟨rfl, .nil, List.forall_mem_nil _, rfl, fun _ _ => Nat.zero_le _, by simp [underWay, start],
      List.forall_mem_nil _, .nil⟩

end State

/-- **The semaphore**: in every run, no more calls have a request in flight than the limit. -/
theorem inFlight_le_limit (o : Outside) (inputs : List (ℚ × Event)) (defaultModel : Str)
    (compactor : Option (List Message → List Message)) (limit : ℕ) :
    let s := (Machine.run (State.machine o) inputs
      (State.start defaultModel compactor (some limit))).2
    (s.underWay.filter fun id => (s.inFlight id).isSome).card ≤ limit := by
  have h := State.slots_run o inputs defaultModel compactor (some limit)
  generalize (Machine.run (State.machine o) inputs _).2 = s at h
  have hsub : (s.underWay.filter fun id => (s.inFlight id).isSome) ⊆
      s.underWay \ s.waiters.toFinset := fun id hid => by
    obtain ⟨hmem, hflies⟩ := Finset.mem_filter.mp hid
    refine Finset.mem_sdiff.mpr ⟨hmem, fun hwaits => ?_⟩
    rw [State.inFlight, if_pos (List.mem_toFinset.mp hwaits)] at hflies
    exact Bool.noConfusion hflies
  have hcard := Finset.card_sdiff_add_card_eq_card (s := s.waiters.toFinset) (t := s.underWay)
    fun id hid => h.waiting id (List.mem_toFinset.mp hid)
  rw [List.toFinset_card_of_nodup h.nodup] at hcard
  have := h.count
  have := h.bound limit rfl
  exact (Finset.card_le_card hsub).trans (by omega)

/-- **No slot is lost**: in every run, a call under way holds one or waits. -/
theorem active_add_waiters (o : Outside) (inputs : List (ℚ × Event)) (defaultModel : Str)
    (compactor : Option (List Message → List Message)) (L : Option ℕ) :
    let s := (Machine.run (State.machine o) inputs (State.start defaultModel compactor L)).2
    s.active + s.waiters.length = s.underWay.card :=
  (State.slots_run o inputs defaultModel compactor L).count

/-- **Answers**: in every run a call is answered once at most, and is over then: it neither waits
nor has a request in flight. -/
theorem answered_once (o : Outside) (inputs : List (ℚ × Event)) (defaultModel : Str)
    (compactor : Option (List Message → List Message)) (L : Option ℕ) :
    let s := (Machine.run (State.machine o) inputs (State.start defaultModel compactor L)).2
    (s.responses.map Prod.fst).Nodup ∧
      ∀ id ∈ s.responses.map Prod.fst, id ∉ s.waiters ∧ s.inFlight id = none := by
  have h := State.slots_run o inputs defaultModel compactor L
  refine ⟨h.once, fun id hid => ?_⟩
  have hover := (h.answered id hid).2
  refine ⟨fun hwaits => hover (h.waiting id hwaits), ?_⟩
  rw [State.inFlight, ite_eq_left_iff]
  exact fun _ => Option.eq_none_iff_forall_ne_some.mpr fun c hc =>
    hover (State.underWay_of_lookup hc)

end AgentStudio.Gateway

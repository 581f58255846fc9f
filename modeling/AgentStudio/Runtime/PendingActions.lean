import AgentStudio.Runtime.Registries

/-!
# Pending actions

What the registries of approval requests should say (`ApprovalRuntime.Lawful`): an action whose
requests have ended is not listed as pending and cannot be approved, and an approval that is
accepted releases a run that waits for it.

An approval is accepted for the actions that are `Open`, and it reaches the future that `registry`
has for the action; so the law is that every open action has a waiting run there (`Matched`). A
timeout, the end of a run and `_reap_exec_futures` take the future from the runtime, or leave it
where it is, and never touch the action that the gateway lists; and an evaluation lists an action
without a request. `ApprovalOp.Careful` says when a step does no such harm: a run is lawful
throughout exactly if all of its steps are careful.
-/

namespace AgentStudio.Runtime

open PyText PyDict Machine

namespace ApprovalRuntime

/-! ### The law -/

section

variable (s : ApprovalRuntime)

/-- A run waits for an answer about the action. -/
def WaitsFor (actionId : Str) : Prop := ∃ r ∈ s.requests, r.actionId = actionId ∧ r.Waits

/-- There were requests about the action, and all of them have ended. -/
def Ended (actionId : Str) : Prop :=
  (∃ r ∈ s.requests, r.actionId = actionId) ∧ ¬ s.WaitsFor actionId

/-- An approval of the action releases a run that waits. -/
def Releases (s' : ApprovalRuntime) (actionId : Str) : Prop :=
  ∃ (i : ℕ) (r : ApprovalRequest), s.requests[i]? = some r ∧ r.actionId = actionId ∧ r.Waits ∧
    s'.requests[i]? = some { r with future := .result true }

structure Lawful : Prop where
  unlisted : ∀ actionId, s.Ended actionId → actionId ∉ s.getPendingActions.map Prod.fst
  refused : ∀ actionId confirmed, s.Ended actionId →
    (s.approveAction confirmed actionId).1 = false ∧
      (s.gatewaySettle true confirmed actionId).1 = false
  releases : ∀ actionId confirmed, (s.approveAction confirmed actionId).1 = true →
    s.Releases (s.approveAction confirmed actionId).2 actionId
  gatewayReleases : ∀ actionId confirmed, (s.gatewaySettle true confirmed actionId).1 = true →
    s.Releases (s.gatewaySettle true confirmed actionId).2 actionId

/-! ### Open actions -/

def registry : List (Str × ℕ) :=
  match s.gateway with
  | some g => g.pendingApprovals
  | none => s.safetyFutures

/-- An approval of the action, if it is confirmed, is accepted. -/
def Open (actionId : Str) : Prop :=
  match s.gateway with
  | some g => g.status actionId = some .pending
  | none => s.safetyFutures.lookup actionId ≠ none

def WaitsAt (i : ℕ) : Prop := ∃ r, s.requests[i]? = some r ∧ r.Waits

/-- An approval of the action reaches a run that waits. -/
def Aimed (actionId : Str) : Prop := ∃ i, s.registry.lookup actionId = some i ∧ s.WaitsAt i

/-- Every open action has a waiting run. -/
def Matched : Prop := ∀ actionId, s.Open actionId → s.Aimed actionId

/-- The run of a request waits, and its action is open for it. -/
def Holds (i : ℕ) : Prop :=
  ∃ r, s.requests[i]? = some r ∧ r.Waits ∧ s.registry.lookup r.actionId = some i ∧
    s.Open r.actionId

/-- The registries name the same requests, by their actions. -/
structure Linked : Prop where
  own : ∀ actionId i, s.safetyFutures.lookup actionId = some i →
    s.registry.lookup actionId = some i
  action : ∀ actionId i, s.registry.lookup actionId = some i →
    ∃ r, s.requests[i]? = some r ∧ r.actionId = actionId
  keys : ∀ g, s.gateway = some g → (g.pendingActionApprovals.map Prod.fst).Nodup

end

end ApprovalRuntime

/-- A step leaves no action open without a run that waits: where there is a gateway, no action is
listed by an evaluation alone, and no wait ends by a timeout or by the end of its execution while
its action is open; and no run is stopped while its action is open. -/
def ApprovalOp.Careful : ApprovalOp → ApprovalRuntime → Prop
  | .evaluate actionId _ _ _, s => s.gateway ≠ none → s.Aimed actionId
  | .timeout i _, s => s.gateway ≠ none → ¬ s.Holds i
  | .abandon i _, s => ¬ s.Holds i
  | .reap execId, s => s.gateway ≠ none →
    ∀ key ∈ (s.execFutureKeys.lookup execId).getD [], ∀ i, s.safetyFutures.lookup key = some i →
      ¬ s.Holds i
  | _, _ => True

namespace ApprovalRuntime

variable {s s' : ApprovalRuntime} {g g' : ApprovalGateway} {actionId : Str} {i : ℕ}
  {r r' : ApprovalRequest}

theorem registry_of_some (h : s.gateway = some g) : s.registry = g.pendingApprovals := by
  rw [registry, h]

theorem registry_of_none (h : s.gateway = none) : s.registry = s.safetyFutures := by
  rw [registry, h]

theorem open_of_some (h : s.gateway = some g) :
    s.Open actionId ↔ g.status actionId = some .pending := by
  rw [Open, h]

theorem open_of_none (h : s.gateway = none) :
    s.Open actionId ↔ s.safetyFutures.lookup actionId ≠ none := by
  rw [Open, h]

theorem Linked.eq (hs : s.Linked) (hreg : s.registry.lookup actionId = some i)
    (hr : s.requests[i]? = some r) : r.actionId = actionId := by
  obtain ⟨x, hx, haction⟩ := hs.action actionId i hreg
  rwa [Option.some.inj (hr.symm.trans hx)]

/-! ### Steps without a new request -/

/-- A step opens no action, and leaves what is left in the registries where it is. -/
structure Shrinks (s s' : ApprovalRuntime) : Prop where
  registry : ∀ actionId i, s'.registry.lookup actionId = some i →
    s.registry.lookup actionId = some i
  own : ∀ actionId i, s'.safetyFutures.lookup actionId = some i →
    s.safetyFutures.lookup actionId = some i ∧
      s'.registry.lookup actionId = s.registry.lookup actionId
  opened : ∀ actionId, s'.Open actionId →
    s.Open actionId ∧ s'.registry.lookup actionId = s.registry.lookup actionId
  action : ∀ (i : ℕ) r, s.requests[i]? = some r →
    ∃ r', s'.requests[i]? = some r' ∧ r'.actionId = r.actionId
  keys : (∀ g, s.gateway = some g → (g.pendingActionApprovals.map Prod.fst).Nodup) →
    ∀ g, s'.gateway = some g → (g.pendingActionApprovals.map Prod.fst).Nodup

namespace Shrinks

theorem refl (s : ApprovalRuntime) : Shrinks s s :=
  ⟨fun _ _ h => h, fun _ _ h => ⟨h, rfl⟩, fun _ h => ⟨h, rfl⟩, fun _ r h => ⟨r, h, rfl⟩, fun h => h⟩

theorem trans {s₁ s₂ s₃ : ApprovalRuntime} (h : Shrinks s₁ s₂) (h' : Shrinks s₂ s₃) :
    Shrinks s₁ s₃ where
  registry a i ha := h.registry a i (h'.registry a i ha)
  own a i ha := by
    obtain ⟨hown', hreg'⟩ := h'.own a i ha
    obtain ⟨hown, hreg⟩ := h.own a i hown'
    exact ⟨hown, hreg'.trans hreg⟩
  opened a ha := by
    obtain ⟨hopen', hreg'⟩ := h'.opened a ha
    obtain ⟨hopen, hreg⟩ := h.opened a hopen'
    exact ⟨hopen, hreg'.trans hreg⟩
  action i r hr := by
    obtain ⟨r₂, hr₂, haction₂⟩ := h.action i r hr
    obtain ⟨r₃, hr₃, haction₃⟩ := h'.action i r₂ hr₂
    exact ⟨r₃, hr₃, haction₃.trans haction₂⟩
  keys hk := h'.keys (h.keys hk)

theorem intro (key : Str)
    (hsafety : s'.safetyFutures = s.safetyFutures ∨ s'.safetyFutures = pop key s.safetyFutures)
    (hnone : s.gateway = none → s'.gateway = none)
    (hsome : ∀ g, s.gateway = some g → ∃ g', s'.gateway = some g' ∧
      g'.pendingApprovals = g.pendingApprovals ∧
      (∀ a, g'.status a = some .pending → g.status a = some .pending) ∧
      ((g.pendingActionApprovals.map Prod.fst).Nodup →
        (g'.pendingActionApprovals.map Prod.fst).Nodup))
    (haction : ∀ (i : ℕ) r, s.requests[i]? = some r →
      ∃ r', s'.requests[i]? = some r' ∧ r'.actionId = r.actionId) : Shrinks s s' := by
  have hlookup : ∀ a, s'.safetyFutures.lookup a ≠ none →
      s'.safetyFutures.lookup a = s.safetyFutures.lookup a := by
    intro a ha
    rcases hsafety with h | h
    · rw [h]
    · rw [h, lookup_pop] at ha ⊢
      split_ifs at ha ⊢
      · exact absurd rfl ha
      · rfl
  have hmember : ∀ a i, s'.safetyFutures.lookup a = some i → s.safetyFutures.lookup a = some i :=
    fun a i ha => (hlookup a (by rw [ha]; exact Option.some_ne_none i)).symm.trans ha
  rcases hg : s.gateway with _ | g
  · have hg' := hnone hg
    constructor
    · intro a i ha
      rw [registry_of_none hg'] at ha
      rw [registry_of_none hg]
      exact hmember a i ha
    · intro a i ha
      rw [registry_of_none hg', registry_of_none hg]
      exact ⟨hmember a i ha, ha.trans (hmember a i ha).symm⟩
    · intro a ha
      rw [open_of_none hg'] at ha
      rw [registry_of_none hg', registry_of_none hg, open_of_none hg, ← hlookup a ha]
      exact ⟨ha, rfl⟩
    · exact haction
    · intro _ g' h
      cases hg'.symm.trans h
  · obtain ⟨g', hg', hpending, hstatus, hkeys⟩ := hsome g hg
    constructor
    · intro a i ha
      rwa [registry_of_some hg', hpending, ← registry_of_some hg] at ha
    · intro a i ha
      rw [registry_of_some hg', registry_of_some hg, hpending]
      exact ⟨hmember a i ha, rfl⟩
    · intro a ha
      rw [registry_of_some hg', registry_of_some hg, hpending, open_of_some hg]
      exact ⟨hstatus a ((open_of_some hg').mp ha), rfl⟩
    · exact haction
    · intro hk x hx
      cases hg'.symm.trans hx
      exact hkeys (hk g hg)

theorem linked (h : Shrinks s s') (hs : s.Linked) : s'.Linked where
  own a i ha := by
    obtain ⟨hown, hreg⟩ := h.own a i ha
    exact hreg.trans (hs.own a i hown)
  action a i ha := by
    obtain ⟨r, hr, haction⟩ := hs.action a i (h.registry a i ha)
    obtain ⟨r', hr', haction'⟩ := h.action i r hr
    exact ⟨r', hr', haction'.trans haction⟩
  keys := h.keys hs.keys

/-- Where the runs of the actions that stay open go on waiting, the law is kept. -/
theorem matched (h : Shrinks s s') (hm : s.Matched)
    (hkeep : ∀ a i, s'.Open a → s.registry.lookup a = some i → s.WaitsAt i → s'.WaitsAt i) :
    s'.Matched := by
  intro a ha
  obtain ⟨hopen, hreg⟩ := h.opened a ha
  obtain ⟨i, hi, hwaits⟩ := hm a hopen
  exact ⟨i, hreg.trans hi, hkeep a i ha hi hwaits⟩

end Shrinks

/-! ### Calls -/

structure Settled (s s' : ApprovalRuntime) (approved : Bool) (actionId : Str) : Prop where
  shrinks : Shrinks s s'
  wasOpen : s.Open actionId
  closed : ¬ s'.Open actionId
  reached : ∀ (i : ℕ) r, s.registry.lookup actionId = some i → s.requests[i]? = some r → r.Waits →
    s'.requests[i]? = some { r with future := .result approved }
  others : ∀ i, s.registry.lookup actionId ≠ some i → s'.requests[i]? = s.requests[i]?

theorem Settled.aimed (h : Settled s s' true actionId) (hreleases : s.Releases s' actionId) :
    s.Aimed actionId := by
  obtain ⟨i, r, hr, -, hwaits, hr'⟩ := hreleases
  by_cases hi : s.registry.lookup actionId = some i
  · exact ⟨i, hi, r, hr, hwaits⟩
  · rw [h.others i hi, hr] at hr'
    have hfuture : r.future = .result true :=
      congrArg ApprovalRequest.future (Option.some.inj hr')
    cases hwaits.2.symm.trans hfuture

theorem Settled.releases (h : Settled s s' true actionId) (hs : s.Linked)
    (haimed : s.Aimed actionId) : s.Releases s' actionId := by
  obtain ⟨i, hi, r, hr, hwaits⟩ := haimed
  exact ⟨i, r, hr, hs.eq hi hr, hwaits, h.reached i r hi hr hwaits⟩

theorem Settled.matched {approved : Bool} (h : Settled s s' approved actionId) (hs : s.Linked)
    (hm : s.Matched) : s'.Matched := by
  refine h.shrinks.matched hm fun a i ha hi hwaits => ?_
  obtain ⟨r, hr, hw⟩ := hwaits
  refine ⟨r, ?_, hw⟩
  rw [h.others i fun hi' => h.closed ?_, hr]
  rwa [← (hs.eq hi' hr).symm.trans (hs.eq hi hr)] at ha

theorem setResult_of_waits {approved : Bool} (h : r.Waits) :
    r.setResult approved = { r with future := .result approved } := if_pos h.2

theorem actionId_setResult (approved : Bool) (r : ApprovalRequest) :
    (r.setResult approved).actionId = r.actionId := by
  unfold ApprovalRequest.setResult
  split_ifs <;> rfl

theorem getElem?_modify_setResult (requests : List ApprovalRequest) (i : ℕ) (approved : Bool)
    (j : ℕ) : (requests.modify i (·.setResult approved))[j]? =
      if i = j then requests[j]?.map (·.setResult approved) else requests[j]? := by
  rw [List.getElem?_modify]
  by_cases hij : i = j
  · simp [hij]
  · simp [hij]

theorem exists_modify_setResult {requests : List ApprovalRequest} {j : ℕ}
    (hr : requests[j]? = some r) (i : ℕ) (approved : Bool) :
    ∃ r', (requests.modify i (·.setResult approved))[j]? = some r' ∧ r'.actionId = r.actionId := by
  rw [getElem?_modify_setResult, hr]
  split_ifs
  · exact ⟨_, rfl, actionId_setResult _ r⟩
  · exact ⟨r, rfl, rfl⟩

theorem getElem?_popFuture (s : ApprovalRuntime) (approved : Bool) (actionId : Str) (j : ℕ) :
    (s.popFuture approved actionId).requests[j]? =
      if s.safetyFutures.lookup actionId = some j then s.requests[j]?.map (·.setResult approved)
      else s.requests[j]? := by
  unfold popFuture
  rcases s.safetyFutures.lookup actionId with _ | i
  · rfl
  · simp only [getElem?_modify_setResult, Option.some.injEq]

theorem shrinks_popFuture (s : ApprovalRuntime) (approved : Bool) (actionId : Str) :
    Shrinks s (s.popFuture approved actionId) := by
  unfold popFuture
  split
  · exact Shrinks.refl s
  next i _ =>
    exact Shrinks.intro actionId (Or.inr rfl) id (fun g hg => ⟨g, hg, rfl, fun _ h => h, id⟩)
      fun j r hr => exists_modify_setResult hr i approved

theorem gatewaySettle_spec (s : ApprovalRuntime) (approved confirmed : Bool) (actionId : Str) :
    s.gatewaySettle approved confirmed actionId = (false, s) ∨
    (s.gatewaySettle approved confirmed actionId).1 = true ∧ s.gateway ≠ none ∧
      Settled s (s.gatewaySettle approved confirmed actionId).2 approved actionId := by
  unfold gatewaySettle ApprovalGateway.settle
  rcases hg : s.gateway with _ | g
  · exact Or.inl rfl
  · rcases haction : g.pendingActionApprovals.lookup actionId with _ | action
    · exact Or.inl (by simp only [haction, ← hg])
    · simp only [haction]
      split_ifs with hpending
      · have hstatus : ∀ b, ApprovalGateway.status { g with
            pendingActionApprovals := setItem actionId
              { action with status := .ofAnswer approved } g.pendingActionApprovals } b =
              if b = actionId then some (.ofAnswer approved) else g.status b := by
          intro b
          rw [ApprovalGateway.status, ApprovalGateway.status, lookup_setItem]
          split_ifs <;> rfl
        have hne : ActionStatus.ofAnswer approved ≠ .pending := by
          unfold ActionStatus.ofAnswer
          split_ifs <;> rintro ⟨⟩
        refine Or.inr ⟨rfl, Option.some_ne_none g, ?_, ?_, ?_, ?_, ?_⟩
        · refine Shrinks.intro actionId (Or.inl rfl) (fun h => by cases hg.symm.trans h)
            (fun x hx => ?_) fun i r hr => ?_
          · cases hg.symm.trans hx
            refine ⟨_, rfl, rfl, fun b hb => ?_, fun hkeys => nodup_setItem hkeys⟩
            rw [hstatus] at hb
            split_ifs at hb
            · cases hne (Option.some.inj hb)
            · exact hb
          · dsimp only
            split
            next j _ => exact exists_modify_setResult hr j approved
            · exact ⟨r, hr, rfl⟩
        · rw [open_of_some hg, ApprovalGateway.status, haction, Option.map_some, hpending.2]
        · rw [open_of_some rfl, hstatus, if_pos rfl]
          exact fun h => hne (Option.some.inj h)
        · intro i r hi hr hwaits
          rw [registry_of_some hg] at hi
          simp only [hi]
          rw [getElem?_modify_setResult, if_pos rfl, hr, Option.map_some,
            setResult_of_waits hwaits]
        · intro i hi
          rw [registry_of_some hg] at hi
          dsimp only
          split
          next j hj =>
            rw [getElem?_modify_setResult, if_neg]
            rintro rfl
            exact hi hj
          · rfl
      · exact Or.inl (by rw [← hg])

theorem gatewaySettle_of_open (hgateway : s.gateway ≠ none) (hopen : s.Open actionId)
    (approved : Bool) : (s.gatewaySettle approved true actionId).1 = true := by
  obtain ⟨g, hg⟩ := Option.ne_none_iff_exists'.mp hgateway
  rw [open_of_some hg, ApprovalGateway.status] at hopen
  obtain ⟨action, haction, hpending⟩ := Option.map_eq_some_iff.mp hopen
  unfold gatewaySettle ApprovalGateway.settle
  simp only [hg, haction]
  rw [if_pos ⟨trivial, hpending⟩]

theorem Settled.popFuture {approved : Bool} (h : Settled s s' approved actionId) (hs : s.Linked) :
    Settled s (s'.popFuture approved actionId) approved actionId := by
  have hshrinks := shrinks_popFuture s' approved actionId
  refine ⟨h.shrinks.trans hshrinks, h.wasOpen, fun hopen => ?_, ?_, ?_⟩
  · exact h.closed (hshrinks.opened actionId hopen).1
  · intro j r hj hr hwaits
    rw [getElem?_popFuture, h.reached j r hj hr hwaits]
    split_ifs
    · rfl
    · rfl
  · intro j hj
    rw [getElem?_popFuture, if_neg, h.others j hj]
    exact fun hown => hj (hs.own actionId j (h.shrinks.own actionId j hown).1)

theorem settle_spec (hs : s.Linked) (approved confirmed : Bool) (actionId : Str) :
    s.settle approved confirmed actionId = (false, s) ∨
    (s.settle approved confirmed actionId).1 = true ∧
      Settled s (s.settle approved confirmed actionId).2 approved actionId := by
  rcases hg : s.gateway with _ | g
  · unfold settle
    simp only [hg]
    rcases hown : s.safetyFutures.lookup actionId with _ | i
    · exact Or.inl rfl
    · refine Or.inr ⟨rfl, ?_⟩
      have hreg := hs.own actionId i hown
      refine ⟨shrinks_popFuture s approved actionId, ?_, fun hopen => ?_, ?_, ?_⟩
      · rw [open_of_none hg, hown]
        exact Option.some_ne_none i
      · have hclosed : (s.popFuture approved actionId).safetyFutures.lookup actionId = none := by
          simp [popFuture, hown]
        have hgateway : (s.popFuture approved actionId).gateway = none := by
          simp [popFuture, hown, hg]
        exact (open_of_none hgateway).mp hopen hclosed
      · intro j r hj hr hwaits
        obtain rfl := Option.some.inj (hreg.symm.trans hj)
        rw [getElem?_popFuture, if_pos hown, hr, Option.map_some, setResult_of_waits hwaits]
      · intro j hj
        rw [getElem?_popFuture, if_neg fun h => hj (hs.own actionId j h)]
  · have hsettle : s.settle approved confirmed actionId =
        if (s.gatewaySettle approved confirmed actionId).1 then
          (true, (s.gatewaySettle approved confirmed actionId).2.popFuture approved actionId)
        else (false, (s.gatewaySettle approved confirmed actionId).2) := by
      unfold settle
      simp only [hg]
    rw [hsettle]
    rcases gatewaySettle_spec s approved confirmed actionId with hno | ⟨hok, -, hsettled⟩
    · exact Or.inl (by rw [hno]; rfl)
    · rw [if_pos hok]
      exact Or.inr ⟨rfl, hsettled.popFuture hs⟩

theorem settle_of_open (hopen : s.Open actionId) (approved : Bool) :
    (s.settle approved true actionId).1 = true := by
  unfold settle
  rcases hg : s.gateway with _ | g
  · rw [open_of_none hg] at hopen
    obtain ⟨i, hi⟩ := Option.ne_none_iff_exists'.mp hopen
    simp only [hi]
  · have hok := gatewaySettle_of_open (by rw [hg]; exact Option.some_ne_none g) hopen approved
    dsimp only
    rw [if_pos hok]

/-! ### The law and the registries -/

theorem Aimed.not_ended (hs : s.Linked) (h : s.Aimed actionId) : ¬ s.Ended actionId := by
  rintro ⟨-, hnone⟩
  obtain ⟨i, hi, r, hr, hwaits⟩ := h
  exact hnone ⟨r, List.mem_of_getElem? hr, hs.eq hi hr, hwaits⟩

/-- The registries say what they should exactly if every open action has a waiting run. -/
theorem lawful_iff_matched (hs : s.Linked) : s.Lawful ↔ s.Matched := by
  constructor
  · intro h a hopen
    have hok := settle_of_open hopen true
    rcases settle_spec hs true true a with hno | ⟨-, hsettled⟩
    · rw [hno] at hok
      cases hok
    · exact hsettled.aimed (h.releases a true hok)
  · intro h
    constructor
    · intro a hended hlisted
      obtain ⟨m, hm, rfl⟩ := List.mem_map.mp hlisted
      rcases hg : s.gateway with _ | g
      · rw [getPendingActions, hg] at hm
        cases hm
      · rw [getPendingActions, hg] at hm
        obtain ⟨hmem, hpending⟩ := List.mem_filter.mp hm
        refine (h m.1 ?_).not_ended hs hended
        rw [open_of_some hg, ApprovalGateway.status, lookup_of_mem (hs.keys g hg) hmem,
          Option.map_some, of_decide_eq_true hpending]
    · intro a confirmed hended
      constructor
      · rcases settle_spec hs true confirmed a with hno | ⟨-, hsettled⟩
        · exact congrArg Prod.fst hno
        · exact absurd hended ((h a hsettled.wasOpen).not_ended hs)
      · rcases gatewaySettle_spec s true confirmed a with hno | ⟨-, -, hsettled⟩
        · exact congrArg Prod.fst hno
        · exact absurd hended ((h a hsettled.wasOpen).not_ended hs)
    · intro a confirmed hok
      rcases settle_spec hs true confirmed a with hno | ⟨-, hsettled⟩
      · cases hok.symm.trans (congrArg Prod.fst hno)
      · exact hsettled.releases hs (h a hsettled.wasOpen)
    · intro a confirmed hok
      rcases gatewaySettle_spec s true confirmed a with hno | ⟨-, -, hsettled⟩
      · cases hok.symm.trans (congrArg Prod.fst hno)
      · exact hsettled.releases hs (h a hsettled.wasOpen)

/-! ### The other steps -/

theorem linked_evaluate (hs : s.Linked) (actionId category level : Str) (subject : ActionSubject) :
    Linked { s with gateway := s.gateway.map (·.register actionId category level subject) } := by
  rcases hg : s.gateway with _ | g
  · rw [Option.map_none, ← hg]
    exact hs
  · have hreg : registry { s with
        gateway := some (g.register actionId category level subject) } = s.registry := by
      rw [registry_of_some hg]
      rfl
    refine ⟨fun a i ha => ?_, fun a i ha => ?_, fun g' hg' => ?_⟩
    · rw [Option.map_some, hreg]
      exact hs.own a i ha
    · rw [Option.map_some, hreg] at ha
      exact hs.action a i ha
    · cases hg'
      exact nodup_setItem (hs.keys g hg)

theorem matched_evaluate (hm : s.Matched) (actionId category level : Str)
    (subject : ActionSubject) :
    Matched { s with gateway := s.gateway.map (·.register actionId category level subject) } ↔
      (s.gateway ≠ none → s.Aimed actionId) := by
  rcases hg : s.gateway with _ | g
  · refine iff_of_true ?_ fun h => absurd rfl h
    rw [Option.map_none, ← hg]
    exact hm
  · have hreg : registry { s with
        gateway := some (g.register actionId category level subject) } = s.registry := by
      rw [registry_of_some hg]
      rfl
    have hopen : ∀ a, Open { s with
        gateway := some (g.register actionId category level subject) } a ↔
          a = actionId ∨ s.Open a := by
      intro a
      rw [open_of_some rfl, open_of_some hg, ApprovalGateway.status, ApprovalGateway.register,
        lookup_setItem]
      split_ifs with ha
      · exact iff_of_true rfl (Or.inl ha)
      · exact (or_iff_right ha).symm
    have haimed : ∀ a, Aimed { s with
        gateway := some (g.register actionId category level subject) } a ↔ s.Aimed a := by
      intro a
      rw [Aimed, hreg]
      exact Iff.rfl
    rw [Option.map_some]
    constructor
    · intro h _
      exact (haimed actionId).mp (h actionId ((hopen actionId).mpr (Or.inl rfl)))
    · intro h a ha
      rcases (hopen a).mp ha with rfl | ha
      · exact (haimed a).mpr (h (Option.some_ne_none g))
      · exact (haimed a).mpr (hm a ha)

theorem getElem?_set_of_some (hr : s.requests[i]? = some r) (r' : ApprovalRequest) (j : ℕ) :
    (s.requests.set i r')[j]? = if i = j then some r' else s.requests[j]? := by
  rw [List.getElem?_set]
  split_ifs with hij hlen
  · rfl
  · exact absurd (List.getElem?_eq_some_iff.mp hr).1 hlen
  · rfl

theorem shrinks_leave (hr : s.requests[i]? = some r) (haction : r'.actionId = r.actionId)
    (drop : Bool) : Shrinks s (s.leave i r' drop) := by
  refine Shrinks.intro r'.actionId ?_ id (fun g hg => ?_) fun j x hx => ?_
  · change (if drop then _ else _) = _ ∨ (if drop then _ else _) = _
    split_ifs
    · exact Or.inr rfl
    · exact Or.inl rfl
  · exact ⟨g, hg, rfl, fun _ h => h, id⟩
  · change ∃ x', (s.requests.set i r')[j]? = some x' ∧ _
    rw [getElem?_set_of_some hr]
    split_ifs with hij
    · subst hij
      cases hr.symm.trans hx
      exact ⟨r', rfl, haction⟩
    · exact ⟨x, hx, rfl⟩

theorem matched_leave (hs : s.Linked) (hm : s.Matched) (hr : s.requests[i]? = some r)
    (haction : r'.actionId = r.actionId) (hended : ¬ r'.Waits) (drop : Bool) :
    (s.leave i r' drop).Matched ↔ (drop = true → s.gateway ≠ none) → ¬ s.Holds i := by
  have hshrinks := shrinks_leave hr haction drop
  constructor
  · rintro h hdrop ⟨x, hx, hwaits, hreg, hopen⟩
    obtain rfl := Option.some.inj (hr.symm.trans hx)
    have hsame : (s.leave i r' drop).registry = s.registry ∧
        ((s.leave i r' drop).Open r.actionId ↔ s.Open r.actionId) := by
      rcases hg : s.gateway with _ | g
      · have hkeep : drop = false := Bool.eq_false_iff.mpr fun h => hdrop h hg
        have hgateway : (s.leave i r' drop).gateway = none := hg
        rw [registry_of_none hgateway, registry_of_none hg, open_of_none hgateway,
          open_of_none hg, hkeep]
        exact ⟨rfl, Iff.rfl⟩
      · have hgateway : (s.leave i r' drop).gateway = some g := hg
        rw [registry_of_some hgateway, registry_of_some hg, open_of_some hgateway,
          open_of_some hg]
        exact ⟨rfl, Iff.rfl⟩
    obtain ⟨j, hj, y, hy, hywaits⟩ := h r.actionId (hsame.2.mpr hopen)
    rw [hsame.1, hreg] at hj
    cases hj
    change (s.requests.set i r')[i]? = some y at hy
    rw [getElem?_set_of_some hr, if_pos rfl] at hy
    exact hended (Option.some.inj hy ▸ hywaits)
  · intro h
    refine hshrinks.matched hm fun a j ha hj hwaits => ?_
    obtain ⟨x, hx, hxwaits⟩ := hwaits
    have hne : i ≠ j := by
      rintro rfl
      obtain rfl := Option.some.inj (hr.symm.trans hx)
      have hra := hs.eq hj hr
      refine h (fun hdrop hg => ?_) ⟨r, hr, hxwaits, hra ▸ hj, hra ▸ (hshrinks.opened a ha).1⟩
      -- the entry that is dropped is that of the action
      have hgateway : (s.leave i r' drop).gateway = none := hg
      rw [open_of_none hgateway] at ha
      refine ha ?_
      change (if drop then pop r'.actionId s.safetyFutures else s.safetyFutures).lookup a = none
      rw [if_pos hdrop, lookup_pop, if_pos (hra.symm.trans haction.symm)]
    refine ⟨x, ?_, hxwaits⟩
    change (s.requests.set i r')[j]? = some x
    rw [getElem?_set_of_some hr, if_neg hne, hx]

theorem not_holds (hr : s.requests[i]? = some r) (hwaits : ¬ r.Waits) : ¬ s.Holds i := by
  rintro ⟨x, hx, hxwaits, -⟩
  exact hwaits (Option.some.inj (hr.symm.trans hx) ▸ hxwaits)

theorem not_holds_of_none (hr : s.requests[i]? = none) : ¬ s.Holds i := by
  rintro ⟨x, hx, -⟩
  cases hr.symm.trans hx

theorem resume_spec (s : ApprovalRuntime) (i : ℕ) : s.resume i = s ∨
    ∃ r r' drop, s.requests[i]? = some r ∧ ¬ r.Waits ∧ r'.actionId = r.actionId ∧ ¬ r'.Waits ∧
      s.resume i = s.leave i r' drop := by
  unfold resume
  rcases hr : s.requests[i]? with _ | r
  · exact Or.inl rfl
  · have hended : ¬ ({ r with stage := .ended } : ApprovalRequest).Waits := fun h => by cases h.1
    dsimp only
    split
    next hfuture =>
      refine Or.inr ⟨r, { r with stage := .ended }, true, rfl, fun h => ?_, rfl, hended, rfl⟩
      cases hfuture.symm.trans h.2
    next hfuture =>
      refine Or.inr ⟨r, { r with stage := .ended }, false, rfl, fun h => ?_, rfl, hended, rfl⟩
      cases hfuture.symm.trans h.2
    next hstage =>
      refine Or.inr ⟨r, { r with stage := .ended }, true, rfl, fun h => ?_, rfl, hended, rfl⟩
      cases hstage.symm.trans h.1
    · exact Or.inl rfl

theorem actionId_cancel (r : ApprovalRequest) : r.cancel.actionId = r.actionId := by
  unfold ApprovalRequest.cancel
  split_ifs <;> rfl

theorem timeout_spec (s : ApprovalRuntime) (i : ℕ) (approve : Bool) :
    (s.timeout i approve = s ∧ ¬ s.Holds i) ∨
    ∃ r r', s.requests[i]? = some r ∧ r'.actionId = r.actionId ∧ ¬ r'.Waits ∧
      s.timeout i approve = s.leave i r' true := by
  unfold timeout
  rcases hr : s.requests[i]? with _ | r
  · exact Or.inl ⟨rfl, not_holds_of_none hr⟩
  · dsimp only
    split_ifs with hstage happrove
    · exact Or.inr ⟨r, { r.cancel with stage := .autoApproved }, rfl, actionId_cancel r,
        fun h => (by cases h.1), rfl⟩
    · exact Or.inr ⟨r, { r.cancel with stage := .ended }, rfl, actionId_cancel r,
        fun h => (by cases h.1), rfl⟩
    · exact Or.inl ⟨rfl, not_holds hr fun h => hstage h.1⟩

theorem abandon_spec (s : ApprovalRuntime) (i : ℕ) (inWait : Bool) :
    (s.abandon i inWait = s ∧ ¬ s.Holds i) ∨
    ∃ r r', s.requests[i]? = some r ∧ r'.actionId = r.actionId ∧ ¬ r'.Waits ∧
      s.abandon i inWait = s.leave i r' false := by
  unfold abandon
  rcases hr : s.requests[i]? with _ | r
  · exact Or.inl ⟨rfl, not_holds_of_none hr⟩
  · refine Or.inr ⟨r, { (if inWait then r.cancel else r) with stage := .ended }, rfl, ?_,
      fun h => (by cases h.1), rfl⟩
    change (if inWait then r.cancel else r).actionId = _
    split_ifs
    · exact actionId_cancel r
    · rfl

/-! ### The end of an execution -/

theorem not_waits_cancel (r : ApprovalRequest) : ¬ r.cancel.Waits := by
  unfold ApprovalRequest.cancel
  split_ifs with h
  · exact fun hwaits => by cases hwaits.2
  · exact fun hwaits => h hwaits.2

theorem gateway_reapKey (s : ApprovalRuntime) (key : Str) :
    (s.reapKey key).gateway = s.gateway := by
  unfold reapKey
  split <;> rfl

theorem lookup_reapKey (s : ApprovalRuntime) (key a : Str) :
    (s.reapKey key).safetyFutures.lookup a =
      if a = key then none else s.safetyFutures.lookup a := by
  unfold reapKey
  split
  next h =>
    split_ifs with ha
    · rw [ha, h]
    · rfl
  next i h => exact lookup_pop key a s.safetyFutures

theorem getElem?_reapKey (s : ApprovalRuntime) (key : Str) (i : ℕ) :
    (s.reapKey key).requests[i]? =
      if s.safetyFutures.lookup key = some i then s.requests[i]?.map ApprovalRequest.cancel
      else s.requests[i]? := by
  unfold reapKey
  split
  next h => rw [h, if_neg (by rintro ⟨⟩)]
  next j h =>
    rw [h, List.getElem?_modify]
    by_cases hij : j = i
    · rw [if_pos (congrArg some hij)]
      simp [hij]
    · rw [if_neg fun h => hij (Option.some.inj h)]
      simp [hij]

theorem shrinks_reapKey (s : ApprovalRuntime) (key : Str) : Shrinks s (s.reapKey key) := by
  refine Shrinks.intro key ?_ (fun h => (gateway_reapKey s key).trans h)
    (fun g hg => ?_) fun i r hr => ?_
  · unfold reapKey
    split
    · exact Or.inl rfl
    · exact Or.inr rfl
  · exact ⟨g, (gateway_reapKey s key).trans hg, rfl, fun _ h => h, id⟩
  · rw [getElem?_reapKey, hr]
    split_ifs
    · exact ⟨_, rfl, actionId_cancel r⟩
    · exact ⟨r, rfl, rfl⟩

/-- What the loop over the keys of an execution does. -/
structure Reaped (keys : List Str) (s s' : ApprovalRuntime) : Prop where
  shrinks : Shrinks s s'
  gateway : s'.gateway = s.gateway
  dropped : ∀ key ∈ keys, s'.safetyFutures.lookup key = none
  kept : ∀ i, (∀ key ∈ keys, s.safetyFutures.lookup key ≠ some i) →
    s'.requests[i]? = s.requests[i]?
  stopped : ∀ key ∈ keys, ∀ i, s.safetyFutures.lookup key = some i → ¬ s'.WaitsAt i
  waits : ∀ i, s'.WaitsAt i → s.WaitsAt i

theorem reaped_foldl (keys : List Str) (s : ApprovalRuntime) :
    Reaped keys s (keys.foldl reapKey s) := by
  induction keys generalizing s with
  | nil =>
    refine ⟨Shrinks.refl s, rfl, ?_, fun _ _ => rfl, ?_, fun _ h => h⟩
    · exact List.forall_mem_nil _
    · exact List.forall_mem_nil _
  | cons key keys ih =>
    have hrest := ih (s.reapKey key)
    have hwaits : ∀ i, (s.reapKey key).WaitsAt i →
        s.WaitsAt i ∧ s.safetyFutures.lookup key ≠ some i := by
      rintro i ⟨r, hr, hr'⟩
      rw [getElem?_reapKey] at hr
      split_ifs at hr with hi
      · obtain ⟨x, -, rfl⟩ := Option.map_eq_some_iff.mp hr
        exact absurd hr' (not_waits_cancel x)
      · exact ⟨⟨r, hr, hr'⟩, hi⟩
    refine ⟨(shrinks_reapKey s key).trans hrest.shrinks,
      hrest.gateway.trans (gateway_reapKey s key), ?_, ?_, ?_, ?_⟩
    · intro k hk
      rcases List.mem_cons.mp hk with rfl | hk
      · refine Option.eq_none_iff_forall_ne_some.mpr fun i hi => ?_
        have hown := (hrest.shrinks.own k i hi).1
        rw [lookup_reapKey, if_pos rfl] at hown
        cases hown
      · exact hrest.dropped k hk
    · intro i hi
      rw [List.foldl_cons, hrest.kept i, getElem?_reapKey, if_neg (hi key List.mem_cons_self)]
      intro k hk
      rw [lookup_reapKey]
      split_ifs
      · rintro ⟨⟩
      · exact hi k (List.mem_cons_of_mem key hk)
    · intro k hk i hi hafter
      obtain ⟨-, hne⟩ := hwaits i (hrest.waits i hafter)
      rcases List.mem_cons.mp hk with rfl | hk
      · exact hne hi
      · refine hrest.stopped k hk i ?_ hafter
        rw [lookup_reapKey, if_neg, hi]
        rintro rfl
        exact hne hi
    · exact fun i h => (hwaits i (hrest.waits i h)).1

theorem reaped_reap (s : ApprovalRuntime) (execId : Str) :
    Reaped ((s.execFutureKeys.lookup execId).getD []) s (s.reap execId) := by
  have h := reaped_foldl ((s.execFutureKeys.lookup execId).getD [])
    { s with execFutureKeys := pop execId s.execFutureKeys }
  exact ⟨⟨h.shrinks.registry, h.shrinks.own, h.shrinks.opened, h.shrinks.action, h.shrinks.keys⟩,
    h.gateway, h.dropped, h.kept, h.stopped, h.waits⟩

/-- Where the futures of an execution are dropped, its actions must not stay open for them. -/
theorem Reaped.matched_iff {keys : List Str} (h : Reaped keys s s') (hs : s.Linked)
    (hm : s.Matched) :
    s'.Matched ↔ (s.gateway ≠ none → ∀ key ∈ keys, ∀ i, s.safetyFutures.lookup key = some i →
      ¬ s.Holds i) := by
  constructor
  · rintro hm' hgateway key hkey i hi ⟨r, hr, -, hreg, hopen⟩
    obtain ⟨g, hg⟩ := Option.ne_none_iff_exists'.mp hgateway
    have hg' := h.gateway.trans hg
    rw [open_of_some hg, ← open_of_some hg'] at hopen
    obtain ⟨j, hj, hwaits⟩ := hm' r.actionId hopen
    rw [(h.shrinks.opened r.actionId hopen).2, hreg] at hj
    exact h.stopped key hkey i hi (Option.some.inj hj ▸ hwaits)
  · intro hholds
    refine h.shrinks.matched hm fun a j ha hj hwaits => ?_
    obtain ⟨r, hr, hrwaits⟩ := hwaits
    refine ⟨r, (h.kept j fun key hkey hown => ?_).trans hr, hrwaits⟩
    -- a future that is dropped is that of the open action itself
    have hka : key = a := (hs.eq (hs.own key j hown) hr).symm.trans (hs.eq hj hr)
    subst hka
    rcases hg : s.gateway with _ | g
    · rw [open_of_none (h.gateway.trans hg)] at ha
      exact ha (h.dropped key hkey)
    · refine hholds (by rw [hg]; exact Option.some_ne_none g) key hkey j hown ⟨r, hr, hrwaits, ?_⟩
      rw [hs.eq hj hr]
      exact ⟨hj, (h.shrinks.opened key ha).1⟩

/-! ### Requests -/

theorem register_frame (g : ApprovalGateway) (actionId category level : Str)
    (subject : ActionSubject) :
    (∀ a, a ≠ actionId → (g.register actionId category level subject).status a = g.status a) ∧
      ((g.pendingActionApprovals.map Prod.fst).Nodup →
        ((g.register actionId category level subject).pendingActionApprovals.map
          Prod.fst).Nodup) :=
  ⟨fun _ ha => congrArg _ ((lookup_setItem _ _ _ _).trans (if_neg ha)), nodup_setItem⟩

variable {q : ApprovalCall}

theorem gateway_request (hg : s.gateway = some g) :
    ∃ g', (s.request q).gateway = some g' ∧
      g'.pendingApprovals = setItem q.actionId s.requests.length g.pendingApprovals ∧
      (∀ a, a ≠ q.actionId → g'.status a = g.status a) ∧
      ((g.pendingActionApprovals.map Prod.fst).Nodup →
        (g'.pendingActionApprovals.map Prod.fst).Nodup) := by
  have hlisted : (q.listed g).pendingApprovals = g.pendingApprovals ∧
      (∀ a, a ≠ q.actionId → (q.listed g).status a = g.status a) ∧
      ((g.pendingActionApprovals.map Prod.fst).Nodup →
        ((q.listed g).pendingActionApprovals.map Prod.fst).Nodup) := by
    unfold ApprovalCall.listed
    split
    · exact ⟨rfl, register_frame g _ _ _ _⟩
    · exact ⟨rfl, fun _ _ => rfl, id⟩
  obtain ⟨hpending, hstatus, hkeys⟩ := hlisted
  refine ⟨(q.listed g).request q s.requests.length,
    congrArg (Option.map fun g => (q.listed g).request q s.requests.length) hg,
    congrArg _ hpending, ?_, ?_⟩
  · intro a ha
    rw [← hstatus a ha]
    change (List.lookup a (if (q.listed g).status q.actionId = none then _
      else q.listed g).pendingActionApprovals).map _ = _
    split_ifs
    · exact (register_frame (q.listed g) _ _ _ _).1 a ha
    · rfl
  · intro h
    change ((if (q.listed g).status q.actionId = none then _
      else q.listed g).pendingActionApprovals.map Prod.fst).Nodup
    split_ifs
    · exact (register_frame (q.listed g) _ _ _ _).2 (hkeys h)
    · exact hkeys h

theorem gateway_request_none (hg : s.gateway = none) : (s.request q).gateway = none :=
  congrArg (Option.map _) hg

theorem registry_request (s : ApprovalRuntime) (q : ApprovalCall) (a : Str) :
    (s.request q).registry.lookup a =
      if a = q.actionId then some s.requests.length else s.registry.lookup a := by
  rcases hg : s.gateway with _ | g
  · rw [registry_of_none (gateway_request_none hg), registry_of_none hg]
    exact lookup_setItem _ _ _ _
  · obtain ⟨g', hg', hpending, -, -⟩ := gateway_request (q := q) hg
    rw [registry_of_some hg', registry_of_some hg, hpending]
    exact lookup_setItem _ _ _ _

theorem open_request {a : Str} (ha : a ≠ q.actionId) : (s.request q).Open a ↔ s.Open a := by
  rcases hg : s.gateway with _ | g
  · rw [open_of_none (gateway_request_none hg), open_of_none hg]
    change (setItem q.actionId _ s.safetyFutures).lookup a ≠ none ↔ _
    rw [lookup_setItem, if_neg ha]
  · obtain ⟨g', hg', -, hstatus, -⟩ := gateway_request (q := q) hg
    rw [open_of_some hg', open_of_some hg, hstatus a ha]

theorem getElem?_request (hr : s.requests[i]? = some r) :
    (s.request q).requests[i]? = some r :=
  (List.getElem?_append_left (List.getElem?_eq_some_iff.mp hr).1).trans hr

theorem linked_request (hs : s.Linked) (q : ApprovalCall) : (s.request q).Linked := by
  refine ⟨fun a i ha => ?_, fun a i ha => ?_, fun g' hg' => ?_⟩
  · change (setItem q.actionId _ s.safetyFutures).lookup a = some i at ha
    rw [lookup_setItem] at ha
    rw [registry_request]
    split_ifs at ha ⊢
    · exact ha
    · exact hs.own a i ha
  · rw [registry_request] at ha
    split_ifs at ha with haction
    · cases ha
      exact ⟨_, List.getElem?_concat_length, haction.symm⟩
    · obtain ⟨r, hr, hra⟩ := hs.action a i ha
      exact ⟨r, getElem?_request hr, hra⟩
  · rcases hg : s.gateway with _ | g
    · cases (gateway_request_none hg).symm.trans hg'
    · obtain ⟨x, hx, -, -, hkeys⟩ := gateway_request (q := q) hg
      cases hx.symm.trans hg'
      exact hkeys (hs.keys g hg)

theorem matched_request (hm : s.Matched) (q : ApprovalCall) : (s.request q).Matched := by
  intro a ha
  by_cases haction : a = q.actionId
  · refine ⟨s.requests.length, by rw [registry_request, if_pos haction], ?_⟩
    exact ⟨_, List.getElem?_concat_length, rfl, rfl⟩
  · obtain ⟨i, hi, r, hr, hwaits⟩ := hm a ((open_request haction).mp ha)
    exact ⟨i, by rw [registry_request, if_neg haction, hi], r, getElem?_request hr, hwaits⟩

end ApprovalRuntime

/-! ### Runs -/

open ApprovalRuntime

theorem linked_approvalStep (op : ApprovalOp) (s : ApprovalRuntime) (hs : s.Linked) :
    (approvalStep op s).2.Linked := by
  cases op with
  | evaluate actionId category level subject =>
    exact linked_evaluate hs actionId category level subject
  | request q => exact linked_request hs q
  | registerPlan execId planId => exact ⟨hs.own, hs.action, hs.keys⟩
  | settle approved confirmed actionId =>
    change (s.settle approved confirmed actionId).2.Linked
    rcases settle_spec hs approved confirmed actionId with hno | ⟨-, hsettled⟩
    · rwa [hno]
    · exact hsettled.shrinks.linked hs
  | gatewaySettle approved confirmed actionId =>
    change (s.gatewaySettle approved confirmed actionId).2.Linked
    rcases gatewaySettle_spec s approved confirmed actionId with hno | ⟨-, -, hsettled⟩
    · rwa [hno]
    · exact hsettled.shrinks.linked hs
  | resume i =>
    change (s.resume i).Linked
    rcases resume_spec s i with hno | ⟨r, r', drop, hr, -, haction, -, heq⟩
    · rwa [hno]
    · exact heq ▸ (shrinks_leave hr haction drop).linked hs
  | timeout i approve =>
    change (s.timeout i approve).Linked
    rcases timeout_spec s i approve with ⟨hno, -⟩ | ⟨r, r', hr, haction, -, heq⟩
    · rwa [hno]
    · exact heq ▸ (shrinks_leave hr haction true).linked hs
  | abandon i inWait =>
    change (s.abandon i inWait).Linked
    rcases abandon_spec s i inWait with ⟨hno, -⟩ | ⟨r, r', hr, haction, -, heq⟩
    · rwa [hno]
    · exact heq ▸ (shrinks_leave hr haction false).linked hs
  | reap execId => exact (reaped_reap s execId).shrinks.linked hs

theorem matched_approvalStep (op : ApprovalOp) {s : ApprovalRuntime} (hs : s.Linked)
    (hm : s.Matched) : (approvalStep op s).2.Matched ↔ op.Careful s := by
  cases op with
  | evaluate actionId category level subject =>
    exact matched_evaluate hm actionId category level subject
  | request q => exact iff_of_true (matched_request hm q) trivial
  | registerPlan execId planId => exact iff_of_true hm trivial
  | settle approved confirmed actionId =>
    refine iff_of_true ?_ trivial
    change (s.settle approved confirmed actionId).2.Matched
    rcases settle_spec hs approved confirmed actionId with hno | ⟨-, hsettled⟩
    · rwa [hno]
    · exact hsettled.matched hs hm
  | gatewaySettle approved confirmed actionId =>
    refine iff_of_true ?_ trivial
    change (s.gatewaySettle approved confirmed actionId).2.Matched
    rcases gatewaySettle_spec s approved confirmed actionId with hno | ⟨-, -, hsettled⟩
    · rwa [hno]
    · exact hsettled.matched hs hm
  | resume i =>
    refine iff_of_true ?_ trivial
    change (s.resume i).Matched
    rcases resume_spec s i with hno | ⟨r, r', drop, hr, hwaits, haction, hended, heq⟩
    · rwa [hno]
    · rw [heq, matched_leave hs hm hr haction hended]
      exact fun _ => not_holds hr hwaits
  | timeout i approve =>
    change (s.timeout i approve).Matched ↔ (s.gateway ≠ none → ¬ s.Holds i)
    rcases timeout_spec s i approve with ⟨hno, hholds⟩ | ⟨r, r', hr, haction, hended, heq⟩
    · rw [hno]
      exact iff_of_true hm fun _ => hholds
    · rw [heq, matched_leave hs hm hr haction hended]
      exact ⟨fun h hgateway => h fun _ => hgateway, fun h hgateway => h (hgateway rfl)⟩
  | abandon i inWait =>
    change (s.abandon i inWait).Matched ↔ ¬ s.Holds i
    rcases abandon_spec s i inWait with ⟨hno, hholds⟩ | ⟨r, r', hr, haction, hended, heq⟩
    · rw [hno]
      exact iff_of_true hm hholds
    · rw [heq, matched_leave hs hm hr haction hended]
      exact ⟨fun h => h (by rintro ⟨⟩), fun h _ => h⟩
  | reap execId => exact (reaped_reap s execId).matched_iff hs hm

theorem linked_opened (gateway : Bool) : (ApprovalRuntime.opened gateway).Linked := by
  cases gateway with
  | false => exact ⟨fun _ _ h => (by cases h), fun _ _ h => (by cases h), fun _ h => (by cases h)⟩
  | true =>
    refine ⟨fun _ _ h => (by cases h), fun _ _ h => (by cases h), fun g hg => ?_⟩
    cases hg
    exact List.nodup_nil

theorem matched_opened (gateway : Bool) : (ApprovalRuntime.opened gateway).Matched := by
  cases gateway with
  | false => exact fun _ h => absurd rfl h
  | true => exact fun _ h => (by cases h)

/-- **Pending actions.** In every run, in whatever order approvals, rejections, timeouts, ends of
runs and everything else come, the registries say what they should throughout exactly if every step
is careful. -/
theorem approvals_iff_careful (gateway : Bool) (ops : List ApprovalOp) :
    (∀ n, (run approvalStep (ops.take n) (.opened gateway)).2.Lawful) ↔
      Along approvalStep ApprovalOp.Careful ops (.opened gateway) := by
  have hlinked := linked_opened gateway
  have hopened : (ApprovalRuntime.opened gateway).Lawful :=
    (lawful_iff_matched hlinked).mpr (matched_opened gateway)
  refine (run_throughout_iff linked_approvalStep (fun op s hs hlawful => ?_) ops hlinked).trans
    (and_iff_right hopened)
  rw [lawful_iff_matched (linked_approvalStep op s hs)]
  exact matched_approvalStep op hs ((lawful_iff_matched hs).mp hlawful)

def unanswered : List ApprovalOp :=
  [.request ⟨"s", "a", "llm_call", "L2", "r", none⟩,
    .timeout 0 false]

theorem not_approvals : ¬ ∀ (gateway : Bool) (ops : List ApprovalOp) (n : ℕ),
    (run approvalStep (ops.take n) (.opened gateway)).2.Lawful := by
  intro h
  refine (h true unanswered 2).unlisted "a" ⟨⟨_, List.mem_cons_self, rfl⟩, ?_⟩
    List.mem_cons_self
  rintro ⟨r, hr, -, hwaits⟩
  cases List.mem_singleton.mp hr
  cases hwaits.1

end AgentStudio.Runtime

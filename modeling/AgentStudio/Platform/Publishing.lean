import AgentStudio.Platform.Door
import Mathlib.Data.Set.Finite.Lattice

/-!
# Calls and the publish registry

A mutation should be queued only for an agent that the publish registry lists, and two bodies which
differ in nothing but the version, the publisher and the role that the client asserts should be
decided alike and leave the same records: the audit entry, and the request with its version and
publisher.

The door takes the version from the body, and the publisher too where the registry has none, and
it records both as the body has them. `queuesListed_iff` and `sameRecords_iff` are the exact
conditions on the state and the bodies, and `callContract_iff` is both, in every state that a
history of publishing, calls and approvals reaches.
-/

namespace AgentStudio.Platform

open PyText PyJson PyDict Rows Machine

/-! ### Conditions -/

def Door.Listed (s : Door) (agentId : Str) : Prop := (s.registry.lookup agentId).isSome

/-- The call is a mutation that is queued for approval. -/
def Door.Queues (s : Door) (b : Body) : Prop :=
  ∃ args, b.args = some args ∧ s.judge b args = .ok .queue

/-- The capability of a call, if it is a mutation that is enabled. -/
def Door.Mutation (s : Door) (b : Body) (cap : Capability) : Prop :=
  getCapability s.capabilities b.capabilityId = some cap ∧ cap.status = activeStatus ∧
    cap.mutation = true

/-- Two bodies leave the same records, whatever identifier and time the call takes. -/
def Door.SameRecords (s : Door) (b b' : Body) : Prop :=
  ∀ approvalId now, (s.call b approvalId now).2 = (s.call b' approvalId now).2

/-- A call for an agent that is not listed, and that is a mutation with arguments that pass, has no
version, no publisher, or one without a write role. -/
def Door.Guarded (s : Door) (b : Body) : Prop :=
  ¬ s.Listed b.agent → ∀ args cap, b.args = some args → s.Mutation b cap →
    validateParams cap args = [] →
    b.versionNumber < 1 ∨ b.publisher = [] ∨ s.roleOf b.publisher ∉ writeRoles

/-- The two bodies assert the same publisher, and for a mutation that the publisher may make also
versions that are both below 1, or else equal if the arguments pass. -/
def Door.SameAuthority (s : Door) (b b' : Body) : Prop :=
  ∀ args, b.args = some args → b.publisher = b'.publisher ∧
    ∀ cap, s.Mutation b cap → s.publisherRole b.agent b.publisher ∈ writeRoles →
      (b.versionNumber < 1 ↔ b'.versionNumber < 1) ∧
        (1 ≤ b.versionNumber → validateParams cap args = [] → b.versionNumber = b'.versionNumber)

variable {s : Door} {b b' : Body} {args : Dict} {cap : Capability} {agentId : Str}

/-! ### What is queued -/

theorem judge_eq_queue_iff : s.judge b args = .ok .queue ↔ ∃ cap, s.Mutation b cap ∧
    1 ≤ b.versionNumber ∧ s.publisherRole b.agent b.publisher ∈ writeRoles ∧
      validateParams cap args = [] := by
  unfold Door.judge Door.Mutation
  cases hcap : getCapability s.capabilities b.capabilityId with
  | none => simp
  | some cap =>
    simp only [Option.some.injEq, exists_eq_left', and_assoc]
    by_cases hactive : cap.status = activeStatus
    · by_cases hmutation : cap.mutation = true
      · by_cases hversion : b.versionNumber < 1
        · simp [hactive, hmutation, hversion]
        · by_cases hrole : s.publisherRole b.agent b.publisher ∈ writeRoles
          · by_cases herrors : validateParams cap args = []
            · simp [hactive, hmutation, hversion, hrole, herrors, not_lt.mp hversion]
            · simp [hactive, hmutation, hversion, hrole, herrors]
          · simp [hactive, hmutation, hversion, hrole]
      · by_cases herrors : validateParams cap args = []
        · simp [hactive, hmutation, herrors]
        · simp [hactive, hmutation, herrors]
    · simp [hactive]

theorem effectivePublisher_of_not_listed (h : ¬ s.Listed agentId) (publisher : Str) :
    s.effectivePublisher agentId publisher = publisher := by
  rw [Door.effectivePublisher, Option.not_isSome_iff_eq_none.mp h]

/-- A mutation is queued only for a listed agent exactly if something else holds it up where the
agent is not listed. -/
theorem queuesListed_iff (b : Body) : (s.Queues b → s.Listed b.agent) ↔ s.Guarded b := by
  have hrole : ¬ s.Listed b.agent → (s.publisherRole b.agent b.publisher ∈ writeRoles ↔
      b.publisher ≠ [] ∧ s.roleOf b.publisher ∈ writeRoles) := by
    intro hlisted
    rw [Door.publisherRole, effectivePublisher_of_not_listed hlisted]
    by_cases hpublisher : b.publisher = []
    · simp [hpublisher, writeRoles]
    · simp [hpublisher]
  constructor
  · intro h hlisted args cap hargs hmutation hvalid
    by_contra hno
    obtain ⟨hversion, hpublisher, hwrite⟩ : ¬ b.versionNumber < 1 ∧ b.publisher ≠ [] ∧
        s.roleOf b.publisher ∈ writeRoles := by
      simpa only [not_or, not_not] using hno
    exact hlisted (h ⟨args, hargs, judge_eq_queue_iff.mpr
      ⟨cap, hmutation, not_lt.mp hversion, (hrole hlisted).mpr ⟨hpublisher, hwrite⟩, hvalid⟩⟩)
  · rintro h ⟨args, hargs, hqueue⟩
    by_contra hlisted
    obtain ⟨cap, hmutation, hversion, hwrite, hvalid⟩ := judge_eq_queue_iff.mp hqueue
    obtain ⟨hpublisher, hwrite⟩ := (hrole hlisted).mp hwrite
    rcases h hlisted args cap hargs hmutation hvalid with h | h | h
    · exact absurd hversion (not_le.mpr h)
    · exact hpublisher h
    · exact h hwrite

/-! ### What is recorded -/

/-- What the door decides about a call, without the text of an error. -/
def Door.ruling (s : Door) (b : Body) (args : Dict) : Except ℤ Admission :=
  (s.judge b args).mapError DoorError.statusCode

def Door.after (s : Door) (b : Body) (args : Dict) (approvalId : Str) (now : ℕ) :
    Except ℤ Admission → Door
  | .error statusCode => s.auditLog b statusCode (.denied statusCode)
  | .ok .queue =>
    if approvalId ∈ s.approvals.rows.map ApprovalRecord.id then s.auditLog b 0 .error
    else
      { s with approvals := s.approvals.put (b.request args approvalId now) }.auditLog b 200
        .approvalRequested
  | .ok .dispatch => { s with flights := s.flights ++ [.call b.agent b.capabilityId b.publisher] }

theorem call_snd (hargs : b.args = some args) (approvalId : Str) (now : ℕ) :
    (s.call b approvalId now).2 = s.after b args approvalId now (s.ruling b args) := by
  unfold Door.call Door.ruling
  rw [hargs]
  dsimp only
  rcases s.judge b args with e | - | -
  · rfl
  · dsimp only [Except.mapError, Door.after]
    split_ifs <;> rfl
  · rfl

theorem exists_fresh (approvals : ApprovalStore) :
    ∃ id, id ∉ approvals.rows.map ApprovalRecord.id := by
  obtain ⟨id, hid⟩ := Infinite.exists_notMem_finset (approvals.rows.map ApprovalRecord.id).toFinset
  exact ⟨id, fun h => hid (List.mem_toFinset.mpr h)⟩

/-- Calls of one capability with one publisher and one ruling leave the same state, if they have one
version where they are queued. -/
theorem after_congr {approvalId : Str} {now : ℕ} {o : Except ℤ Admission}
    (hagent : b.agent = b'.agent) (hcap : b.capabilityId = b'.capabilityId)
    (hpublisher : b.publisher = b'.publisher)
    (hversion : o = .ok .queue → b.versionNumber = b'.versionNumber) :
    s.after b args approvalId now o = s.after b' args approvalId now o := by
  rcases o with code | - | -
  · simp [Door.after, Door.auditLog, hagent, hcap, hpublisher]
  · have hrequest : b.request args approvalId now = b'.request args approvalId now := by
      rw [Body.request, Body.request, hagent, hcap, hpublisher, hversion rfl]
    simp [Door.after, Door.auditLog, hagent, hcap, hpublisher, hrequest]
  · simp [Door.after, hagent, hcap, hpublisher]

/-- Calls of one capability with one identifier leave the same state exactly if they are ruled
alike with one publisher, and have one version if they are queued. -/
theorem after_eq_iff {approvalId : Str} {now : ℕ} {o o' : Except ℤ Admission}
    (hagent : b.agent = b'.agent) (hcap : b.capabilityId = b'.capabilityId)
    (hid : approvalId ∉ s.approvals.rows.map ApprovalRecord.id) :
    s.after b args approvalId now o = s.after b' args approvalId now o' ↔
      b.publisher = b'.publisher ∧ o = o' ∧
        (o = .ok .queue → b.versionNumber = b'.versionNumber) := by
  have hput : s.approvals.put (b.request args approvalId now) =
      s.approvals.put (b'.request args approvalId now) ↔
        b.publisher = b'.publisher ∧ b.versionNumber = b'.versionNumber := by
    constructor
    · intro h
      have hrows := congrArg Table.rows h
      rw [Table.rows_put hid, Table.rows_put hid] at hrows
      have hrequest := List.singleton_injective (List.append_cancel_left hrows)
      exact ⟨congrArg ApprovalRecord.publisher hrequest, congrArg ApprovalRecord.version hrequest⟩
    · rintro ⟨hpublisher, hversion⟩
      rw [Body.request, Body.request, hagent, hcap, hpublisher, hversion]
  -- a denial, a request and a dispatch leave different audit entries or dispatches
  rcases o with code | - | - <;> rcases o' with code' | - | - <;>
    simp [Door.after, Door.auditLog, hid, hagent, hcap]
  · exact and_comm
  · rw [hput]
    exact ⟨fun h => h.1, fun h => ⟨h, h.1⟩⟩

theorem ruling_of_mutation (h : s.Mutation b cap) :
    s.ruling b args = if b.versionNumber < 1 ∨ s.publisherRole b.agent b.publisher ∉ writeRoles then
      .error 403 else if validateParams cap args = [] then .ok .queue else .error 422 := by
  obtain ⟨hcap, hactive, hmutation⟩ := h
  unfold Door.ruling Door.judge
  rw [hcap]
  by_cases hversion : b.versionNumber < 1
  · simp [hactive, hmutation, hversion, Except.mapError, DoorError.text]
  · by_cases hrole : s.publisherRole b.agent b.publisher ∈ writeRoles
    · by_cases herrors : validateParams cap args = []
      · simp [hactive, hmutation, hversion, hrole, herrors, Except.mapError]
      · simp [hactive, hmutation, hversion, hrole, herrors, Except.mapError]
    · simp [hactive, hmutation, hversion, hrole, Except.mapError, DoorError.text]

theorem ruling_eq_queue_iff : s.ruling b args = .ok .queue ↔ s.judge b args = .ok .queue := by
  unfold Door.ruling
  cases s.judge b args <;> simp [Except.mapError]

theorem ruling_congr (hcap : b.capabilityId = b'.capabilityId) (h : ∀ cap, ¬ s.Mutation b cap) :
    s.ruling b args = s.ruling b' args := by
  unfold Door.ruling Door.judge
  rw [← hcap]
  cases hfound : getCapability s.capabilities b.capabilityId with
  | none => rfl
  | some cap =>
    have hno := h cap
    unfold Door.Mutation at hno
    by_cases hactive : cap.status = activeStatus
    · have hmutation : cap.mutation = false := by simpa [hfound, hactive] using hno
      simp [hmutation]
    · simp [hactive, Except.mapError, DoorError.text]

/-- Calls with one publisher are ruled alike, with one version if they are queued, exactly if for a
mutation that the publisher may make the versions are both below 1, or equal where the arguments
pass. -/
theorem ruling_eq_iff (args : Dict) (hagent : b.agent = b'.agent)
    (hcap : b.capabilityId = b'.capabilityId)
    (hpublisher : b.publisher = b'.publisher) :
    s.ruling b args = s.ruling b' args ∧
        (s.ruling b args = .ok .queue → b.versionNumber = b'.versionNumber) ↔
      ∀ cap, s.Mutation b cap → s.publisherRole b.agent b.publisher ∈ writeRoles →
        (b.versionNumber < 1 ↔ b'.versionNumber < 1) ∧
          (1 ≤ b.versionNumber → validateParams cap args = [] →
            b.versionNumber = b'.versionNumber) := by
  by_cases hmutation : ∃ cap, s.Mutation b cap
  · obtain ⟨cap, hmutation⟩ := hmutation
    have hmutation' : s.Mutation b' cap := by
      rwa [Door.Mutation, ← hcap]
    have hunique : ∀ cap', s.Mutation b cap' → cap' = cap := fun cap' h =>
      Option.some.inj (h.1.symm.trans hmutation.1)
    have hforall : ∀ P : Capability → Prop, (∀ cap', s.Mutation b cap' → P cap') ↔ P cap := fun P =>
      ⟨fun h => h cap hmutation, fun h cap' h' => hunique cap' h' ▸ h⟩
    rw [hforall, ruling_of_mutation hmutation, ruling_of_mutation hmutation', ← hagent,
      ← hpublisher]
    by_cases hrole : s.publisherRole b.agent b.publisher ∈ writeRoles
    · by_cases hvalid : validateParams cap args = []
      · by_cases hv : b.versionNumber < 1 <;> by_cases hv' : b'.versionNumber < 1 <;>
          simp [hrole, hvalid, hv, hv', not_lt.mp]
      · by_cases hv : b.versionNumber < 1 <;> by_cases hv' : b'.versionNumber < 1 <;>
          simp [hrole, hvalid, hv, hv']
    · simp [hrole]
  · rw [not_exists] at hmutation
    refine iff_of_true ⟨ruling_congr hcap hmutation, fun hqueue => ?_⟩
      fun cap h => absurd h (hmutation cap)
    obtain ⟨cap, hcap, -⟩ := judge_eq_queue_iff.mp (ruling_eq_queue_iff.mp hqueue)
    exact absurd hcap (hmutation cap)

/-- Two bodies for one agent and capability with the same arguments leave the same records exactly
if they assert the same authority, as far as it counts. -/
theorem sameRecords_iff (hagent : b.agent = b'.agent) (hcap : b.capabilityId = b'.capabilityId)
    (hargs : b.args = b'.args) : s.SameRecords b b' ↔ s.SameAuthority b b' := by
  cases hb : b.args with
  | none =>
    refine iff_of_true (fun approvalId now => ?_) fun args h => by cases hb.symm.trans h
    rw [Door.call, Door.call, ← hargs, hb]
  | some args =>
    have hb' : b'.args = some args := hargs ▸ hb
    have hauthority : s.SameAuthority b b' ↔ b.publisher = b'.publisher ∧
        ∀ cap, s.Mutation b cap → s.publisherRole b.agent b.publisher ∈ writeRoles →
          (b.versionNumber < 1 ↔ b'.versionNumber < 1) ∧
            (1 ≤ b.versionNumber → validateParams cap args = [] →
              b.versionNumber = b'.versionNumber) := by
      refine ⟨fun h => h args hb, fun h args' hargs' => ?_⟩
      cases hb.symm.trans hargs'
      exact h
    rw [hauthority]
    constructor
    · intro h
      obtain ⟨id, hid⟩ := exists_fresh s.approvals
      have hstates := h id 0
      rw [call_snd hb, call_snd hb', after_eq_iff hagent hcap hid] at hstates
      exact ⟨hstates.1, (ruling_eq_iff args hagent hcap hstates.1).mp hstates.2⟩
    · rintro ⟨hpublisher, h⟩ approvalId now
      obtain ⟨hruling, hversion⟩ := (ruling_eq_iff args hagent hcap hpublisher).mpr h
      rw [call_snd hb, call_snd hb', ← hruling]
      exact after_congr hagent hcap hpublisher hversion

/-! ### Histories -/

/-- In every state that a history reaches, and for every body with any other version, publisher and
role put in: the mutation is queued only for a listed agent, and the two bodies leave the same
records, exactly if unlisted agents are held up otherwise and the bodies assert the same authority.
-/
theorem callContract_iff (start : Door) (ops : List Op) (b : Body) (version : Json)
    (publisher : Str) (role : Json) :
    (((run operate ops start).2.Queues b → (run operate ops start).2.Listed b.agent) ∧
        (run operate ops start).2.SameRecords b { b with version, publisher, role }) ↔
      (run operate ops start).2.Guarded b ∧
        (run operate ops start).2.SameAuthority b { b with version, publisher, role } :=
  and_congr (queuesListed_iff b) (sameRecords_iff rfl rfl rfl)

/-- A mutation is queued for an agent that nobody has published, and the request has the publisher
that the body claims. -/
theorem not_callContract :
    ¬ (((run operate [] oneMutation).2.Queues oneCall →
          (run operate [] oneMutation).2.Listed oneCall.agent) ∧
        (run operate [] oneMutation).2.SameRecords oneCall
          { oneCall with version := .num 2, publisher := "owner".toList, role := .null }) := by
  rintro ⟨hlisted, -⟩
  exact Bool.false_ne_true (hlisted ⟨Dict.empty, rfl, rfl⟩)

end AgentStudio.Platform

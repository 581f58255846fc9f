import AgentStudio.Platform.Door

/-!
# Approvals of mutations

What the door owes to an approval request (`Door.Lawful`): its mutation is dispatched at most once,
after an approval by a decider who is named and is not the requester, not after a rejection, and
with a capability that is enabled; and it is recorded as approved only when the dispatch has
succeeded.

`approve` looks at the status of the request before it dispatches and writes the status when the
host has answered. `Op.Fair` is the condition on a step under which this is enough: the decider is
named, the capability is active, no dispatch of the request is on its way and none has raised an
exception, and a dispatch returns with a status code below 400. `lawful_iff_fair` is the equivalence
over all interleavings. `Does` is the step relation from which the invariant `Kept` is derived.
-/

namespace AgentStudio.Platform

open PyText PyJson Rows Machine

/-! ### Conditions -/

/-- What a dispatch of a request has to be: the first one, after an approval by somebody who is
named and did not make the request, not after a rejection, and with a capability that is enabled. -/
structure LawfulDispatch (approvals : ApprovalStore) (earlier : List Entry) (id decidedBy : Str)
    (cap : Capability) : Prop where
  first : ∀ by' cap', .dispatched id by' cap' ∉ earlier
  named : decidedBy ≠ []
  other : ∀ r ∈ approvals.rows, r.id = id → decidedBy ≠ r.requester
  standing : .rejected id ∉ earlier
  enabled : cap.status = activeStatus

/-- What an entry of the log has to be, after the earlier ones. -/
def Entry.Lawful (approvals : ApprovalStore) (earlier : List Entry) : Entry → Prop
  | .dispatched id decidedBy cap => LawfulDispatch approvals earlier id decidedBy cap
  | .approved _ statusCode => statusCode < 400
  | _ => True

/-- All dispatches of requests, and all approvals that have been recorded, are as they should be. -/
def Door.LawfulLog (s : Door) : Prop :=
  ∀ e earlier, e :: earlier <:+ s.log → e.Lawful s.approvals earlier

/-- The dispatches and the recorded approvals are as they should be, and a mutation that has the
status `approved` has been dispatched with success. -/
structure Door.Lawful (s : Door) : Prop where
  log : s.LawfulLog
  approved : ∀ r ∈ s.approvals.rows, r.kind = .mutation → r.status = .approved →
    ∃ code < 400, .approved r.id code ∈ s.log

def Door.InFlight (s : Door) (id : Str) : Prop := ∃ decidedBy, .approve id decidedBy ∈ s.flights

/-- `approve` dispatches the mutation of a request. -/
structure Door.Departs (s : Door) (id decidedBy : Str) (r : ApprovalRecord) (cap : Capability) :
    Prop where
  decidable : s.decidable id decidedBy = .ok r
  mutation : r.kind = .mutation
  found : getCapability s.capabilities r.capabilityId = some cap
  routed : cap.routeError = none

def Op.Fair : Op → Door → Prop
  | .approve id decidedBy _, s => ∀ r cap, s.Departs id decidedBy r cap →
    decidedBy ≠ [] ∧ cap.status = activeStatus ∧ ¬ s.InFlight id ∧ .raised id ∉ s.log
  | .settle n (.returned code _) _, s => ∀ id decidedBy,
    s.flights[n]? = some (.approve id decidedBy) → code < 400
  | _, _ => True

def Door.Fresh (s : Door) : Prop := s.approvals.rows = [] ∧ s.flights = [] ∧ s.log = []

def Entry.id : Entry → Str
  | .dispatched id _ _ => id
  | .raised id => id
  | .approved id _ => id
  | .rejected id => id

/-! ### What a step does -/

/-- The steps of the door, as far as the requests, the dispatches of requests and the log go. A step
that dispatches nothing and records no approval of a mutation is fair. -/
inductive Does (s : Door) : Op → Door → Prop
  /-- nothing that concerns a request -/
  | nothing {op : Op} {s' : Door} (hfair : op.Fair s) (happrovals : s'.approvals = s.approvals)
      (hlog : s'.log = s.log)
      (hflights : ∀ id by', .approve id by' ∈ s'.flights ↔ .approve id by' ∈ s.flights) :
        Does s op s'
  /-- a request is made -/
  | requested {op : Op} {s' : Door} {r : ApprovalRecord} (hfair : op.Fair s)
      (hnew : r.id ∉ s.approvals.rows.map ApprovalRecord.id) (hpending : r.status = .pending)
      (happrovals : s'.approvals = s.approvals.put r) (hlog : s'.log = s.log)
      (hflights : s'.flights = s.flights) : Does s op s'
  /-- the mutation of a request is dispatched -/
  | departed {id by' : Str} {now : ℕ} {r : ApprovalRecord} {cap : Capability}
      (h : s.Departs id by' r cap) :
      Does s (.approve id by' now)
        { s with flights := s.flights ++ [.approve id by'], log := .dispatched id by' cap :: s.log }
  /-- a request is decided without a dispatch -/
  | decided {op : Op} {id by' result : Str} {now : ℕ} {r : ApprovalRecord} {status : ApprovalStatus}
      {entries : List Entry} (hfair : op.Fair s) (h : s.decidable id by' = .ok r)
      (hstatus : status ≠ .pending) (hexternal : status = .approved → r.kind = .external)
      (hentries : entries = [] ∨ entries = [.rejected id]) :
      Does s op (s.record id by' status now result entries)
  /-- the dispatch of a request has returned -/
  | returned {id by' result : Str} {n now : ℕ} {code : ℤ} {data : Json}
      (h : s.flights[n]? = some (.approve id by')) :
      Does s (.settle n (.returned code data) now)
        ({ s with flights := s.flights.eraseIdx n }.record id by' .approved now result
          [.approved id code])
  /-- the dispatch of a request has raised an exception -/
  | raised {op : Op} {id by' : Str} {n : ℕ} (hfair : op.Fair s)
      (h : s.flights[n]? = some (.approve id by')) :
      Does s op { s with flights := s.flights.eraseIdx n, log := .raised id :: s.log }

variable {s s' : Door} {op : Op} {id by' : Str} {r : ApprovalRecord} {cap : Capability}

theorem decidable_eq_ok (h : s.decidable id by' = .ok r) :
    s.approvals.find id = some r ∧ r.status = .pending ∧ checkDecider r by' = none := by
  unfold Door.decidable at h
  split at h
  · cases h
  next found hfound =>
    split_ifs at h with hstatus
    split at h
    · cases h
    next hcheck =>
      cases h
      exact ⟨hfound, not_not.mp hstatus, hcheck⟩

theorem approve_mem_eraseIdx {n : ℕ} {flights : List Flight} {x : Flight}
    (h : flights[n]? = some x) {y : Flight} (hy : y ≠ x) :
    y ∈ flights.eraseIdx n ↔ y ∈ flights := by
  refine ⟨List.mem_of_mem_eraseIdx, fun hmem => ?_⟩
  obtain ⟨i, hi⟩ := List.mem_iff_getElem?.mp hmem
  refine List.mem_eraseIdx_iff_getElem?.mpr ⟨i, ?_, hi⟩
  rintro rfl
  exact hy (Option.some.inj (hi.symm.trans h))

theorem does_call (b : Body) (approvalId : Str) (now : ℕ) :
    Does s (.call b approvalId now) (s.call b approvalId now).2 := by
  have hquiet : ∀ audit, Does s (.call b approvalId now) { s with audit } := fun _ =>
    .nothing trivial rfl rfl fun _ _ => Iff.rfl
  unfold Door.call
  split
  · exact hquiet s.audit
  · split
    · exact hquiet _
    · split_ifs with hmem
      · exact hquiet _
      · exact .requested trivial hmem rfl rfl rfl rfl
    · exact .nothing trivial rfl rfl fun _ _ => by simp

theorem does_approve (id by' : Str) (now : ℕ) :
    Does s (.approve id by' now) (s.approve id by' now).2 := by
  have hstay : (∀ r cap, ¬ s.Departs id by' r cap) → Does s (.approve id by' now) s := fun h =>
    .nothing (fun r cap hdep => absurd hdep (h r cap)) rfl rfl fun _ _ => Iff.rfl
  unfold Door.approve
  split
  next e he => exact hstay fun r cap hdep => by cases he.symm.trans hdep.decidable
  next r hr =>
    split
    next hkind =>
      refine .decided (fun r' cap hdep => ?_) hr (by decide) (fun _ => hkind) (Or.inl rfl)
      cases hr.symm.trans hdep.decidable
      cases hkind.symm.trans hdep.mutation
    next hkind =>
      split
      next hnone =>
        refine hstay fun r' cap hdep => ?_
        cases hr.symm.trans hdep.decidable
        cases hnone.symm.trans hdep.found
      next cap hcap =>
        split
        next e he =>
          refine hstay fun r' cap' hdep => ?_
          cases hr.symm.trans hdep.decidable
          cases hcap.symm.trans hdep.found
          cases he.symm.trans hdep.routed
        next hroute => exact .departed ⟨hr, hkind, hcap, hroute⟩

theorem does_settle (n : ℕ) (answer : HostAnswer) (now : ℕ) :
    Does s (.settle n answer now) (s.settle n answer now).2 := by
  unfold Door.settle
  split
  next hnone =>
    refine .nothing ?_ rfl rfl fun _ _ => Iff.rfl
    cases answer with
    | returned code data => exact fun id by' h => by cases hnone.symm.trans h
    | raised e => trivial
    | failed => trivial
  next flight hflight =>
    cases flight with
    | call agentId capabilityId publisher =>
      have hflights : ∀ id by', .approve id by' ∈ s.flights.eraseIdx n ↔
        .approve id by' ∈ s.flights :=
        fun id by' => approve_mem_eraseIdx hflight (by rintro ⟨⟩)
      cases answer with
      | returned code data =>
        exact .nothing (fun id by' h => by cases hflight.symm.trans h) rfl rfl hflights
      | raised | failed => exact .nothing trivial rfl rfl hflights
    | approve id by' =>
      cases answer with
      | returned code data => exact .returned hflight
      | raised | failed => exact .raised trivial hflight

theorem apply_frame (op : AgentOp) (s : Door) :
    (op.apply s).approvals = s.approvals ∧ (op.apply s).log = s.log ∧
      (op.apply s).flights = s.flights := by
  have hupdate : ∀ agentId f, (s.updateAgent agentId f).approvals = s.approvals ∧
      (s.updateAgent agentId f).log = s.log ∧ (s.updateAgent agentId f).flights = s.flights := by
    intro agentId f
    unfold Door.updateAgent
    split <;> exact ⟨rfl, rfl, rfl⟩
  cases op with
  | create | agentDelete | delete => exact ⟨rfl, rfl, rfl⟩
  | update agentId | agentPublish agentId | archive agentId | unpublish agentId =>
    exact hupdate agentId _
  | publish agentId user now =>
    simp only [AgentOp.apply]
    split <;> exact ⟨rfl, rfl, rfl⟩

theorem does_operate (op : Op) (s : Door) : Does s op (operate op s).2 := by
  cases op with
  | call b approvalId now => exact does_call b approvalId now
  | createExternal title requester assignedTo params agentId approvalId now =>
    have hquiet :
        Does s (.createExternal title requester assignedTo params agentId approvalId now) s :=
      .nothing trivial rfl rfl fun _ _ => Iff.rfl
    change Does s _ (s.createExternal title requester assignedTo params agentId approvalId now).2
    unfold Door.createExternal
    dsimp only
    split_ifs with hself hmem
    · exact hquiet
    · exact hquiet
    · exact .requested trivial hmem rfl rfl rfl rfl
  | approve id by' now => exact does_approve id by' now
  | reject id by' reason now =>
    change Does s _ (s.reject id by' reason now).2
    unfold Door.reject
    split
    · exact .nothing trivial rfl rfl fun _ _ => Iff.rfl
    next r hr => exact .decided trivial hr (by decide) (by rintro ⟨⟩) (Or.inr rfl)
  | settle n answer now => exact does_settle n answer now
  | change c => exact .nothing trivial rfl rfl fun _ _ => Iff.rfl
  | agent op =>
    obtain ⟨happrovals, hlog, hflights⟩ := apply_frame op s
    refine .nothing trivial happrovals hlog fun id by' => ?_
    change _ ∈ (op.apply s).flights ↔ _
    rw [hflights]

/-! ### The invariant -/

/-- A request that is in the store and is not pending any more. -/
def Door.Decided (s : Door) (id : Str) : Prop :=
  ∀ r ∈ s.approvals.rows, r.id = id → r.status ≠ .pending

/-- What the log, the dispatches on their way and the store have to do with each other. -/
structure Door.Kept (s : Door) : Prop where
  stored : ∀ e ∈ s.log, e.id ∈ s.approvals.rows.map ApprovalRecord.id
  flying : ∀ id by', .approve id by' ∈ s.flights → ∃ by'' cap, .dispatched id by'' cap ∈ s.log
  failed : ∀ id, .raised id ∈ s.log → ∃ by'' cap, .dispatched id by'' cap ∈ s.log
  ended : ∀ id by' cap, .dispatched id by' cap ∈ s.log →
    s.InFlight id ∨ .raised id ∈ s.log ∨ s.Decided id
  approved : ∀ id code, .approved id code ∈ s.log → s.Decided id
  rejected : ∀ id, .rejected id ∈ s.log → s.Decided id

variable {status : ApprovalStatus} {approvals : ApprovalStore} {result : Str}

theorem mem_decide {now : ℕ} {x : ApprovalRecord}
    (h : x ∈ (decide approvals id status by' now result).rows) :
    ∃ r ∈ approvals.rows, x.id = r.id ∧ x.requester = r.requester ∧ x.kind = r.kind ∧
      (r.id = id ∧ x.status = status ∨ r.id ≠ id ∧ x.status = r.status) := by
  obtain ⟨r, hr, rfl⟩ := List.mem_map.mp h
  refine ⟨r, hr, ?_⟩
  by_cases hid : r.id = id
  · rw [Rows.update, if_pos hid]
    exact ⟨rfl, rfl, rfl, Or.inl ⟨hid, rfl⟩⟩
  · rw [Rows.update, if_neg hid]
    exact ⟨rfl, rfl, rfl, Or.inr ⟨hid, rfl⟩⟩

theorem ids_decide (approvals : ApprovalStore) (id : Str) (status : ApprovalStatus) (by' : Str)
    (now : ℕ) (result : Str) :
    (decide approvals id status by' now result).rows.map ApprovalRecord.id =
      approvals.rows.map ApprovalRecord.id :=
  map_key_update id fun _ => rfl

theorem decided_record {now : ℕ} {entries : List Entry} (hstatus : status ≠ .pending) (id' : Str)
    (h : id' = id ∨ s.Decided id') : (s.record id by' status now result entries).Decided id' := by
  intro x hx hid
  obtain ⟨r, hr, hxid, -, -, hcase⟩ := mem_decide hx
  rcases hcase with ⟨-, hx⟩ | ⟨hne, hx⟩
  · rwa [hx]
  · have hr' : r.id = id' := hxid.symm.trans hid
    rw [hx]
    exact h.resolve_left (fun h => hne (hr'.trans h)) r hr hr'

theorem Door.Decided.congr (h : s.Decided id) (happrovals : s'.approvals = s.approvals) :
    s'.Decided id := by
  unfold Door.Decided at h ⊢
  rwa [happrovals]

theorem Door.Decided.put (h : s.Decided id) (hnew : r.id ∉ s.approvals.rows.map ApprovalRecord.id)
    (hid : id ∈ s.approvals.rows.map ApprovalRecord.id)
    (happrovals : s'.approvals = s.approvals.put r) : s'.Decided id := by
  intro x hx hxid
  rw [happrovals, Table.rows_put hnew] at hx
  rcases List.mem_append.mp hx with hx | hx
  · exact h x hx hxid
  · rw [List.mem_singleton] at hx
    subst hx
    rw [hxid] at hnew
    exact absurd hid hnew

theorem not_decided (h : s.decidable id by' = .ok r) : ¬ s.Decided id := by
  obtain ⟨hfind, hpending, -⟩ := decidable_eq_ok h
  obtain ⟨hmem, hid⟩ := Table.find_eq_some_iff.mp hfind
  exact fun hdecided => hdecided r hmem hid hpending

theorem inFlight_of_iff
    (hflights : ∀ id by', .approve id by' ∈ s'.flights ↔ .approve id by' ∈ s.flights) :
    s'.InFlight id ↔ s.InFlight id := exists_congr fun by' => hflights id by'

theorem Door.InFlight.eraseIdx {n : ℕ} {id' : Str} (h : s.flights[n]? = some (.approve id' by'))
    (hfly : s.InFlight id) : id = id' ∨ ∃ by'', .approve id by'' ∈ s.flights.eraseIdx n := by
  obtain ⟨by'', hfly⟩ := hfly
  by_cases hid : id = id'
  · exact Or.inl hid
  · refine Or.inr ⟨by'', (approve_mem_eraseIdx h ?_).mpr hfly⟩
    rintro ⟨⟩
    exact hid rfl

/-- A decision about a stored request keeps the invariant, also if a dispatch of this request has
just ended. -/
theorem Door.Kept.record (hs : s.Kept) {flights : List Flight} {now : ℕ} {entries : List Entry}
    (hstored : id ∈ s.approvals.rows.map ApprovalRecord.id) (hsub : flights ⊆ s.flights)
    (hfly : ∀ id', s.InFlight id' → id' = id ∨ ∃ by'', .approve id' by'' ∈ flights)
    (hstatus : status ≠ .pending)
    (hentries : ∀ e ∈ entries, e = .rejected id ∨ ∃ code, e = .approved id code) :
    ({ s with flights }.record id by' status now result entries).Kept := by
  have hdecided : ∀ id', id' = id ∨ s.Decided id' →
      ({ s with flights }.record id by' status now result entries).Decided id' := fun id' h =>
    decided_record hstatus id' h
  have hold : ∀ {e}, e ∈ entries ++ s.log → e.id = id ∨ e ∈ s.log := by
    intro e he
    refine (List.mem_append.mp he).imp_left fun he => ?_
    rcases hentries e he with rfl | ⟨code, rfl⟩ <;> rfl
  have hdispatched : ∀ {id' by'' cap}, .dispatched id' by'' cap ∈ entries ++ s.log →
      .dispatched id' by'' cap ∈ s.log := by
    intro id' by'' cap he
    refine (List.mem_append.mp he).resolve_left fun he => ?_
    rcases hentries _ he with h | ⟨code, h⟩ <;> cases h
  constructor
  · intro e he
    change _ ∈ (decide s.approvals id status by' now result).rows.map ApprovalRecord.id
    rw [ids_decide]
    rcases hold he with h | h
    · rwa [h]
    · exact hs.stored e h
  · intro id' by'' h
    obtain ⟨by₁, cap, h⟩ := hs.flying id' by'' (hsub h)
    exact ⟨by₁, cap, List.mem_append_right _ h⟩
  · intro id' h
    have h : .raised id' ∈ s.log := by
      refine (List.mem_append.mp h).resolve_left fun he => ?_
      rcases hentries _ he with h | ⟨code, h⟩ <;> cases h
    obtain ⟨by₁, cap, h⟩ := hs.failed id' h
    exact ⟨by₁, cap, List.mem_append_right _ h⟩
  · intro id' by'' cap h
    rcases hs.ended id' by'' cap (hdispatched h) with h | h | h
    · rcases hfly id' h with rfl | h
      · exact Or.inr (Or.inr (hdecided id' (Or.inl rfl)))
      · exact Or.inl h
    · exact Or.inr (Or.inl (List.mem_append_right _ h))
    · exact Or.inr (Or.inr (hdecided id' (Or.inr h)))
  · intro id' code h
    exact hdecided id' ((hold h).imp_right (hs.approved id' code))
  · intro id' h
    exact hdecided id' ((hold h).imp_right (hs.rejected id'))

theorem Door.Kept.does (hs : s.Kept) (h : Does s op s') : s'.Kept := by
  cases h with
  | nothing hfair happrovals hlog hflights =>
    have hdecided : ∀ id, s.Decided id → s'.Decided id := fun _ h => h.congr happrovals
    constructor
    · rw [hlog, happrovals]
      exact hs.stored
    · intro id by' hfly
      rw [hlog]
      exact hs.flying id by' ((hflights id by').mp hfly)
    · rw [hlog]
      exact hs.failed
    · rw [hlog]
      intro id by' cap hdisp
      rw [inFlight_of_iff hflights]
      exact (hs.ended id by' cap hdisp).imp_right fun h => h.imp_right (hdecided id)
    · rw [hlog]
      exact fun id code h => hdecided id (hs.approved id code h)
    · rw [hlog]
      exact fun id h => hdecided id (hs.rejected id h)
  | requested hfair hnew hpending happrovals hlog hflights =>
    have hdecided : ∀ e ∈ s.log, s.Decided e.id → s'.Decided e.id := fun e he h =>
      h.put hnew (hs.stored e he) happrovals
    have hfly : ∀ id, s'.InFlight id ↔ s.InFlight id := fun id =>
      inFlight_of_iff fun id by' => by rw [hflights]
    constructor
    · intro e he
      rw [hlog] at he
      rw [happrovals, Table.rows_put hnew, List.map_append]
      exact List.mem_append_left _ (hs.stored e he)
    · rw [hlog, hflights]
      exact hs.flying
    · rw [hlog]
      exact hs.failed
    · rw [hlog]
      intro id by' cap hdisp
      rw [hfly]
      exact (hs.ended id by' cap hdisp).imp_right fun h => h.imp_right (hdecided _ hdisp)
    · rw [hlog]
      exact fun id code h => hdecided _ h (hs.approved id code h)
    · rw [hlog]
      exact fun id h => hdecided _ h (hs.rejected id h)
  | departed hdep =>
    rename_i id₀ by₀ now r₀ cap₀
    obtain ⟨hfind, -, -⟩ := decidable_eq_ok hdep.decidable
    obtain ⟨hmem, hid⟩ := Table.find_eq_some_iff.mp hfind
    have hfly : ∀ id by', .approve id by' ∈ s.flights ++ [.approve id₀ by₀] →
        .approve id by' ∈ s.flights ∨ id = id₀ ∧ by' = by₀ := by
      intro id by' h
      refine (List.mem_append.mp h).imp_right fun h => ?_
      cases List.mem_singleton.mp h
      exact ⟨rfl, rfl⟩
    constructor
    · intro e he
      rcases List.mem_cons.mp he with rfl | he
      · exact List.mem_map.mpr ⟨r₀, hmem, hid⟩
      · exact hs.stored e he
    · intro id by' h
      rcases hfly id by' h with h | ⟨rfl, rfl⟩
      · obtain ⟨by'', cap, h⟩ := hs.flying id by' h
        exact ⟨by'', cap, List.mem_cons_of_mem _ h⟩
      · exact ⟨by', cap₀, List.mem_cons_self⟩
    · intro id h
      obtain ⟨by'', cap, h⟩ := hs.failed id (List.mem_of_ne_of_mem (by rintro ⟨⟩) h)
      exact ⟨by'', cap, List.mem_cons_of_mem _ h⟩
    · intro id by' cap h
      rcases List.mem_cons.mp h with h | h
      · cases h
        exact Or.inl ⟨by₀, List.mem_append_right _ List.mem_cons_self⟩
      · rcases hs.ended id by' cap h with ⟨by'', h⟩ | h | h
        · exact Or.inl ⟨by'', List.mem_append_left _ h⟩
        · exact Or.inr (Or.inl (List.mem_cons_of_mem _ h))
        · exact Or.inr (Or.inr h)
    · exact fun id code h => hs.approved id code (List.mem_of_ne_of_mem (by rintro ⟨⟩) h)
    · exact fun id h => hs.rejected id (List.mem_of_ne_of_mem (by rintro ⟨⟩) h)
  | decided hfair hdec hstatus hexternal hentries =>
    obtain ⟨hfind, -, -⟩ := decidable_eq_ok hdec
    obtain ⟨hmem, hid⟩ := Table.find_eq_some_iff.mp hfind
    refine hs.record (List.mem_map.mpr ⟨_, hmem, hid⟩) (List.Subset.refl _) (fun _ => Or.inr)
      hstatus fun e he => Or.inl ?_
    rcases hentries with rfl | rfl
    · exact absurd he List.not_mem_nil
    · exact List.mem_singleton.mp he
  | returned hflight =>
    obtain ⟨by₁, cap, hdisp⟩ := hs.flying _ _ (List.mem_of_getElem? hflight)
    exact hs.record (hs.stored _ hdisp) List.eraseIdx_subset
      (fun _ => Door.InFlight.eraseIdx hflight) (by decide)
      fun e he => Or.inr ⟨_, List.mem_singleton.mp he⟩
  | raised hfair hflight =>
    rename_i id₀ by₀ n
    obtain ⟨by₁, cap₁, hdisp⟩ := hs.flying _ _ (List.mem_of_getElem? hflight)
    constructor
    · intro e he
      have hstored : id₀ ∈ s.approvals.rows.map ApprovalRecord.id := hs.stored _ hdisp
      rcases List.mem_cons.mp he with rfl | he
      · exact hstored
      · exact hs.stored e he
    · intro id by' h
      obtain ⟨by'', cap, h⟩ := hs.flying id by' (List.mem_of_mem_eraseIdx h)
      exact ⟨by'', cap, List.mem_cons_of_mem _ h⟩
    · intro id h
      rcases List.mem_cons.mp h with h | h
      · cases h
        exact ⟨by₁, cap₁, List.mem_cons_of_mem _ hdisp⟩
      · obtain ⟨by'', cap, h⟩ := hs.failed id h
        exact ⟨by'', cap, List.mem_cons_of_mem _ h⟩
    · intro id by' cap h
      rcases hs.ended id by' cap (List.mem_of_ne_of_mem (by rintro ⟨⟩) h) with h | h | h
      · rcases Door.InFlight.eraseIdx hflight h with rfl | h
        · exact Or.inr (Or.inl List.mem_cons_self)
        · exact Or.inl h
      · exact Or.inr (Or.inl (List.mem_cons_of_mem _ h))
      · exact Or.inr (Or.inr h)
    · exact fun id code h => hs.approved id code (List.mem_of_ne_of_mem (by rintro ⟨⟩) h)
    · exact fun id h => hs.rejected id (List.mem_of_ne_of_mem (by rintro ⟨⟩) h)

/-! ### Lawful steps -/

/-- The requests in the store keep their requesters. -/
def SameRequesters (approvals approvals' : ApprovalStore) : Prop :=
  ∀ r' ∈ approvals'.rows, r'.id ∈ approvals.rows.map ApprovalRecord.id →
    ∃ r ∈ approvals.rows, r.id = r'.id ∧ r.requester = r'.requester

theorem sameRequesters_refl (approvals : ApprovalStore) : SameRequesters approvals approvals :=
  fun r hr _ => ⟨r, hr, rfl, rfl⟩

theorem sameRequesters_put (hnew : r.id ∉ approvals.rows.map ApprovalRecord.id) :
    SameRequesters approvals (approvals.put r) := by
  intro x hx hid
  rw [Table.rows_put hnew] at hx
  rcases mem_snoc.mp hx with hx | rfl
  · exact ⟨x, hx, rfl, rfl⟩
  · exact absurd hid hnew

theorem sameRequesters_decide (approvals : ApprovalStore) (id : Str) (status : ApprovalStatus)
    (by' : Str) (now : ℕ) (result : Str) :
    SameRequesters approvals (decide approvals id status by' now result) := by
  intro x hx _
  obtain ⟨r, hr, hid, hreq, -⟩ := mem_decide hx
  exact ⟨r, hr, hid.symm, hreq.symm⟩

theorem Door.LawfulLog.congr (hs : s.LawfulLog) (hk : s.Kept)
    (h : SameRequesters s.approvals approvals) {e : Entry} {earlier : List Entry}
    (he : e :: earlier <:+ s.log) : e.Lawful approvals earlier := by
  have hlawful := hs e earlier he
  cases e with
  | dispatched id by' cap =>
    have hstored : id ∈ s.approvals.rows.map ApprovalRecord.id :=
      hk.stored _ (he.subset List.mem_cons_self)
    refine { hlawful with other := fun r' hr' hid => ?_ }
    obtain ⟨r, hr, hrid, hreq⟩ := h r' hr' (by rwa [hid])
    rw [← hreq]
    exact hlawful.other r hr (hrid.trans hid)
  | raised | approved | rejected => exact hlawful

theorem lawful_of_log (hs : s.LawfulLog) (hk : s.Kept) (hlog : s'.log = s.log)
    (h : SameRequesters s.approvals s'.approvals) : s'.LawfulLog := by
  intro e earlier he
  rw [hlog] at he
  exact hs.congr hk h he

theorem lawful_cons_iff (hs : s.LawfulLog) (hk : s.Kept) {e : Entry} (hlog : s'.log = e :: s.log)
    (h : SameRequesters s.approvals s'.approvals) :
    s'.LawfulLog ↔ e.Lawful s'.approvals s.log := by
  constructor
  · intro hs'
    exact hs' e s.log (hlog.symm ▸ List.suffix_refl _)
  · intro he e' earlier he'
    rw [hlog] at he'
    rcases List.suffix_cons_iff.mp he' with heq | he'
    · obtain ⟨rfl, rfl⟩ := List.cons.inj heq
      exact he
    · exact hs.congr hk h he'

/-- A dispatch of a request that is still pending is the first one if none is on its way and none
has raised an exception. -/
theorem first_iff (hk : s.Kept) (h : s.decidable id by' = .ok r) :
    (∀ by'' cap, .dispatched id by'' cap ∉ s.log) ↔ ¬ s.InFlight id ∧ .raised id ∉ s.log := by
  constructor
  · intro hnone
    refine ⟨fun ⟨by₁, hfly⟩ => ?_, fun hraised => ?_⟩
    · obtain ⟨by₂, cap, hdisp⟩ := hk.flying id by₁ hfly
      exact hnone by₂ cap hdisp
    · obtain ⟨by₂, cap, hdisp⟩ := hk.failed id hraised
      exact hnone by₂ cap hdisp
  · rintro ⟨hfly, hraised⟩ by'' cap hdisp
    rcases hk.ended id by'' cap hdisp with h' | h' | h'
    · exact hfly h'
    · exact hraised h'
    · exact not_decided h h'

theorem ne_requester (h : s.decidable id by' = .ok r) (hnamed : by' ≠ []) :
    ∀ x ∈ s.approvals.rows, x.id = id → by' ≠ x.requester := by
  obtain ⟨hfind, -, hcheck⟩ := decidable_eq_ok h
  obtain ⟨hmem, hid⟩ := Table.find_eq_some_iff.mp hfind
  intro x hx hxid hreq
  have hsame : x = r := eq_of_key_eq s.approvals.nodup hx hmem (hxid.trans hid.symm)
  rw [checkDecider, if_pos ⟨hnamed, hreq.trans (congrArg _ hsame)⟩] at hcheck
  cases hcheck

theorem lawfulDispatch_iff (hk : s.Kept) (h : s.Departs id by' r cap) :
    LawfulDispatch s.approvals s.log id by' cap ↔
      by' ≠ [] ∧ cap.status = activeStatus ∧ ¬ s.InFlight id ∧ .raised id ∉ s.log := by
  rw [← first_iff hk h.decidable]
  constructor
  · intro hl
    exact ⟨hl.named, hl.enabled, hl.first⟩
  · rintro ⟨hnamed, henabled, hfirst⟩
    exact ⟨hfirst, hnamed, ne_requester h.decidable hnamed,
      fun hrej => not_decided h.decidable (hk.rejected id hrej), henabled⟩

theorem lawful_does_iff (hk : s.Kept) (hs : s.LawfulLog) (h : Does s op s') :
    s'.LawfulLog ↔ op.Fair s := by
  cases h with
  | nothing hfair happrovals hlog hflights =>
    exact iff_of_true (lawful_of_log hs hk hlog (by rw [happrovals]; exact sameRequesters_refl _))
      hfair
  | requested hfair hnew hpending happrovals hlog hflights =>
    exact iff_of_true (lawful_of_log hs hk hlog (by rw [happrovals]; exact sameRequesters_put hnew))
      hfair
  | departed hdep =>
    refine Iff.trans (lawful_cons_iff hs hk rfl (sameRequesters_refl _)) ?_
    refine (lawfulDispatch_iff hk hdep).trans ⟨fun hl r cap hdep' => ?_, fun h => h _ _ hdep⟩
    cases hdep.decidable.symm.trans hdep'.decidable
    cases hdep.found.symm.trans hdep'.found
    exact hl
  | decided hfair hdec hstatus hexternal hentries =>
    refine iff_of_true ?_ hfair
    rcases hentries with rfl | rfl
    · exact lawful_of_log hs hk rfl (sameRequesters_decide _ _ _ _ _ _)
    · refine Iff.mpr (lawful_cons_iff hs hk rfl (sameRequesters_decide _ _ _ _ _ _)) ?_
      trivial
  | returned hflight =>
    refine Iff.trans (lawful_cons_iff hs hk rfl (sameRequesters_decide _ _ _ _ _ _)) ?_
    exact ⟨fun hcode id' by' hflight' => hcode, fun h => h _ _ hflight⟩
  | raised hfair hflight =>
    refine iff_of_true (Iff.mpr (lawful_cons_iff hs hk rfl (sameRequesters_refl _)) ?_) hfair
    trivial

/-! ### Approved requests -/

/-- A mutation that has the status `approved` has an entry in the log. -/
def Door.Recorded (s : Door) : Prop :=
  ∀ r ∈ s.approvals.rows, r.kind = .mutation → r.status = .approved →
    ∃ code, .approved r.id code ∈ s.log

theorem recorded_record (hs : s.Recorded) {flights : List Flight} {now : ℕ} {entries : List Entry}
    (h : status = .approved → (∀ r ∈ s.approvals.rows, r.id = id → r.kind = .external) ∨
      ∃ code, .approved id code ∈ entries) :
    ({ s with flights }.record id by' status now result entries).Recorded := by
  intro x hx hkind hstatus
  obtain ⟨r, hr, hid, -, hsame, hcase⟩ := mem_decide hx
  rcases hcase with ⟨hrid, hxstatus⟩ | ⟨hne, hxstatus⟩
  · rcases h (hxstatus.symm.trans hstatus) with hexternal | ⟨code, hcode⟩
    · cases (hexternal r hr hrid).symm.trans (hsame.symm.trans hkind)
    · exact ⟨code, List.mem_append_left _ (by rwa [hid, hrid])⟩
  · obtain ⟨code, hcode⟩ := hs r hr (hsame.symm.trans hkind) (hxstatus.symm.trans hstatus)
    exact ⟨code, List.mem_append_right _ (by rwa [hid])⟩

theorem Door.Recorded.does (hs : s.Recorded) (h : Does s op s') : s'.Recorded := by
  cases h with
  | nothing hfair happrovals hlog hflights =>
    intro r hr
    rw [happrovals] at hr
    rw [hlog]
    exact hs r hr
  | requested hfair hnew hpending happrovals hlog hflights =>
    intro x hx hkind hstatus
    rw [happrovals, Table.rows_put hnew] at hx
    rw [hlog]
    rcases mem_snoc.mp hx with hx | rfl
    · exact hs x hx hkind hstatus
    · rw [hpending] at hstatus
      cases hstatus
  | departed | raised =>
    intro r hr hkind hstatus
    obtain ⟨code, hcode⟩ := hs r hr hkind hstatus
    exact ⟨code, List.mem_cons_of_mem _ hcode⟩
  | decided hfair hdec hstatus hexternal hentries =>
    obtain ⟨hfind, -, -⟩ := decidable_eq_ok hdec
    obtain ⟨hmem, hid⟩ := Table.find_eq_some_iff.mp hfind
    refine recorded_record hs fun happroved => Or.inl ?_
    intro x hx hxid
    rw [eq_of_key_eq s.approvals.nodup hx hmem (hxid.trans hid.symm)]
    exact hexternal happroved
  | returned hflight => exact recorded_record hs fun _ => Or.inr ⟨_, List.mem_cons_self⟩

theorem lawful_iff_log (hs : s.Recorded) : s.Lawful ↔ s.LawfulLog := by
  refine ⟨Door.Lawful.log, fun h => ⟨h, fun r hr hkind hstatus => ?_⟩⟩
  obtain ⟨code, hcode⟩ := hs r hr hkind hstatus
  obtain ⟨later, earlier, hlog⟩ := List.append_of_mem hcode
  exact ⟨code, h (.approved r.id code) earlier ⟨later, hlog.symm⟩, hcode⟩

/-- In every run, with every interleaving, the door does what it owes to the requests exactly if
every step is fair. -/
theorem lawful_iff_fair (start : Door) (hstart : start.Fresh) (ops : List Op) :
    (∀ n, (run operate (ops.take n) start).2.Lawful) ↔ Along operate Op.Fair ops start := by
  obtain ⟨hrows, hflights, hlog⟩ := hstart
  have hkept : start.Kept := by
    constructor <;> simp [hflights, hlog]
  have hrecorded : start.Recorded := by
    intro r hr
    rw [hrows] at hr
    exact absurd hr List.not_mem_nil
  have hlawful : start.Lawful := by
    refine (lawful_iff_log hrecorded).mpr fun e earlier he => ?_
    rw [hlog] at he
    exact absurd he (by simp)
  have hstep : ∀ op s, s.Kept ∧ s.Recorded → s.Lawful → ((operate op s).2.Lawful ↔ op.Fair s) := by
    intro op s hs hl
    have hdoes := does_operate op s
    rw [lawful_iff_log (hs.2.does hdoes)]
    exact lawful_does_iff hs.1 hl.log hdoes
  have hthroughout := run_throughout_iff (I := Door.Lawful)
    (fun op s (hs : s.Kept ∧ s.Recorded) =>
      ⟨hs.1.does (does_operate op s), hs.2.does (does_operate op s)⟩)
    hstep ops ⟨hkept, hrecorded⟩
  exact hthroughout.trans (and_iff_right hlawful)

/-- The request of this call, made under the identifier `r`. -/
def oneRequest : ApprovalRecord := oneCall.request Dict.empty "r" 0

/-- A call, its approval by the owner and the end of the dispatch. -/
def oneHistory : List Op :=
  [.call oneCall "r" 0, .approve "r" "owner" 1,
    .settle 0 (.returned 200 .null) 2]

/-- A request that the owner approves and that the host carries out. -/
theorem lawful_approved : (run operate oneHistory oneMutation).2.Lawful := by
  refine (lawful_iff_fair oneMutation ⟨rfl, rfl, rfl⟩ oneHistory).mpr ⟨trivial, ?_, ?_, trivial⟩ 3
  · intro r cap hdep
    have hrequest : (operate (.call oneCall "r" 0) oneMutation).2.decidable "r"
        "owner" = .ok oneRequest := rfl
    cases hrequest.symm.trans hdep.decidable
    have hfound := hdep.found
    refine ⟨by decide, by cases hfound; rfl, ?_, List.not_mem_nil⟩
    rintro ⟨by', hfly⟩
    exact absurd hfly List.not_mem_nil
  · intro id by' _
    decide

/-- Two approvals of one request dispatch its mutation twice, if the second comes before the host
has answered the first. -/
theorem not_lawful : ¬ ∀ n, (run operate ([.call oneCall "r".toList 0,
    .approve "r".toList "owner".toList 1, .approve "r".toList "owner".toList 2].take n)
    oneMutation).2.Lawful := by
  intro h
  have hlast := (h 3).log _ _ (List.suffix_refl _)
  exact hlast.first "owner" _ List.mem_cons_self

end AgentStudio.Platform

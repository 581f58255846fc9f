import AgentStudio.Connectors.Manager
import AgentStudio.Library.Machine

/-!
# Connected connectors and approvals

A connector that is connected and asks for sensitive scopes should have the reference to an approval
that `connect` was given for it (`State.Lawful`). `connect` sees to that, but `update` writes the
status and the scopes as well and asks for no approval. `lawful_iff_gated` says that the law holds
in every state of a run, restarts of the manager included, exactly if no update leaves a connector
connected with sensitive scopes that has no approval on record (`Gated`).
-/

namespace AgentStudio.Connectors

open PyText PyJson Rows Machine

/-! ### Runs -/

/-- A call, or the start of a new manager. -/
inductive Op
  | create (name : Json) (connType : Str) (authConfig : Json) (connectorId : Str)
      (sensitiveScopes : Json) (fresh : Str) (now : ℤ)
  | update (connectorId : Str) (updates : List (Str × Json)) (now : ℤ)
  | delete (connectorId : Str)
  | connect (connectorId approvalRef : Str) (now : ℤ)
  | disconnect (connectorId : Str) (now : ℤ)
  | test (connectorId : Str) (now : ℤ)
  | restart

/-- The manager, and the references that `connect` has been given, with the connectors. -/
structure State where
  manager : Manager
  presented : List (Str × Str)

def step : Op → State → Except Raised Json × State
  | .create name connType authConfig connectorId sensitiveScopes fresh now, s =>
    let (answer, m) :=
      s.manager.create name connType authConfig connectorId sensitiveScopes fresh now
    (answer, { s with manager := m })
  | .update connectorId updates now, s =>
    let (answer, m) := s.manager.update connectorId updates now
    (answer, { s with manager := m })
  | .delete connectorId, s =>
    let (answer, m) := s.manager.delete connectorId
    (.ok answer, { s with manager := m })
  | .connect connectorId approvalRef now, s =>
    let (answer, m) := s.manager.connect connectorId approvalRef now
    (answer, ⟨m, s.presented ++ [(connectorId, strip approvalRef)]⟩)
  | .disconnect connectorId now, s =>
    let (answer, m) := s.manager.disconnect connectorId now
    (.ok answer, { s with manager := m })
  | .test connectorId now, s =>
    let (answer, m) := s.manager.test connectorId now
    (answer, { s with manager := m })
  | .restart, s => (.ok .null, { s with manager := Manager.opened s.manager.index })

def start : State := ⟨Manager.opened [], []⟩

def reached (ops : List Op) : State := (run step ops start).2

/-! ### The law -/

def ConnectorConfig.Sensitive (c : ConnectorConfig) : Prop :=
  isStr c.status "connected" = true ∧ c.sensitiveScopes ≠ []

/-- If the connector is sensitive, it has a reference to an approval, which `connect` was given for
it. -/
def Approved (presented : List (Str × Str)) (c : ConnectorConfig) : Prop :=
  c.Sensitive → c.approvalRef ≠ [] ∧ (c.id, c.approvalRef) ∈ presented

/-- Something holds of the connectors in memory and of those in the index. -/
def Manager.All (P : ConnectorConfig → Prop) (m : Manager) : Prop :=
  (∀ c ∈ m.connectors.rows, P c) ∧ ∀ c ∈ m.index, P c

/-- All connectors are approved if they are sensitive. -/
def State.Lawful (s : State) : Prop := s.manager.All (Approved s.presented)

/-- The scopes of a connector when `update` is over, also if it has raised. -/
def ConnectorConfig.scopesLeft (c : ConnectorConfig) (updates : List (Str × Json)) : List Json :=
  match c.newScopes updates with
  | .ok scopes => scopes
  | .error _ => c.sensitiveScopes

/-- A connector when `update` is over. -/
def ConnectorConfig.updated (c : ConnectorConfig) (updates : List (Str × Json)) (now : ℤ) :
    ConnectorConfig :=
  match c.newScopes updates with
  | .ok scopes => { c.assign updates with sensitiveScopes := scopes, updatedAt := now }
  | .error _ => c.assign updates

/-- The condition on a step: an update of a connector without an approval leaves it without
sensitive scopes, or not connected. -/
def Gated (op : Op) (s : State) : Prop :=
  match op with
  | .update connectorId updates _ => ∀ c ∈ s.manager.connectors.find connectorId,
      c.approvalRef = [] →
      isStr ((updates.lookup "status".toList).getD c.status) "connected" = true →
        c.scopesLeft updates = []
  | _ => True

instance : ∀ op s, Decidable (Gated op s)
  | .update _ _ _, _ => by
    unfold Gated
    infer_instance
  | .create _ _ _ _ _ _ _, _ => isTrue trivial
  | .delete _, _ => isTrue trivial
  | .connect _ _ _, _ => isTrue trivial
  | .disconnect _ _, _ => isTrue trivial
  | .test _ _, _ => isTrue trivial
  | .restart, _ => isTrue trivial

/-! ### What holds of all connectors -/

section All

variable {P Q : ConnectorConfig → Prop} {m : Manager} {c : ConnectorConfig}

theorem Manager.All.mono (h : m.All P) (hPQ : ∀ c, P c → Q c) : m.All Q :=
  ⟨fun c hc => hPQ c (h.1 c hc), fun c hc => hPQ c (h.2 c hc)⟩

theorem Manager.All.find (h : m.All P) {connectorId : Str}
    (hc : m.connectors.find connectorId = some c) : P c :=
  h.1 c (Table.find_eq_some_iff.mp hc).1

theorem Manager.All.set (h : m.All P) (hc : P c) : (m.set c).All P := by
  refine ⟨fun x hx => ?_, h.2⟩
  rcases Table.mem_upsert.mp hx with rfl | ⟨hx, -⟩
  · exact hc
  · exact h.1 x hx

theorem Manager.All.of_set (h : (m.set c).All P) : P c :=
  h.1 c (Table.mem_upsert.mpr (Or.inl rfl))

theorem Manager.All.persistIndex (h : m.All P) : m.persistIndex.All P := ⟨h.1, h.1⟩

theorem Manager.All.opened (h : m.All P) : (Manager.opened m.index).All P := by
  refine ⟨fun c hc => ?_, h.2⟩
  rcases Table.mem_upserts hc with hc | ⟨hc, -⟩
  · exact h.2 c hc
  · exact absurd hc List.not_mem_nil

theorem Manager.All.delete (h : m.All P) (connectorId : Str) : (m.delete connectorId).2.All P := by
  unfold Manager.delete
  split
  · exact h
  · exact Manager.All.persistIndex ⟨fun c hc => h.1 c (List.mem_of_mem_filter hc), h.2⟩

end All

/-! ### What the calls write -/

section Calls

variable {P : ConnectorConfig → Prop} {m : Manager}

variable {connectorId : Str} {now : ℤ}

theorem Manager.All.create (h : m.All P) {name : Json} {connType : Str} {authConfig : Json}
    {sensitiveScopes : Json} {fresh : Str}
    (hP : ∀ c : ConnectorConfig, c.status = .str "disconnected" → c.approvalRef = [] → P c) :
    (m.create name connType authConfig connectorId sensitiveScopes fresh now).2.All P := by
  unfold Manager.create
  dsimp only
  split
  · exact h
  · split
    · exact h
    · split
      · exact h
      · exact (h.set (hP _ rfl rfl)).persistIndex

theorem Manager.All.disconnect (h : m.All P)
    (hP : ∀ c, P c → P { c with status := .str "disconnected", updatedAt := now }) :
    (m.disconnect connectorId now).2.All P := by
  unfold Manager.disconnect
  split
  · exact h
  · next c hc => exact (h.set (hP c (h.find hc))).persistIndex

theorem Manager.All.test (h : m.All P) (hP : ∀ c, P c → P { c with lastTestedAt := some now }) :
    (m.test connectorId now).2.All P := by
  unfold Manager.test
  split
  · exact h
  · next c hc =>
    split
    · exact h
    · exact (h.set (hP c (h.find hc))).persistIndex

/-- Where `connect` comes to the test of the authentication, there are no sensitive scopes or the
reference is not blank. -/
theorem Manager.All.connect (h : m.All P) {approvalRef : Str}
    (hP : ∀ c passed, m.connectors.find connectorId = some c → P c →
      (c.sensitiveScopes ≠ [] → strip approvalRef ≠ []) →
      P (c.tested passed (strip approvalRef) now)) :
    (m.connect connectorId approvalRef now).2.All P := by
  unfold Manager.connect
  split
  · exact h
  · next c hc =>
    dsimp only
    split_ifs with hgate
    · exact h
    · split
      · exact h
      · next passed _ =>
        have href : c.sensitiveScopes ≠ [] → strip approvalRef ≠ [] := fun hs hr => hgate ⟨hs, hr⟩
        exact (h.set (hP c passed hc (h.find hc) href)).persistIndex

theorem Manager.update_all_iff (h : m.All P) {updates : List (Str × Json)} :
    (m.update connectorId updates now).2.All P ↔
      ∀ c ∈ m.connectors.find connectorId, P (c.updated updates now) := by
  unfold Manager.update
  split
  · next hnone => simp [hnone, h]
  · next c hc =>
    rw [hc]
    simp only [Option.mem_def, Option.some.injEq, forall_eq']
    unfold ConnectorConfig.updated
    cases c.newScopes updates with
    | error e => exact ⟨Manager.All.of_set, h.set⟩
    | ok scopes =>
      exact ⟨fun hall => Manager.All.of_set (m := m) ⟨hall.1, h.2⟩,
        fun hc => (h.set hc).persistIndex⟩

end Calls

/-! ### The invariant -/

/-- A reference on record is one that `connect` was given for the connector. -/
def Presented (presented : List (Str × Str)) (c : ConnectorConfig) : Prop :=
  c.approvalRef ≠ [] → (c.id, c.approvalRef) ∈ presented

/-- The references on record were given to `connect`. -/
def State.Recorded (s : State) : Prop := s.manager.All (Presented s.presented)

theorem ConnectorConfig.updated_spec (c : ConnectorConfig) (updates : List (Str × Json)) (now : ℤ) :
    (c.updated updates now).id = c.id ∧ (c.updated updates now).approvalRef = c.approvalRef ∧
      (c.updated updates now).status = (updates.lookup "status".toList).getD c.status ∧
      (c.updated updates now).sensitiveScopes = c.scopesLeft updates := by
  unfold ConnectorConfig.updated ConnectorConfig.scopesLeft
  split <;> exact ⟨rfl, rfl, rfl, rfl⟩

/-- The test of the authentication leaves the identifier alone; the reference is the one it was, or
the one that was given. -/
theorem ConnectorConfig.tested_spec (c : ConnectorConfig) (passed : Bool) (ref : Str) (now : ℤ) :
    (c.tested passed ref now).id = c.id ∧
      (c.tested passed ref now).sensitiveScopes = c.sensitiveScopes ∧
      ((c.tested passed ref now).approvalRef = c.approvalRef ∨
        (c.tested passed ref now).approvalRef = ref) ∧
      ((c.tested passed ref now).Sensitive → (c.tested passed ref now).approvalRef = ref) := by
  cases passed with
  | false =>
    refine ⟨rfl, rfl, Or.inl rfl, fun h => ?_⟩
    exact absurd h.1 (by simp [ConnectorConfig.tested, isStr])
  | true =>
    unfold ConnectorConfig.tested
    by_cases hs : c.sensitiveScopes = []
    · refine ⟨by simp [hs], by simp [hs], Or.inl (by simp [hs]), fun h => ?_⟩
      exact absurd hs (by simpa [hs] using h.2)
    · exact ⟨by simp [hs], by simp [hs], Or.inr (by simp [hs]), fun _ => by simp [hs]⟩

theorem approved_mono {presented : List (Str × Str)} {c : ConnectorConfig}
    (h : Approved presented c) (e : Str × Str) : Approved (presented ++ [e]) c :=
  fun hs => (h hs).imp_right (List.mem_append_left _)

theorem presented_mono {presented : List (Str × Str)} {c : ConnectorConfig}
    (h : Presented presented c) (e : Str × Str) : Presented (presented ++ [e]) c :=
  fun hr => List.mem_append_left _ (h hr)

theorem State.Recorded.step {s : State} (h : s.Recorded) (op : Op) : (step op s).2.Recorded := by
  cases op with
  | create name connType authConfig connectorId sensitiveScopes fresh now =>
    exact Manager.All.create h fun c _ href hne => absurd href hne
  | update connectorId updates now =>
    refine (Manager.update_all_iff h).mpr fun c hc => ?_
    obtain ⟨hid, href, -, -⟩ := c.updated_spec updates now
    unfold Presented
    rw [hid, href]
    exact Manager.All.find h hc
  | delete connectorId => exact Manager.All.delete h connectorId
  | connect connectorId approvalRef now =>
    refine Manager.All.connect (Manager.All.mono h fun c hc => presented_mono hc _)
      fun c passed hfind hc _ hne => ?_
    obtain ⟨hid, -, hkept | hgiven, -⟩ := c.tested_spec passed (strip approvalRef) now
    · rw [hkept] at hne
      rw [hid, hkept]
      exact hc hne
    · rw [hid, hgiven, (Table.find_eq_some_iff.mp hfind).2]
      exact List.mem_append_right _ List.mem_cons_self
  | disconnect connectorId now => exact Manager.All.disconnect h fun c hc => hc
  | test connectorId now => exact Manager.All.test h fun c hc => hc
  | restart => exact Manager.All.opened h

theorem lawful_step_iff {s : State} (hr : s.Recorded) (h : s.Lawful) (op : Op) :
    (step op s).2.Lawful ↔ Gated op s := by
  cases op with
  | create name connType authConfig connectorId sensitiveScopes fresh now =>
    refine iff_of_true (Manager.All.create h fun c hstatus _ hs => ?_) trivial
    exact absurd hs.1 (by simp [hstatus, isStr])
  | update connectorId updates now =>
    refine (Manager.update_all_iff h).trans (forall₂_congr fun c hc => ?_)
    obtain ⟨hid, href, hstatus, hscopes⟩ := c.updated_spec updates now
    unfold Approved ConnectorConfig.Sensitive
    rw [hid, href, hstatus, hscopes]
    constructor
    · intro happroved hnone hconnected
      by_contra hne
      exact (happroved ⟨hconnected, hne⟩).1 hnone
    · rintro hgated ⟨hconnected, hne⟩
      have hsome : c.approvalRef ≠ [] := fun hnone => hne (hgated hnone hconnected)
      exact ⟨hsome, Manager.All.find hr hc hsome⟩
  | delete connectorId => exact iff_of_true (Manager.All.delete h connectorId) trivial
  | connect connectorId approvalRef now =>
    refine iff_of_true (Manager.All.connect (Manager.All.mono h fun c hc => approved_mono hc _)
      fun c passed hfind _ hgate hs => ?_) trivial
    obtain ⟨hid, hscopes, -, hgiven⟩ := c.tested_spec passed (strip approvalRef) now
    rw [hid, hgiven hs, (Table.find_eq_some_iff.mp hfind).2]
    exact ⟨hgate (hscopes ▸ hs.2), List.mem_append_right _ List.mem_cons_self⟩
  | disconnect connectorId now =>
    refine iff_of_true (Manager.All.disconnect h fun c _ hs => ?_) trivial
    exact absurd hs.1 (by simp [isStr])
  | test connectorId now =>
    exact iff_of_true (Manager.All.test h fun c hc => hc) trivial
  | restart => exact iff_of_true (Manager.All.opened h) trivial

/-- In every run, sensitive connectors are connected with an approval throughout exactly if every
update is gated. -/
theorem lawful_iff_gated (ops : List Op) :
    (∀ n, (reached (ops.take n)).Lawful) ↔ Along step Gated ops start := by
  have hstart : ∀ P, start.manager.All P :=
    fun P => ⟨List.forall_mem_nil _, List.forall_mem_nil _⟩
  have hthroughout := run_throughout_iff (I := State.Lawful) (J := State.Recorded)
    (fun op s h => State.Recorded.step h op) (fun op s hr h => lawful_step_iff hr h op) ops
    (hstart (Presented start.presented))
  exact hthroughout.trans (and_iff_right (hstart (Approved start.presented)))

/-- An update connects a new connector with a sensitive scope. -/
theorem connected_without_approval :
    ¬ ∀ (ops : List Op) (n : ℕ), (reached (ops.take n)).Lawful := by
  intro hall
  have hlaw := (hall [.create (.str "mail") "api_key" (.obj []) "c"
    (.arr [.str "mail.send"]) [] 1,
    .update "c" [("status", .str "connected")] 2] 2).1
  have hsensitive := hlaw _ List.mem_cons_self
  exact (hsensitive ⟨rfl, List.cons_ne_nil _ _⟩).1 rfl

end AgentStudio.Connectors

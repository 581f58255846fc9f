import AgentStudio.Tasks.View

/-!
# What the coroutines of the daemon share

The coroutines of `agent_runtime/daemon_server.py` share the task store and the evidence files.
An evidence file belongs to one execution of a graph: `_write_evidence` appends a record for each
change of its state, and `_read_evidence_tail` reads the last ones back. A record is terminal if it
says that the execution has completed, failed or was cancelled.

A coroutine changes the store by operations (`World.call`), each with the readings of the clock
that it makes.
-/

namespace AgentStudio.Daemon

open PyText PyDict PyJson Tasks

/-! ### Evidence -/

/-- The types of evidence records, without `execution.`. -/
inductive EvidenceType where
  | started
  | progress
  | completed
  | failed
  | cancelled
deriving DecidableEq

def EvidenceType.terminal : EvidenceType → Bool
  | .completed | .failed | .cancelled => true
  | .started | .progress => false

/-- The status of a task whose execution has ended with a record, or goes on. -/
def EvidenceType.taskStatus : EvidenceType → Status
  | .completed => .completed
  | .failed => .failed
  | .cancelled => .canceled
  | .started | .progress => .running

/-- A record of an evidence file, with the fields that its type has. -/
structure Evidence where
  type : EvidenceType
  executionId : Str
  ts : ℤ
  graphId : Str := []
  sessionId : Str := []
  taskId : Str := []
  nodeId : Str := []
  eventsCount : ℕ := 0
  artifactIds : List Str := []
  runArtifactId : Str := []
  stopReason : Str := []
  error : Str := []
deriving DecidableEq

/-- `_evidence_path`, under the directory of the daemon. -/
def evidencePath (executionId team : Str) : Str :=
  orDefault "default" team ++ "/evidence/executions/" ++ executionId ++
    ".jsonl"

/-- The task store and the evidence files. -/
structure World where
  store : Store
  files : List (Str × List Evidence)

namespace World

variable (w : World)

def evidence (path : Str) : List Evidence := (w.files.lookup path).getD []

/-- `_write_evidence`. -/
def writeEvidence (path : Str) (e : Evidence) : World :=
  { w with files := setItem path (w.evidence path ++ [e]) w.files }

/-- `_read_evidence_tail` and `_read_evidence_tail_by_path`: the last records of a file. -/
def readEvidenceTail (path : Str) (n : ℕ) : List Evidence :=
  (w.evidence path).drop ((w.evidence path).length - n)

def terminalEvidence (path : Str) : List Evidence := (w.evidence path).filter (·.type.terminal)

def lastEvidence (path : Str) : Option EvidenceType :=
  (w.evidence path).getLast?.map Evidence.type

/-! ### The task store -/

def call (op : Op) (clock : ℕ → ℤ) : World := { w with store := (w.store.step ⟨op, clock⟩).2 }

/-- `update_status`, with the readings of the clock. -/
def updateStatus (taskId : Str) (status : Status) (lastResult : Option Dict) (lastError : Str)
    (clock : ℕ → ℤ) : World :=
  w.call (.updateStatus taskId status lastResult lastError none) clock

/-- The artifacts of a run are added to its task, if there are any. -/
def addArtifacts (taskId : Str) (artifactIds : List Str) (clock : ℕ → ℤ) : World :=
  if artifactIds = [] then w else w.call (.addArtifacts taskId artifactIds) clock

def status (taskId : Str) : Option Status :=
  ((w.store.db.tasks.find taskId).filter fun _ => w.store.sees taskId).map Record.status

def Linked (taskId : Str) : Prop := taskId ≠ [] ∧ w.status taskId ≠ none

variable {w}

@[simp] theorem store_writeEvidence (path : Str) (e : Evidence) :
    (w.writeEvidence path e).store = w.store := rfl

@[simp] theorem files_call (op : Op) (clock : ℕ → ℤ) : (w.call op clock).files = w.files := rfl

@[simp] theorem status_writeEvidence (path : Str) (e : Evidence) (taskId : Str) :
    (w.writeEvidence path e).status taskId = w.status taskId := rfl

@[simp] theorem evidence_call (op : Op) (clock : ℕ → ℤ) (path : Str) :
    (w.call op clock).evidence path = w.evidence path := rfl

@[simp] theorem evidence_writeEvidence (path k : Str) (e : Evidence) :
    (w.writeEvidence path e).evidence k =
      if k = path then w.evidence path ++ [e] else w.evidence k := by
  rw [evidence, writeEvidence, lookup_setItem]
  split_ifs <;> rfl

theorem lastEvidence_writeEvidence (path : Str) (e : Evidence) :
    (w.writeEvidence path e).lastEvidence path = some e.type := by
  simp [lastEvidence]

theorem getLast?_readEvidenceTail (path : Str) (n : ℕ) :
    (w.readEvidenceTail path (n + 1)).getLast? = (w.evidence path).getLast? := by
  rw [readEvidenceTail, List.getLast?_drop]
  split_ifs with h
  · have hnil : w.evidence path = [] := List.eq_nil_of_length_eq_zero (by omega)
    rw [hnil]
    rfl
  · rfl

/-! ### Statuses -/

theorem status_put {s : Store} (hs : Store.Alike w.store s) {id : Str} {t u : Task} {r : Row}
    (hsees : w.store.sees id = true) (hr : w.store.db.tasks.find id = some r)
    (hrt : norm t = fromRow r) (hid : u.taskId = t.taskId)
    (hkey : u.idempotencyKey = t.idempotencyKey) (k : Str) :
    ({ w with store := s.put id u } : World).status k =
      if k = id then some u.status else w.status k := by
  obtain ⟨-, hfind, hsees'⟩ := hs.cached.put (hs.db ▸ hr) hrt hid hkey ((hs.sees id).trans hsees)
  simp only [status, hfind, hsees', hs.sees, hs.db]
  split_ifs with hk
  · subst hk
    simp [hsees, toRow]
  · rfl

def SameRow (w w' : World) (k : Str) : Prop :=
  w'.store.db.tasks.find k = w.store.db.tasks.find k ∧ w'.store.sees k = w.store.sees k

theorem SameRow.status {w' : World} {k : Str} (h : SameRow w w' k) : w'.status k = w.status k := by
  simp only [World.status, h.1, h.2]

theorem SameRow.trans {w' w'' : World} {k : Str} (h : SameRow w w' k) (h' : SameRow w' w'' k) :
    SameRow w w'' k := ⟨h'.1.trans h.1, h'.2.trans h.2⟩

theorem sameRow_call_of_ne (h : w.store.Cached) {op : Op} {id : Str} (hop : op.target = some id)
    (clock : ℕ → ℤ) {k : Str} (hk : k ≠ id) : SameRow w (w.call op clock) k := by
  have hchanged := h.changed (c := ⟨op, clock⟩) hop
  refine ⟨?_, hchanged.sees k⟩
  rcases hchanged.row with hrow | ⟨r, t, -, -, -, hrow⟩
  · exact hrow k
  · exact (hrow k).trans (if_neg hk)

theorem status_call_of_ne (h : w.store.Cached) {op : Op} {id : Str} (hop : op.target = some id)
    (clock : ℕ → ℤ) {k : Str} (hk : k ≠ id) : (w.call op clock).status k = w.status k :=
  (sameRow_call_of_ne h hop clock hk).status

theorem status_call_updateStatus (h : w.store.Cached) (id : Str) {status : Status}
    (hvalid : status.valid = true) (lastResult : Option Dict) (lastError : Str)
    (retryCount : Option ℤ) (clock : ℕ → ℤ) (k : Str) :
    (w.call (.updateStatus id status lastResult lastError retryCount) clock).status k =
      if k = id then (w.status id).map fun _ => status else w.status k := by
  have hcall : w.call (.updateStatus id status lastResult lastError retryCount) clock =
      { w with store :=
        (w.store.updateStatus id status lastResult lastError retryCount clock).2 } := rfl
  rcases h.updateStatus_cases id status lastResult lastError retryCount clock with
    ⟨hsees, heq⟩ | ⟨t, r, s', hsees, hr, hrt, hs, heq⟩
  · have hnone : w.status id = none := by simp [World.status, hsees]
    rw [hcall, heq, hnone]
    split_ifs with hk
    · exact hk ▸ hnone
    · rfl
  · have hsome : w.status id = some r.status := by simp [World.status, hsees, hr]
    rw [hcall, heq, if_pos hvalid, hsome]
    exact status_put (u := Store.updated t status lastResult lastError retryCount (clock 0)) hs
      hsees hr hrt rfl rfl k

theorem status_withTask (h : w.store.Cached) {α : Type} {id : Str} {missing : α}
    {f : Task → Store → α × Store} {u : Task → Task} (hf : ∀ t s, (f t s).2 = s.put id (u t))
    (hu : ∀ t, (u t).taskId = t.taskId ∧ (u t).idempotencyKey = t.idempotencyKey ∧
      (u t).status = t.status) (k : Str) :
    ({ w with store := (w.store.withTask id missing f).2 } : World).status k = w.status k := by
  rcases h.withTask_cases id missing f with ⟨-, heq⟩ | ⟨t, r, s', hsees, hr, hrt, hs, heq⟩ <;>
    rw [heq]
  obtain ⟨hid, hkey, hstatus⟩ := hu t
  rw [hf, status_put hs hsees hr hrt hid hkey]
  split_ifs with hk
  · have htr : t.status = r.status := congrArg Record.status hrt
    simp [hk, World.status, hsees, hr, hstatus, htr]
  · rfl

theorem status_addArtifacts (h : w.store.Cached) (id : Str) (artifactIds : List Str)
    (clock : ℕ → ℤ) (k : Str) : (w.addArtifacts id artifactIds clock).status k = w.status k := by
  unfold addArtifacts
  split_ifs
  · rfl
  · exact status_withTask (u := fun t => { t with
      artifactIds := artifactIds.foldl
        (fun ids aid => if aid ≠ [] ∧ aid ∉ ids then ids ++ [aid] else ids) t.artifactIds
      updatedAt := clock 0 }) h (fun _ _ => rfl) (fun _ => ⟨rfl, rfl, rfl⟩) k

theorem status_call_setEvidence (h : w.store.Cached) (id evidenceRef : Str) (clock : ℕ → ℤ)
    (k : Str) : (w.call (.setEvidence id evidenceRef) clock).status k = w.status k :=
  status_withTask (u := fun t => { t with evidenceRef, updatedAt := clock 0 }) h
    (fun _ _ => rfl) (fun _ => ⟨rfl, rfl, rfl⟩) k

theorem cached_call (h : w.store.Cached) (op : Op) (clock : ℕ → ℤ) :
    (w.call op clock).store.Cached := h.step _

/-! ### What a coroutine does to the store -/

def On (taskId : Str) (c : Call) : Prop := c.op.target = some taskId

/-- The store changes by operations that meet a condition. -/
def Acts (ok : Call → Prop) (w w' : World) : Prop :=
  ∃ calls : List Call, (∀ c ∈ calls, ok c) ∧ w'.store = (Machine.run Store.step calls w.store).2

namespace Acts

variable {ok : Call → Prop} {w' w'' : World}

theorem of_store_eq (h : w'.store = w.store) : Acts ok w w' := ⟨[], by simp, h⟩

theorem refl (w : World) : Acts ok w w := of_store_eq rfl

theorem trans (h : Acts ok w w') (h' : Acts ok w' w'') : Acts ok w w'' := by
  obtain ⟨calls, hcalls, heq⟩ := h
  obtain ⟨calls', hcalls', heq'⟩ := h'
  refine ⟨calls ++ calls', fun c hc => ?_, ?_⟩
  · exact (List.mem_append.mp hc).elim (hcalls c) (hcalls' c)
  · rw [heq', heq, Machine.run_append]

theorem mono {ok' : Call → Prop} (h : Acts ok w w') (hok : ∀ c, ok c → ok' c) : Acts ok' w w' := by
  obtain ⟨calls, hcalls, heq⟩ := h
  exact ⟨calls, fun c hc => hok c (hcalls c hc), heq⟩

theorem call {op : Op} {clock : ℕ → ℤ} (h : ok ⟨op, clock⟩) : Acts ok w (w.call op clock) :=
  ⟨[⟨op, clock⟩], by simpa using h, rfl⟩

theorem and_call (h : Acts ok w w') {op : Op} {clock : ℕ → ℤ} (hop : ok ⟨op, clock⟩) :
    Acts ok w (w'.call op clock) := h.trans (call hop)

theorem invariant {I : Store → Prop} (h : Acts ok w w')
    (hstep : ∀ c s, I s → ok c → I (s.step c).2) (hI : I w.store) : I w'.store := by
  obtain ⟨calls, hcalls, heq⟩ := h
  rw [heq]
  clear heq
  induction calls generalizing w with
  | nil => exact hI
  | cons c calls ih =>
    exact ih (w := { w with store := (w.store.step c).2 })
      (hstep c w.store hI (hcalls c List.mem_cons_self))
      fun c' hc' => hcalls c' (List.mem_cons_of_mem c hc')

theorem cached (h : Acts ok w w') (hw : w.store.Cached) : w'.store.Cached :=
  h.invariant (fun c _ hs _ => hs.step c) hw

/-! #### Operations on one task -/

theorem on_call {id : Str} (h : Acts (On id) w w') {op : Op} (hop : op.target = some id)
    (clock : ℕ → ℤ) : Acts (On id) w (w'.call op clock) := h.and_call hop

theorem on_updateStatus {id : Str} (h : Acts (On id) w w') (status : Status)
    (lastResult : Option Dict) (lastError : Str) (clock : ℕ → ℤ) :
    Acts (On id) w (w'.updateStatus id status lastResult lastError clock) := h.on_call rfl clock

theorem on_addArtifacts {id : Str} (h : Acts (On id) w w') (artifactIds : List Str)
    (clock : ℕ → ℤ) : Acts (On id) w (w'.addArtifacts id artifactIds clock) := by
  unfold addArtifacts
  split_ifs
  · exact h
  · exact h.on_call rfl clock

theorem sameRow_of_ne {id : Str} (h : Acts (On id) w w') (hw : w.store.Cached) {k : Str}
    (hk : k ≠ id) : SameRow w w' k := by
  have hboth := h.invariant (I := fun s => s.Cached ∧ SameRow w { w with store := s } k)
    (fun c s hs hc => ⟨hs.1.step c,
      hs.2.trans (sameRow_call_of_ne (w := { w with store := s }) hs.1 hc c.clock hk)⟩)
    ⟨hw, rfl, rfl⟩
  exact hboth.2

end Acts

end World

end AgentStudio.Daemon

import AgentStudio.Library.JsonRoundTrip

/-!
# Task records

The data model of `agent_runtime/task_store.py`. A task and its row in the table `tasks` are
one record type, `Record`: in the row, the two lists and the result are JSON texts. Times are
in microseconds.

Statuses, triggers and review states are enumerations with one more case for any other text,
which the operations reject or replace.

`fromRow_toRow` is what a written task reads back as: an empty team, sandbox or review state
comes back as its default (`norm`), everything else unchanged.
-/

namespace AgentStudio.Tasks

open PyText PyJson

/-! ### Enumerations -/

/-- `_VALID_STATUSES`. -/
def statusNames : List Str :=
  ["canceled", "completed", "failed", "pending", "running"].map String.toList

inductive Status where
  | pending
  | running
  | completed
  | failed
  | canceled
  | other (name : Str) (notValid : name ∉ statusNames)
deriving DecidableEq

def Status.empty : Status := .other [] (by decide)

/-- Whether a status is one of `_VALID_STATUSES`. -/
def Status.valid : Status → Bool
  | .other _ _ => false
  | _ => true

/-- `_VALID_TRIGGERS`. -/
def triggerNames : List Str := ["cron", "immediate", "run_at"].map String.toList

inductive Trigger where
  | immediate
  | cron
  | runAt
  | other (name : Str) (notValid : name ∉ triggerNames)
deriving DecidableEq

/-- Whether a trigger is one of `_VALID_TRIGGERS`. -/
def Trigger.valid : Trigger → Bool
  | .other _ _ => false
  | _ => true

/-- `_VALID_REVIEW_STATES`. -/
def reviewStateNames : List Str := ["approved", "needs_fix", "none", "review"].map String.toList

inductive ReviewState where
  | none
  | review
  | needsFix
  | approved
  | other (name : Str) (notValid : name ∉ reviewStateNames)
deriving DecidableEq

def ReviewState.empty : ReviewState := .other [] (by decide)

/-- Whether a review state is one of `_VALID_REVIEW_STATES`. -/
def ReviewState.valid : ReviewState → Bool
  | .other _ _ => false
  | _ => true

/-! ### Records -/

/-- The fields of a task, with lists in `L` and the result in `D`. -/
structure Record (L D : Type) where
  taskId : Str
  title : Str
  description : Str
  agentId : Str
  graphId : Str
  trigger : Trigger
  cronExpression : Str
  runAt : ℤ
  cronJobId : Str
  input : Str
  status : Status
  priority : ℤ
  projectId : Str
  artifactIds : L
  lastResult : D
  lastError : Str
  retryCount : ℤ
  maxRetries : ℤ
  createdAt : ℤ
  updatedAt : ℤ
  lastRunAt : ℤ
  idempotencyKey : Str
  reviewState : ReviewState
  attemptToken : Str
  ownerRole : Str
  ownerAgent : Str
  resourceLeaseId : Str
  evidenceRef : Str
  team : Str
  dependsOn : L
  sandbox : Str

/-- `Task`. -/
abbrev Task := Record (List Str) Dict

/-- A row of the table `tasks`. -/
abbrev Row := Record Str Str

/-- `Task()`, a task with the defaults of the class. -/
def Task.default : Task where
  taskId := []
  title := []
  description := []
  agentId := []
  graphId := []
  trigger := .immediate
  cronExpression := []
  runAt := 0
  cronJobId := []
  input := []
  status := .pending
  priority := 0
  projectId := []
  artifactIds := []
  lastResult := Dict.empty
  lastError := []
  retryCount := 0
  maxRetries := 0
  createdAt := 0
  updatedAt := 0
  lastRunAt := 0
  idempotencyKey := []
  reviewState := .none
  attemptToken := []
  ownerRole := []
  ownerAgent := []
  resourceLeaseId := []
  evidenceRef := []
  team := "default"
  dependsOn := []
  sandbox := "local"

/-! ### Rows -/

/-- `value or default`. -/
def orDefault (default value : Str) : Str := if value = [] then default else value

def dumpTexts (l : List Str) : Str := dumps none (.arr (l.map .str))

/-- A list column read back; the store writes lists of strings, and anything else reads as
the empty list. -/
def loadTexts (text : Str) : List Str :=
  match loads text with
  | some (.arr vs) => vs.filterMap decodeStr
  | _ => []

/-- The result column read back; anything but a dictionary reads as the empty one. -/
def loadResult (text : Str) : Dict := ((loads text).bind decodeDict).getD Dict.empty

/-- The row that `_save_task` writes. -/
def toRow (t : Task) : Row :=
  { t with
    artifactIds := dumpTexts t.artifactIds
    lastResult := dumps none t.lastResult.toJson
    dependsOn := dumpTexts t.dependsOn
    sandbox := orDefault "local" t.sandbox }

/-- `Task.from_row`. -/
def fromRow (r : Row) : Task :=
  { r with
    artifactIds := loadTexts r.artifactIds
    lastResult := loadResult r.lastResult
    reviewState := if r.reviewState = .empty then .none else r.reviewState
    team := orDefault "default" r.team
    dependsOn := loadTexts r.dependsOn
    sandbox := orDefault "local" r.sandbox }

/-- A task with the defaults that reading a row puts in. -/
def norm (t : Task) : Task :=
  { t with
    reviewState := if t.reviewState = .empty then .none else t.reviewState
    team := orDefault "default" t.team
    sandbox := orDefault "local" t.sandbox }

/-- A task that reads back unchanged. -/
structure Normal (t : Task) : Prop where
  reviewState : t.reviewState ≠ .empty
  team : t.team ≠ []
  sandbox : t.sandbox ≠ []

instance (t : Task) : Decidable (Normal t) :=
  decidable_of_iff (t.reviewState ≠ .empty ∧ t.team ≠ [] ∧ t.sandbox ≠ [])
    ⟨fun h => ⟨h.1, h.2.1, h.2.2⟩, fun h => ⟨h.reviewState, h.team, h.sandbox⟩⟩

theorem orDefault_ne_nil {d v : Str} (hd : d ≠ []) : orDefault d v ≠ [] := by
  unfold orDefault
  split_ifs with h
  · exact hd
  · exact h

theorem orDefault_of_ne_nil {d v : Str} (hv : v ≠ []) : orDefault d v = v := if_neg hv

theorem orDefault_orDefault (d v : Str) : orDefault d (orDefault d v) = orDefault d v := by
  unfold orDefault
  split_ifs <;> simp_all

@[simp] theorem loadTexts_dumpTexts (l : List Str) : loadTexts (dumpTexts l) = l := by
  have hwf : Json.WF (.arr (l.map .str)) := itemsWF_iff.mpr fun v hv => by
    obtain ⟨s, -, rfl⟩ := List.mem_map.mp hv
    trivial
  rw [loadTexts, dumpTexts, loads_dumps _ hwf]
  simp only [List.filterMap_map]
  exact List.filterMap_some

@[simp] theorem loadResult_dumps (d : Dict) : loadResult (dumps none d.toJson) = d := by
  rw [loadResult, loads_dumps _ d.toJson_wf, Option.bind_some]
  exact congrArg (Option.getD · Dict.empty) (Dict.ofMembers_members d)

/-- **Round trip.** A written task reads back with its defaults put in. -/
theorem fromRow_toRow (t : Task) : fromRow (toRow t) = norm t := by
  simp only [fromRow, toRow, norm, orDefault_orDefault, loadTexts_dumpTexts, loadResult_dumps]
  rfl

theorem normal_fromRow (r : Row) : Normal (fromRow r) where
  reviewState := by
    simp only [fromRow]
    split_ifs with h
    · decide
    · exact h
  team := orDefault_ne_nil (by decide)
  sandbox := orDefault_ne_nil (by decide)

theorem norm_eq_self {t : Task} (h : Normal t) : norm t = t := by
  simp [norm, h.reviewState, orDefault_of_ne_nil h.team, orDefault_of_ne_nil h.sandbox]

theorem norm_fromRow (r : Row) : norm (fromRow r) = fromRow r := norm_eq_self (normal_fromRow r)

@[simp] theorem toRow_taskId (t : Task) : (toRow t).taskId = t.taskId := rfl

@[simp] theorem toRow_idempotencyKey (t : Task) :
    (toRow t).idempotencyKey = t.idempotencyKey := rfl

@[simp] theorem fromRow_taskId (r : Row) : (fromRow r).taskId = r.taskId := rfl

@[simp] theorem fromRow_idempotencyKey (r : Row) :
    (fromRow r).idempotencyKey = r.idempotencyKey := rfl

end AgentStudio.Tasks

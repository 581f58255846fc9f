import AgentStudio.Agents.Manifest
import AgentStudio.Library.Machine
import Mathlib.Algebra.Order.Ring.Rat
import Mathlib.Tactic.FieldSimp
import Mathlib.Tactic.Linarith

/-!
# Restoring a version

A snapshot that is restored should give an agent the manifest that it had when the snapshot was
taken (`Restores`), and two contents of an agent should never be published under one number
(`Watched.Numbered`). A `Watched` studio remembers the manifests of the snapshots and what has been
published under which number.

`restore_version` writes the fields that `agent.update` writes. `max_iterations` is not one of them,
though `agent.configure` sets it: it keeps the value of the moment (`restores_iff`). And
`version_int`, from which `publish` counts on, is one of them: after a restore the numbers that have
been given out since the snapshot are given out again. `VersionSafe` is the condition that rules out
both, and `versions_kept` says that it is enough in every run.

`Effect` is what a request does, and the invariants are case analyses over it.
-/

namespace AgentStudio.Agents

open PyText PyDict PyJson Machine

/-! ### Studios that are watched -/

/-- What has been published: the agent, the number, and the manifest. -/
structure Published where
  agentId : Str
  version : Json
  content : AgentManifest

/-- A studio, with the manifests of the snapshots and what has been published. -/
structure Watched where
  studio : Studio
  taken : List ((Str × Str) × AgentManifest)
  published : List Published

/-- The snapshot that a request takes, by its answer. -/
def Studio.takenBy (s : Studio) : Request → Answer → List ((Str × Str) × AgentManifest)
  | .snapshot agentId versionId _ _, .snapshot _ =>
    (s.agents agentId).toList.map fun p => ((agentId, versionId), p.manifest)
  | _, _ => []

def Studio.publishedBy (s : Studio) : Request → Answer → List Published
  | .publish agentId _, .published version _ =>
    (s.agents agentId).toList.map fun p => ⟨agentId, version, p.manifest⟩
  | _, _ => []

namespace Watched

def empty : Watched := ⟨Studio.empty, [], []⟩

def step (r : Request) (w : Watched) : Answer × Watched :=
  let (answer, s) := w.studio.handle r
  (answer, ⟨s, w.taken ++ w.studio.takenBy r answer, w.published ++ w.studio.publishedBy r answer⟩)

end Watched

/-- The manifests agree in all that is not about their publication. -/
def SameContent (m m' : AgentManifest) : Prop :=
  ∀ f, f ≠ .status → f ≠ .versionInt → f ≠ .publishedAt → m f = m' f

/-- No number has been given to two contents of an agent. -/
def Watched.Numbered (w : Watched) : Prop :=
  ∀ e ∈ w.published, ∀ e' ∈ w.published, e.agentId = e'.agentId → e.version = e'.version →
    SameContent e.content e'.content

/-- A request to restore a snapshot gives all fields the values that they had when it was taken. -/
def Restores (r : Request) (w : Watched) : Prop :=
  match r with
  | .restoreVersion agentId versionId =>
    ∀ m, versionId ≠ [] → w.taken.lookup (agentId, versionId) = some m →
      ∃ p, (w.step r).2.studio.agents agentId = some p ∧ ∀ f, p.manifest f = m f
  | _ => True

/-! ### The condition -/

def value (n : Number) : ℚ := n.mantissa / 10 ^ n.scale

def number : Json → Option ℚ
  | .num n => some (value n)
  | .bool b => some (if b then 1 else 0)
  | _ => none

/-- The request writes `version_int` of an agent. -/
def setsVersion (r : Request) (s : Studio) : Option (Str × Json) :=
  match r with
  | .create agentId _ _ params =>
    some (agentId, (params.lookup Field.versionInt.key).getD Field.versionInt.default)
  | .update agentId params => (params.lookup Field.versionInt.key).map fun v => (agentId, v)
  | .restoreVersion agentId versionId =>
    (s.getVersion agentId versionId).bind fun record =>
      (record.snapshotData.lookup Field.versionInt.key).map fun v => (agentId, v)
  | _ => none

/-- A snapshot is restored only with the `max_iterations` that the agent has. -/
def KeepsIterations (r : Request) (w : Watched) : Prop :=
  match r with
  | .restoreVersion agentId versionId =>
    versionId ≠ [] → ∀ p record, w.studio.agents agentId = some p →
      w.studio.getVersion agentId versionId = some record →
        p.manifest .maxIterations = AgentManifest.fromDict record.snapshotData .maxIterations
  | _ => True

/-- The condition on a request: it restores no snapshot with another `max_iterations`, and no
request sets `version_int` of an agent below a number that has been given out. -/
structure VersionSafe (r : Request) (w : Watched) : Prop where
  iterations : KeepsIterations r w
  numbers : ∀ x, setsVersion r w.studio = some x → ∀ e ∈ w.published, e.agentId = x.1 →
    ∀ q v, number e.version = some q → number x.2 = some v → q ≤ v

/-! ### What a request does -/

theorem value_succ (n : Number) : value n.succ = value n + 1 := by
  have hten : (10 : ℚ) ^ n.scale ≠ 0 := pow_ne_zero _ (by norm_num)
  unfold value Number.succ
  push_cast
  field_simp

theorem value_ofInt (m : ℤ) : value (Number.ofInt m) = m := by
  simp [value, Number.ofInt]

theorem number_increment {j v : Json} (h : increment j = some v) :
    ∃ q, number j = some q ∧ number v = some (q + 1) := by
  cases j with
  | num n =>
    obtain rfl := Option.some.inj h
    exact ⟨value n, rfl, congrArg some (value_succ n)⟩
  | bool b =>
    obtain rfl := Option.some.inj h
    cases b with
    | false => exact ⟨0, rfl, congrArg some ((value_ofInt 1).trans (by norm_num))⟩
    | true => exact ⟨1, rfl, congrArg some ((value_ofInt 2).trans (by norm_num))⟩
  | null | str | arr | obj => exact absurd h.symm (Option.some_ne_none v)

def Studio.write (s : Studio) (agentId : Str) (p : AgentPackage) : Studio :=
  { s with agents := Function.update s.agents agentId (some p) }

/-- What a request does: nothing, it writes a package, it publishes, or it takes a snapshot. -/
inductive Effect (r : Request) (w : Watched) : Watched → Prop
  | nothing : Effect r w w
  | write (agentId : Str) (p' : AgentPackage)
      (created : p'.manifest .createdAt = Field.createdAt.default ∨
        ∃ p, w.studio.agents agentId = some p ∧ p'.manifest .createdAt = p.manifest .createdAt)
      (version : setsVersion r w.studio = some (agentId, p'.manifest .versionInt) ∨
        ∃ p, w.studio.agents agentId = some p ∧ p'.manifest .versionInt = p.manifest .versionInt) :
      Effect r w { w with studio := w.studio.write agentId p' }
  | publish (agentId : Str) (p p' : AgentPackage) (v : Json)
      (found : w.studio.agents agentId = some p)
      (created : p'.manifest .createdAt = p.manifest .createdAt)
      (version : p'.manifest .versionInt = v)
      (counted : increment (p.manifest .versionInt) = some v) :
      Effect r w { w with
        studio := w.studio.write agentId p'
        published := w.published ++ [⟨agentId, v, p.manifest⟩] }
  | snapshot (agentId : Str) (p : AgentPackage) (record : VersionRecord) (named : agentId ≠ [])
      (found : w.studio.agents agentId = some p) (data : record.snapshotData = p.snapshotData) :
      Effect r w { w with
        studio := { w.studio with
          versions := Function.update w.studio.versions agentId
            (w.studio.versions agentId ++ [record]) }
        taken := w.taken ++ [((agentId, record.versionId), p.manifest)] }

namespace Watched

variable {r : Request} {w : Watched}

theorem step_of_studio {answer : Answer} {s : Studio} (hs : w.studio.handle r = (answer, s))
    (htaken : w.studio.takenBy r answer = []) (hpublished : w.studio.publishedBy r answer = []) :
    (w.step r).2 = { w with studio := s } := by
  rw [step, hs]
  simp only [htaken, hpublished, List.append_nil]

theorem withPackage_cases (s : Studio) (agentId : Str) (f : AgentPackage → Answer × Studio) :
    (∃ message, s.withPackage agentId f = (.error message, s)) ∨
      ∃ p, agentId ≠ [] ∧ s.agents agentId = some p ∧ s.withPackage agentId f = f p := by
  unfold Studio.withPackage
  split_ifs with hid
  · exact Or.inl ⟨_, rfl⟩
  · cases hp : s.agents agentId with
    | none => exact Or.inl ⟨_, rfl⟩
    | some p => exact Or.inr ⟨p, hid, rfl, rfl⟩

theorem setFrom_of_mem {keys : List Field} {f : Field} (hf : f ∈ keys) (data : Members)
    (m : AgentManifest) : m.setFrom keys data f = (data.lookup f.key).getD (m f) := if_pos hf

theorem setFrom_of_not_mem {keys : List Field} {f : Field} (hf : f ∉ keys) (data : Members)
    (m : AgentManifest) : m.setFrom keys data f = m f := if_neg hf

theorem versionInt_setFrom {keys : List Field} (hf : Field.versionInt ∈ keys) (data : Members)
    (m : AgentManifest) :
    data.lookup Field.versionInt.key = some (m.setFrom keys data .versionInt) ∨
      m.setFrom keys data .versionInt = m .versionInt := by
  rw [setFrom_of_mem hf]
  cases data.lookup Field.versionInt.key with
  | none => exact Or.inr rfl
  | some v => exact Or.inl rfl

theorem setInt_eq {f g : Field} (hne : g ≠ f) {config : Members} {m m' : AgentManifest}
    (h : setInt f config m = some m') : m' g = m g := by
  unfold setInt at h
  cases hvalue : config.lookup f.key with
  | none =>
    rw [hvalue] at h
    exact congrFun (Option.some.inj h).symm g
  | some value =>
    rw [hvalue] at h
    obtain ⟨n, -, rfl⟩ := Option.map_eq_some_iff.mp h
    exact Function.update_of_ne hne _ _

variable {agentId : Str}

theorem effect_write {answer : Answer} {p : AgentPackage} {m : AgentManifest}
    (hp : w.studio.agents agentId = some p)
    (hs : w.studio.handle r = (answer, w.studio.save agentId p m))
    (htaken : w.studio.takenBy r answer = []) (hpublished : w.studio.publishedBy r answer = [])
    (hcreated : m .createdAt = p.manifest .createdAt)
    (hversion : setsVersion r w.studio = some (agentId, m .versionInt) ∨
      m .versionInt = p.manifest .versionInt) : Effect r w (w.step r).2 := by
  rw [step_of_studio hs htaken hpublished]
  exact .write agentId { p with manifest := m } (Or.inr ⟨p, hp, hcreated⟩)
    (hversion.imp_right fun h => ⟨p, hp, h⟩)

theorem effect_nothing {answer : Answer} (hs : w.studio.handle r = (answer, w.studio))
    (htaken : w.studio.takenBy r answer = []) (hpublished : w.studio.publishedBy r answer = []) :
    Effect r w (w.step r).2 := by
  rw [step_of_studio hs htaken hpublished]
  exact .nothing

theorem effect_create (agentId name soul : Str) (params : Members) :
    Effect (.create agentId name soul params) w (w.step (.create agentId name soul params)).2 := by
  by_cases hname : name = []
  · exact effect_nothing (if_pos hname) rfl rfl
  · have heq : (w.step (.create agentId name soul params)).2 = _ :=
      step_of_studio (r := .create agentId name soul params) (if_neg hname) rfl rfl
    rw [heq]
    exact .write agentId _ (Or.inl rfl) (Or.inl rfl)

theorem effect_configure (agentId : Str) (config : Members) :
    Effect (.configure agentId config) w (w.step (.configure agentId config)).2 := by
  rcases withPackage_cases w.studio agentId _ with ⟨message, heq⟩ | ⟨p, -, hp, heq⟩
  · exact effect_nothing heq rfl rfl
  by_cases hempty : config = []
  · exact effect_nothing (heq.trans (if_pos hempty)) rfl rfl
  rw [if_neg hempty] at heq
  cases hm : (setInt .contextWindow config (p.manifest.setFrom configureKeys config)).bind
      (setInt .maxIterations config) with
  | none =>
    rw [hm] at heq
    exact effect_nothing heq rfl rfl
  | some m =>
    rw [hm] at heq
    obtain ⟨m₁, hm₁, hm⟩ := Option.bind_eq_some_iff.mp hm
    have hsame (f : Field) (hctx : f ≠ .contextWindow) (hmax : f ≠ .maxIterations)
        (hf : f ∉ configureKeys) : m f = p.manifest f :=
      (setInt_eq hmax hm).trans ((setInt_eq hctx hm₁).trans (setFrom_of_not_mem hf _ _))
    exact effect_write hp heq rfl rfl (hsame _ (by decide) (by decide) (by decide))
      (Or.inr (hsame _ (by decide) (by decide) (by decide)))

theorem effect_publish (agentId : Str) (now : Json) :
    Effect (.publish agentId now) w (w.step (.publish agentId now)).2 := by
  rcases withPackage_cases w.studio agentId _ with ⟨message, heq⟩ | ⟨p, -, hp, heq⟩
  · exact effect_nothing heq rfl rfl
  by_cases hstatus : p.manifest.hasStatus "published" = true
  · exact effect_nothing (heq.trans (if_pos hstatus)) rfl rfl
  rw [if_neg hstatus] at heq
  cases hv : increment (p.manifest .versionInt) with
  | none =>
    rw [hv] at heq
    exact effect_nothing heq rfl rfl
  | some v =>
    rw [hv] at heq
    have hpublished : w.studio.publishedBy (.publish agentId now) (.published v now) =
        [⟨agentId, v, p.manifest⟩] := by
      rw [Studio.publishedBy, hp]
      rfl
    have hstep := congrArg (fun x : Answer × Studio => (⟨x.2,
      w.taken ++ w.studio.takenBy (.publish agentId now) x.1,
      w.published ++ w.studio.publishedBy (.publish agentId now) x.1⟩ : Watched)) heq
    dsimp only at hstep
    rw [hpublished, show w.studio.takenBy (.publish agentId now) (.published v now) = [] from rfl,
      List.append_nil] at hstep
    refine (congrArg (Effect _ w) hstep).mpr ?_
    exact .publish agentId p _ v hp rfl rfl hv

theorem effect_snapshot (agentId versionId : Str) (label now : Json) :
    Effect (.snapshot agentId versionId label now) w
      (w.step (.snapshot agentId versionId label now)).2 := by
  rcases withPackage_cases w.studio agentId _ with ⟨message, heq⟩ | ⟨p, hid, hp, heq⟩
  · exact effect_nothing heq rfl rfl
  let record : VersionRecord := ⟨versionId, agentId, p.snapshotData, now, label⟩
  have htaken : w.studio.takenBy (.snapshot agentId versionId label now) (.snapshot record) =
      [((agentId, versionId), p.manifest)] := by
    rw [Studio.takenBy, hp]
    rfl
  have hstep := congrArg (fun x : Answer × Studio => (⟨x.2,
    w.taken ++ w.studio.takenBy (.snapshot agentId versionId label now) x.1,
    w.published ++ w.studio.publishedBy (.snapshot agentId versionId label now) x.1⟩ : Watched)) heq
  dsimp only at hstep
  rw [htaken, show w.studio.publishedBy (.snapshot agentId versionId label now)
    (.snapshot record) = [] from rfl, List.append_nil] at hstep
  refine (congrArg (Effect _ w) hstep).mpr ?_
  exact .snapshot agentId p record hid hp rfl

theorem restoreVersion_cases (s : Studio) (agentId versionId : Str) :
    (∃ message, s.restoreVersion agentId versionId = (.error message, s)) ∨
      ∃ record p, s.getVersion agentId versionId = some record ∧ s.agents agentId = some p ∧
        s.restoreVersion agentId versionId =
          (.restored (p.manifest.setFrom restoreKeys record.snapshotData) p.skills
            (strip p.soul ≠ []),
            s.save agentId p (p.manifest.setFrom restoreKeys record.snapshotData)) := by
  unfold Studio.restoreVersion
  split_ifs
  · exact Or.inl ⟨_, rfl⟩
  · cases hrecord : s.getVersion agentId versionId with
    | none => exact Or.inl ⟨_, rfl⟩
    | some record =>
      dsimp only
      rcases withPackage_cases s agentId _ with ⟨message, heq⟩ | ⟨p, -, hp, heq⟩
      · exact Or.inl ⟨message, heq⟩
      · exact Or.inr ⟨record, p, rfl, hp, heq⟩

theorem effect_restoreVersion (agentId versionId : Str) :
    Effect (.restoreVersion agentId versionId) w
      (w.step (.restoreVersion agentId versionId)).2 := by
  rcases restoreVersion_cases w.studio agentId versionId with
    ⟨message, heq⟩ | ⟨record, p, hrecord, hp, heq⟩
  · exact effect_nothing heq rfl rfl
  · refine effect_write hp heq rfl rfl rfl ?_
    have hmem : Field.versionInt ∈ restoreKeys := by decide
    refine (versionInt_setFrom hmem record.snapshotData p.manifest).imp_left fun h => ?_
    rw [setsVersion, hrecord, Option.bind_some, h]
    rfl

/-- **What a request does.** -/
theorem effect (r : Request) (w : Watched) : Effect r w (w.step r).2 := by
  cases r with
  | create agentId name soul params => exact effect_create agentId name soul params
  | update agentId params =>
    rcases withPackage_cases w.studio agentId _ with ⟨message, heq⟩ | ⟨p, -, hp, heq⟩
    · exact effect_nothing heq rfl rfl
    · refine effect_write hp heq rfl rfl rfl ?_
      have hmem : Field.versionInt ∈ updateKeys := by decide
      refine (versionInt_setFrom hmem params p.manifest).imp_left fun h => ?_
      exact congrArg (Option.map fun v => (agentId, v)) h
  | configure agentId config => exact effect_configure agentId config
  | publish agentId now => exact effect_publish agentId now
  | archive agentId =>
    rcases withPackage_cases w.studio agentId _ with ⟨message, heq⟩ | ⟨p, -, hp, heq⟩
    · exact effect_nothing heq rfl rfl
    · exact effect_write hp heq rfl rfl rfl (Or.inr rfl)
  | unpublish agentId str =>
    rcases withPackage_cases w.studio agentId _ with ⟨message, heq⟩ | ⟨p, -, hp, heq⟩
    · exact effect_nothing heq rfl rfl
    by_cases hstatus : (p.manifest.hasStatus "published" || p.manifest.hasStatus "archived") = true
    · exact effect_write hp (heq.trans (if_pos hstatus)) rfl rfl rfl (Or.inr rfl)
    · exact effect_nothing (heq.trans (if_neg hstatus)) rfl rfl
  | snapshot agentId versionId label now => exact effect_snapshot agentId versionId label now
  | restoreVersion agentId versionId => exact effect_restoreVersion agentId versionId

/-! ### What the snapshots hold -/

theorem lookup_snapshotData (p : AgentPackage) (f : Field) :
    p.snapshotData.lookup f.key = some (p.manifest f) := by
  have hsoul : f.key ≠ "has_soul" := by cases f <;> decide
  have hskills : f.key ≠ "skills" := by cases f <;> decide
  rw [AgentPackage.snapshotData, lookup_setItem, if_neg hsoul, lookup_setItem, if_neg hskills,
    AgentManifest.lookup_toDict]

/-- The invariant of the snapshots: the store has each of them, for an agent that exists, and
`created_at` is never set. -/
structure Recorded (w : Watched) : Prop where
  stored : ∀ agentId versionId,
    w.taken.lookup (agentId, versionId) = none ∧ w.studio.getVersion agentId versionId = none ∨
      ∃ (p : AgentPackage) (record : VersionRecord), agentId ≠ [] ∧
        (∃ p', w.studio.agents agentId = some p') ∧
        w.studio.getVersion agentId versionId = some record ∧
        record.snapshotData = p.snapshotData ∧
        w.taken.lookup (agentId, versionId) = some p.manifest ∧
        p.manifest .createdAt = Field.createdAt.default
  created : ∀ agentId p, w.studio.agents agentId = some p →
    p.manifest .createdAt = Field.createdAt.default

theorem recorded_empty : Recorded empty :=
  ⟨fun _ _ => Or.inl ⟨rfl, rfl⟩, fun _ _ hp => absurd hp.symm (Option.some_ne_none _)⟩

theorem Recorded.write (h : Recorded w) {p' : AgentPackage} {published : List Published}
    (hp' : p'.manifest .createdAt = Field.createdAt.default) :
    Recorded ⟨w.studio.write agentId p', w.taken, published⟩ := by
  refine ⟨fun a v => (h.stored a v).imp_right ?_, fun a p hp => ?_⟩
  · rintro ⟨p, record, ha, ⟨q, hq⟩, hrest⟩
    refine ⟨p, record, ha, ?_, hrest⟩
    by_cases hid : a = agentId
    · exact ⟨p', by rw [hid]; exact Function.update_self _ _ _⟩
    · exact ⟨q, (Function.update_of_ne hid _ _).trans hq⟩
  · by_cases hid : a = agentId
    · subst hid
      rw [show (w.studio.write a p').agents a = some p' from Function.update_self _ _ _] at hp
      exact Option.some.inj hp ▸ hp'
    · exact h.created a p ((Function.update_of_ne hid _ _).symm.trans hp)

theorem Recorded.snapshot (h : Recorded w) {p : AgentPackage} {record : VersionRecord}
    (hid : agentId ≠ []) (hp : w.studio.agents agentId = some p)
    (hdata : record.snapshotData = p.snapshotData) :
    Recorded { w with
      studio := { w.studio with
        versions := Function.update w.studio.versions agentId
          (w.studio.versions agentId ++ [record]) }
      taken := w.taken ++ [((agentId, record.versionId), p.manifest)] } := by
  refine ⟨fun a v => ?_, h.created⟩
  have hlookup : (w.taken ++ [((agentId, record.versionId), p.manifest)]).lookup (a, v) =
      (w.taken.lookup (a, v)).or
        (if (a, v) = (agentId, record.versionId) then some p.manifest else none) := by
    rw [List.lookup_append]
    by_cases hav : (a, v) = (agentId, record.versionId)
    · simp [hav]
    · rw [List.lookup_cons, beq_eq_false_iff_ne.mpr hav, if_neg hav]
      rfl
  have hversion : Studio.getVersion { w.studio with
      versions := Function.update w.studio.versions agentId
        (w.studio.versions agentId ++ [record]) } a v =
      (w.studio.getVersion a v).or
        (if (a, v) = (agentId, record.versionId) then some record else none) := by
    unfold Studio.getVersion
    dsimp only
    by_cases ha : a = agentId
    · subst ha
      rw [Function.update_self, List.find?_append]
      by_cases hv : v = record.versionId
      · simp [hv]
      · simp [hv, Ne.symm hv]
    · rw [Function.update_of_ne ha, if_neg fun h => ha (Prod.mk.inj h).1, Option.or_none]
  simp only [hlookup, hversion]
  rcases h.stored a v with ⟨htaken, hget⟩ | ⟨q, old, ha, hagent, hget, hold, htaken, hcreated⟩
  · rw [htaken, hget, Option.none_or, Option.none_or]
    split_ifs with hav
    · obtain ⟨rfl, rfl⟩ := Prod.mk.inj hav
      exact Or.inr ⟨p, record, hid, ⟨p, hp⟩, rfl, hdata, rfl, h.created a p hp⟩
    · exact Or.inl ⟨rfl, rfl⟩
  · rw [htaken, hget, Option.some_or, Option.some_or]
    exact Or.inr ⟨q, old, ha, hagent, rfl, hold, rfl, hcreated⟩

theorem Recorded.step (h : Recorded w) (r : Request) : Recorded (w.step r).2 := by
  have heffect := effect r w
  generalize (w.step r).2 = w' at heffect
  cases heffect with
  | nothing => exact h
  | write agentId p' created =>
    refine h.write (created.elim id ?_)
    rintro ⟨p, hp, hsame⟩
    exact hsame.trans (h.created agentId p hp)
  | publish agentId p p' v found created =>
    exact h.write (created.trans (h.created agentId p found))
  | snapshot agentId p record named found data => exact h.snapshot named found data

/-! ### Restoring -/

theorem mem_restoreKeys (f : Field) :
    f ∈ restoreKeys ∨ f = .createdAt ∨ f = .maxIterations := by
  cases f <;> simp [restoreKeys]

/-- **What is restored**: a snapshot gives all fields their values back exactly if
`max_iterations` has its value still. -/
theorem restores_step_iff (h : Recorded w) (r : Request) : Restores r w ↔ KeepsIterations r w := by
  cases r with
  | restoreVersion agentId versionId =>
    rcases h.stored agentId versionId with ⟨htaken, hget⟩ |
      ⟨q, record, hid, ⟨p, hp⟩, hget, hdata, htaken, hcreated⟩
    · refine iff_of_true (fun m _ hm => ?_) fun _ p record _ hrecord => ?_
      · exact absurd (hm.symm.trans htaken) (Option.some_ne_none m)
      · exact absurd (hrecord.symm.trans hget) (Option.some_ne_none record)
    · have hfield (f : Field) : record.snapshotData.lookup f.key = some (q.manifest f) := by
        rw [hdata, lookup_snapshotData]
      have hmax : AgentManifest.fromDict record.snapshotData .maxIterations =
          q.manifest .maxIterations := congrArg (Option.getD · _) (hfield _)
      have hrestored (hv : versionId ≠ []) :
          (w.step (.restoreVersion agentId versionId)).2.studio.agents agentId =
            some { p with manifest := p.manifest.setFrom restoreKeys record.snapshotData } := by
        change (w.studio.restoreVersion agentId versionId).2.agents agentId = _
        rw [Studio.restoreVersion, if_neg (by simp [hid, hv]), hget]
        dsimp only
        rw [Studio.withPackage, if_neg hid, hp]
        exact Function.update_self _ _ _
      have hset (f : Field) (hf : f ∈ restoreKeys) :
          p.manifest.setFrom restoreKeys record.snapshotData f = q.manifest f := by
        rw [setFrom_of_mem hf, hfield, Option.getD_some]
      have hcreatedAt : Field.createdAt ∉ restoreKeys := by decide
      have hmaxIterations : Field.maxIterations ∉ restoreKeys := by decide
      constructor
      · intro hrestores hv p' record' hp' hget'
        obtain rfl := Option.some.inj (hp.symm.trans hp')
        obtain rfl := Option.some.inj (hget.symm.trans hget')
        obtain ⟨p'', hp'', hsame⟩ := hrestores q.manifest hv htaken
        obtain rfl := Option.some.inj ((hrestored hv).symm.trans hp'')
        rw [hmax, ← hsame .maxIterations]
        exact (setFrom_of_not_mem hmaxIterations record.snapshotData p.manifest).symm
      · intro hkeeps m hv hm
        obtain rfl := Option.some.inj (htaken.symm.trans hm)
        refine ⟨_, hrestored hv, fun f => ?_⟩
        rcases mem_restoreKeys f with hf | rfl | rfl
        · exact hset f hf
        · exact (setFrom_of_not_mem hcreatedAt record.snapshotData p.manifest).trans
            ((h.created agentId p hp).trans hcreated.symm)
        · exact (setFrom_of_not_mem hmaxIterations record.snapshotData p.manifest).trans
            ((hkeeps hv p record hp hget).trans hmax)
  | _ => exact Iff.rfl

/-- Along a run, snapshots are restored as they were exactly if they are restored only with the
`max_iterations` that the agent has. -/
theorem restores_iff (requests : List Request) :
    Along Watched.step Restores requests empty ↔
      Along Watched.step KeepsIterations requests empty :=
  along_iff (fun r _ hw _ => Recorded.step hw r) (fun r _ hw => restores_step_iff hw r) requests
    recorded_empty

/-! ### Numbers -/

/-- The invariant of the numbers: those that have been given out are at most `version_int`, and each
has one content. -/
structure Counted (w : Watched) : Prop where
  bounded : ∀ e ∈ w.published, ∃ q, number e.version = some q ∧
    ∀ p v, w.studio.agents e.agentId = some p → number (p.manifest .versionInt) = some v → q ≤ v
  numbered : w.Numbered

theorem counted_empty : Counted empty :=
  ⟨List.forall_mem_nil _, List.forall_mem_nil _⟩

theorem bounded_write {p' : AgentPackage} {e : Published} {q : ℚ}
    (hq : ∀ p v, w.studio.agents e.agentId = some p → number (p.manifest .versionInt) = some v →
      q ≤ v) (hp' : e.agentId = agentId → ∀ v, number (p'.manifest .versionInt) = some v → q ≤ v) :
    ∀ p v, (w.studio.write agentId p').agents e.agentId = some p →
      number (p.manifest .versionInt) = some v → q ≤ v := by
  intro p v hp hv
  by_cases hid : e.agentId = agentId
  · rw [hid, show (w.studio.write agentId p').agents agentId = some p' from
      Function.update_self _ _ _] at hp
    exact hp' hid v (Option.some.inj hp ▸ hv)
  · exact hq p v ((Function.update_of_ne hid _ _).symm.trans hp) hv

theorem Counted.publish (h : Counted w) {p p' : AgentPackage} {v : Json}
    (hp : w.studio.agents agentId = some p) (hversion : p'.manifest .versionInt = v)
    (hcounted : increment (p.manifest .versionInt) = some v) :
    Counted { w with
      studio := w.studio.write agentId p', published := w.published ++ [⟨agentId, v, p.manifest⟩] }
    := by
  obtain ⟨x, hx, hnext⟩ := number_increment hcounted
  -- The new number is above all that have been given out.
  have hnew : ∀ e ∈ w.published, e.agentId = agentId → e.version ≠ v := by
    rintro e he rfl rfl
    obtain ⟨q, hq, hle⟩ := h.bounded e he
    have hqx := Option.some.inj (hq.symm.trans hnext)
    have hbound := hle p x hp hx
    linarith
  refine ⟨fun e he => ?_, fun e he e' he' hid heq => ?_⟩
  · rcases mem_snoc.mp he with he | rfl
    · obtain ⟨q, hq, hle⟩ := h.bounded e he
      refine ⟨q, hq, bounded_write hle fun hid y hy => ?_⟩
      have hbound := hle p x (hid ▸ hp) hx
      have hy := Option.some.inj ((hversion ▸ hnext).symm.trans hy)
      linarith
    · refine ⟨x + 1, hnext, fun p'' y hp'' hy => ?_⟩
      rw [show (w.studio.write agentId p').agents agentId = some p' from
        Function.update_self _ _ _] at hp''
      obtain rfl := Option.some.inj hp''
      exact le_of_eq (Option.some.inj ((hversion ▸ hnext).symm.trans hy))
  · rcases mem_snoc.mp he with he | rfl <;> rcases mem_snoc.mp he' with he' | rfl
    · exact h.numbered e he e' he' hid heq
    · exact absurd heq (hnew e he hid)
    · exact absurd heq.symm (hnew e' he' hid.symm)
    · exact fun _ _ _ _ => rfl

theorem Counted.step (h : Counted w) (hsafe : VersionSafe r w) : Counted (w.step r).2 := by
  have heffect := effect r w
  generalize (w.step r).2 = w' at heffect
  cases heffect with
  | nothing => exact h
  | write agentId p' created version =>
    refine ⟨fun e he => ?_, h.numbered⟩
    obtain ⟨q, hq, hle⟩ := h.bounded e he
    refine ⟨q, hq, bounded_write hle fun hid v hv => ?_⟩
    rcases version with hset | ⟨p, hp, hsame⟩
    · exact hsafe.numbers _ hset e he hid q v hq hv
    · exact hle p v (hid ▸ hp) (hsame ▸ hv)
  | publish agentId p p' v found created version counted =>
    exact h.publish found version counted
  | snapshot => exact ⟨h.bounded, h.numbered⟩

end Watched

/-- **Snapshots are restored as they were, and no number names two contents**, in every run whose
requests are safe. -/
theorem versions_kept (requests : List Request)
    (h : Along Watched.step VersionSafe requests Watched.empty) :
    Along Watched.step Restores requests Watched.empty ∧
      ∀ n, (run Watched.step (requests.take n) Watched.empty).2.Numbered := by
  refine ⟨(Watched.restores_iff requests).mpr ?_, fun n => ?_⟩
  · exact along_of_invariant (I := fun _ => True) (fun _ _ _ hr => ⟨trivial, hr.iterations⟩)
      requests trivial h
  · rw [← List.take_append_drop n requests, along_append] at h
    have hcounted := run_invariant (I := Watched.Counted) (fun _ _ hw hr => hw.step hr)
      (requests.take n) Watched.counted_empty h.1
    exact hcounted.numbered

namespace Watched

/-- An agent is created, and a snapshot of it is taken. -/
def begun : List Request :=
  [.create "a" "A" [] [], .snapshot "a" "v" .null .null]

def prompt (text : String) : Members := [(Field.systemPrompt.key, .str text.toList)]

end Watched

/-- An agent is changed, restored and published. -/
theorem versions_kept_restored :
    let requests := Watched.begun ++ [.configure "a".toList (Watched.prompt "B"),
      .restoreVersion "a".toList "v".toList, .publish "a".toList .null]
    Along Watched.step Restores requests Watched.empty ∧
      ∀ n, (run Watched.step (requests.take n) Watched.empty).2.Numbered := by
  refine versions_kept _ ⟨⟨trivial, ?_⟩, ⟨trivial, ?_⟩, ⟨trivial, ?_⟩, ⟨?_, ?_⟩, ⟨trivial, ?_⟩,
    trivial⟩
  · exact fun _ _ => List.forall_mem_nil _
  · exact fun _ _ => List.forall_mem_nil _
  · exact fun _ _ => List.forall_mem_nil _
  · intro _ p record hp hrecord
    obtain rfl := Option.some.inj hp
    obtain rfl := Option.some.inj hrecord
    rfl
  · exact fun _ _ => List.forall_mem_nil _
  · exact fun _ _ => List.forall_mem_nil _

/-- Neither holds in every run. `max_iterations` is not restored; and after a restore `publish`
gives the number 2 to another content. -/
theorem not_versions_kept :
    (¬ ∀ requests, Along Watched.step Restores requests Watched.empty) ∧
      ¬ ∀ (requests : List Request) n,
        (run Watched.step (requests.take n) Watched.empty).2.Numbered := by
  constructor
  · intro h
    have hrestores := (Watched.restores_iff _).mp (h (Watched.begun ++
      [.configure "a" [(Field.maxIterations.key, .num 5)],
        .restoreVersion "a" "v"]))
    have hmax := hrestores.2.2.2.1 (by decide) _ _ rfl rfl
    exact absurd (Json.num.inj hmax) (by decide)
  · intro h
    have hnumbered := h (Watched.begun ++ [.update "a" (Watched.prompt "B"),
      .publish "a" .null, .restoreVersion "a" "v",
      .publish "a" .null]) 6
    have hsame := hnumbered _ List.mem_cons_self _ (List.mem_cons_of_mem _ List.mem_cons_self) rfl
      rfl .systemPrompt (by decide) (by decide) (by decide)
    exact absurd (Json.str.inj hsame) (by decide)

end AgentStudio.Agents

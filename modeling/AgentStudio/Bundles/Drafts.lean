import AgentStudio.Bundles.Package

/-!
# What a bundle asks for

The plan of a connector depends on the connectors that are there when its turn comes. Its `draft`
does not: it has one edit for both cases, and always counts as installed. So what a facet writes
(`edits`), whether an exception leaves it (`escapes`) and what it is registered as (`claim`) are
known from the bundle and the world alone.

`installFacet_spec` relates an installed facet to its draft, and `installFacets_ok` and
`installFacets_error` a whole installation: the stores are those after the edits of all facets, or
of those as far as the exception (`reached`). The entries on record are claims, and a claim that is
not on record is that of a connector that has been refused and is not there (`Settled`).
-/

namespace AgentStudio.Bundles

open PyText PyDict PyJson Undo Connectors

variable {Hook Graph : Type} {c : Installer Hook Graph} {s : Studio Hook Graph} {w : World}

/-! ### Drafts -/

/-- The connector under an identifier, if any, after a specification of it. -/
def ConnectorSpec.assigned (c : Installer Hook Graph) (now : ℤ) (x : ConnectorSpec) :
    Option ConnectorConfig → Option ConnectorConfig
  | some cfg => some (x.updated now cfg)
  | none => if c.strOf x.type ∈ validTypes then some (x.created c now) else none

def draftConnector (c : Installer Hook Graph) (w : World) (spec : Json) : Plan Hook Graph :=
  match readConnector c w spec with
  | .error outcome => .stop outcome
  | .ok x =>
    .write [put (.connector x.connectorId) (x.assigned c w.now)]
      (.installed (.connector x.connectorId)) fun _ => none

def Facet.draft (c : Installer Hook Graph) (w : World) : Facet → Plan Hook Graph
  | agent spec => installAgent c w spec
  | skill spec => installSkill c w spec
  | hook spec => installHook c w spec
  | connector spec => draftConnector c w spec
  | graph spec => installGraph c w spec
  | mcp spec => installMcp c w spec

def edits (c : Installer Hook Graph) (x : Facet × World) : List (Edit (Value Hook Graph)) :=
  (x.1.draft c x.2).edits x.2

def Outcome.entry : Outcome Hook → Option (Registered Hook)
  | installed r => some r
  | _ => none

def Outcome.isRaised : Outcome Hook → Bool
  | raised _ => true
  | _ => false

def Outcome.isFailed : Outcome Hook → Bool
  | failed _ => true
  | _ => false

def claim (c : Installer Hook Graph) (x : Facet × World) : Option (Registered Hook) :=
  ((x.1.draft c x.2).outcome x.2).entry

def escapes (c : Installer Hook Graph) (x : Facet × World) : Bool :=
  ((x.1.draft c x.2).outcome x.2).isRaised

/-! ### Single writes -/

section Put

variable {k : Key} {f g : Value Hook Graph k → Value Hook Graph k} {o : Outcome Hook}
  {caught : Kind → Option Str}

theorem made_put (w : World) (k : Key) (f : Value Hook Graph k → Value Hook Graph k) :
    w.made [put k f] = [⟨k, fun v => v⟩] ∨ w.made [put k f] = [⟨k, f⟩] := by
  cases hfault : w.fault with
  | none => exact Or.inr (by simp [World.made, hfault, put])
  | some fault =>
    cases hafter : fault.after with
    | zero => exact Or.inl (by simp [World.made, hfault, hafter, put])
    | succ n => exact Or.inr (by simp [World.made, hfault, hafter, put])

theorem made_nil (w : World) : w.made ([] : List (Write Hook Graph)) = [] := by
  unfold World.made
  split <;> simp

theorem runAll_made_put (h : f (s k) = g (s k)) :
    runAll (w.made [put k f]) s = runAll (w.made [put k g]) s := by
  cases hfault : w.fault with
  | none => simp [World.made, hfault, put, Edit.run, h]
  | some fault =>
    cases hafter : fault.after with
    | zero => simp [World.made, hfault, hafter, put]
    | succ n => simp [World.made, hfault, hafter, put, Edit.run, h]

theorem runAll_made_put_eq_self (h : f (s k) = s k) : runAll (w.made [put k f]) s = s := by
  obtain hmade | hmade := made_put w k f
  · rw [hmade]
    exact Edit.run_eq_self rfl
  · rw [hmade]
    exact Edit.run_eq_self h

theorem mem_made {ws : List (Write Hook Graph)} {e : Edit (Value Hook Graph)} (h : e ∈ w.made ws) :
    ∃ x ∈ ws, x.key = e.key := by
  unfold World.made at h
  split at h
  · obtain ⟨x, hx, rfl⟩ := List.mem_map.mp h
    exact ⟨x, hx, rfl⟩
  · next f _ =>
    rcases List.mem_append.mp h with h | h
    · obtain ⟨x, hx, rfl⟩ := List.mem_map.mp h
      exact ⟨x, List.mem_of_mem_take hx, rfl⟩
    · obtain ⟨x, hx, rfl⟩ := List.mem_map.mp h
      rw [Option.mem_toList] at hx
      exact ⟨x, List.mem_of_mem_drop (List.mem_of_head? hx), rfl⟩

end Put

/-! ### Drafts and plans -/

theorem runAll_plan (f : Facet) (w : World) (s : Studio Hook Graph) :
    runAll ((f.plan c w s).edits w) s = runAll ((f.draft c w).edits w) s := by
  cases f with
  | connector spec =>
    simp only [Facet.plan, Facet.draft, installConnector, draftConnector]
    cases readConnector c w spec with
    | error outcome => rfl
    | ok x =>
      dsimp only
      cases hfind : s (.connector x.connectorId) with
      | some cfg => exact runAll_made_put (by rw [hfind, ConnectorSpec.assigned])
      | none =>
        dsimp only
        split_ifs with htype
        · exact runAll_made_put (by rw [hfind, ConnectorSpec.assigned, if_pos htype])
        · have hput : runAll (w.made [put (.connector x.connectorId) (x.assigned c w.now)]) s = s :=
            runAll_made_put_eq_self (by rw [hfind, ConnectorSpec.assigned, if_neg htype])
          simp only [Plan.edits, made_nil, runAll_nil]
          exact hput.symm
  | _ => rfl

theorem outcome_plan (f : Facet) (w : World) (s : Studio Hook Graph) :
    (f.plan c w s).outcome w = (f.draft c w).outcome w ∨
      ∃ id message, (f.draft c w).outcome w = .installed (.connector id) ∧
        (f.plan c w s).outcome w = .failed message ∧
        runAll ((f.draft c w).edits w) s (.connector id) = none := by
  cases f with
  | connector spec =>
    simp only [Facet.plan, Facet.draft, installConnector, draftConnector]
    cases readConnector c w spec with
    | error outcome => exact Or.inl rfl
    | ok x =>
      dsimp only
      cases hfind : s (.connector x.connectorId) with
      | some cfg => exact Or.inl rfl
      | none =>
        dsimp only
        split_ifs with htype
        · exact Or.inl rfl
        · cases hfault : w.fault with
          | some fault => exact Or.inl (by simp [Plan.outcome, hfault])
          | none =>
            refine Or.inr ⟨x.connectorId, _, by simp [Plan.outcome, hfault],
              by simp only [Plan.outcome, hfault]; rfl, ?_⟩
            have hput :
                runAll (w.made [put (.connector x.connectorId) (x.assigned c w.now)]) s = s :=
              runAll_made_put_eq_self (by rw [hfind, ConnectorSpec.assigned, if_neg htype])
            simp only [Plan.edits, hput, hfind]
  | _ => exact Or.inl rfl

/-! ### Where facets write -/

def Facet.writes : Facet → Key → Bool
  | agent _, .file .agents _ => true
  | agent _, .entry _ => true
  | skill _, .file .skills _ => true
  | hook _, .hooks _ => true
  | connector _, .connector _ => true
  | graph _, .graph _ => true
  | mcp _, .server _ => true
  | _, _ => false

def Plan.WritesTo (p : Key → Bool) : Plan Hook Graph → Prop
  | stop _ => True
  | write writes _ _ => ∀ x ∈ writes, p x.key = true

theorem writesTo_agent (spec : Json) :
    (installAgent c w spec).WritesTo (Facet.agent spec).writes := by
  unfold installAgent
  split
  · trivial
  · dsimp only
    split
    · trivial
    · intro x hx
      simp only [agentWrites, List.mem_cons, List.not_mem_nil, or_false] at hx
      rcases hx with rfl | rfl | rfl | rfl | rfl | rfl | rfl | rfl | rfl
      case inr.inr.inr.inr.inr.inr.inl => split <;> rfl
      all_goals rfl

theorem writesTo_content (spec : Json) (name content : Str) :
    (installContent w name content : Plan Hook Graph).WritesTo (Facet.skill spec).writes := by
  unfold installContent
  split_ifs
  · trivial
  · intro x hx
    simp only [List.mem_cons, List.not_mem_nil, or_false] at hx
    rcases hx with rfl | rfl <;> rfl
  · trivial

theorem writesTo_skill (spec : Json) :
    (installSkill c w spec).WritesTo (Facet.skill spec).writes := by
  unfold installSkill
  split
  · trivial
  · dsimp only
    split_ifs
    · trivial
    · split
      · exact writesTo_content spec _ _
      · trivial
      · trivial
    · exact writesTo_content spec _ _

theorem writesTo_mcp (spec : Json) : (installMcp c w spec).WritesTo (Facet.mcp spec).writes := by
  unfold installMcp
  split_ifs
  · split
    · trivial
    · split
      · trivial
      · trivial
      · intro x hx
        unfold serverWrites at hx
        split at hx
        · rw [List.mem_singleton] at hx
          subst hx
          rfl
        · exact absurd hx List.not_mem_nil
  · trivial

theorem writesTo_draft (f : Facet) (w : World) : (f.draft c w).WritesTo f.writes := by
  cases f with
  | agent spec => exact writesTo_agent spec
  | skill spec => exact writesTo_skill spec
  | hook spec =>
    simp only [Facet.draft, installHook]
    split
    · split_ifs <;> trivial
    · exact List.forall_mem_singleton.mpr rfl
  | connector spec =>
    simp only [Facet.draft, draftConnector]
    split
    · trivial
    · exact List.forall_mem_singleton.mpr rfl
  | graph spec =>
    simp only [Facet.draft, installGraph]
    split_ifs
    · split
      · split_ifs <;> trivial
      · exact List.forall_mem_singleton.mpr rfl
    · trivial
  | mcp spec => exact writesTo_mcp spec

theorem writes_of_mem_edits {x : Facet × World} {e : Edit (Value Hook Graph)} (h : e ∈ edits c x) :
    x.1.writes e.key = true := by
  have hdraft := writesTo_draft (c := c) x.1 x.2
  unfold edits at h
  cases hplan : x.1.draft c x.2 with
  | stop o =>
    rw [hplan] at h
    exact absurd h List.not_mem_nil
  | write ws o caught =>
    rw [hplan] at h hdraft
    obtain ⟨y, hy, hkey⟩ := mem_made h
    exact hkey ▸ hdraft y hy

theorem runAll_edits_of_writes {x : Facet × World} {k : Key} (h : x.1.writes k = false) :
    runAll (edits c x) s k = s k := by
  refine runAll_of_ne fun e he hk => ?_
  rw [hk, writes_of_mem_edits he] at h
  exact absurd h.symm Bool.false_ne_true

/-- A facet that no exception leaves, and that claims no connector of this identifier, leaves it
alone. -/
theorem runAll_edits_connector {x : Facet × World} {id : Str} (hx : escapes c x = false)
    (h : claim c x ≠ some (.connector id)) :
    runAll (edits c x) s (.connector id) = s (.connector id) := by
  obtain ⟨f, w⟩ := x
  cases f with
  | connector spec =>
    simp only [escapes, claim, edits, Facet.draft, draftConnector] at hx h ⊢
    cases hread : readConnector c w spec with
    | error outcome => rfl
    | ok y =>
      simp only [hread, Plan.outcome, Plan.edits] at hx h ⊢
      cases hfault : w.fault with
      | some fault =>
        rw [hfault] at hx
        exact absurd hx (by simp [Outcome.isRaised])
      | none =>
        simp only [hfault, Outcome.entry, ne_eq, Option.some.injEq, Registered.connector.injEq] at h
        refine runAll_of_ne fun e he hk => ?_
        obtain ⟨z, hz, hkey⟩ := mem_made he
        rw [List.mem_singleton] at hz
        subst hz
        exact h (Key.connector.inj (hkey.trans hk.symm))
  | _ => exact runAll_edits_of_writes rfl

theorem runAll_edits_hooks {x : Facet × World} (event : Str) (hx : escapes c x = false) :
    ∃ hs, runAll (edits c x) s (.hooks event) = s (.hooks event) ++ hs ∧
      ∀ h ∈ hs, claim c x = some (.hook h) ∧ c.event h = event := by
  have hnone : runAll (edits c x) s (.hooks event) = s (.hooks event) →
      ∃ hs, runAll (edits c x) s (.hooks event) = s (.hooks event) ++ hs ∧
        ∀ h ∈ hs, claim c x = some (.hook h) ∧ c.event h = event := fun heq =>
    ⟨[], by rw [heq, List.append_nil], List.forall_mem_nil _⟩
  obtain ⟨f, w⟩ := x
  cases f with
  | hook spec =>
    cases hread : c.hookOf spec with
    | error kind =>
      refine hnone ?_
      simp only [edits, Facet.draft, installHook, hread]
      split_ifs <;> rfl
    | ok h =>
      cases hfault : w.fault with
      | some fault =>
        have hraised : escapes c (.hook spec, w) = true := by
          simp [escapes, Facet.draft, installHook, hread, Plan.outcome, hfault, Outcome.isRaised]
        exact absurd (hraised.symm.trans hx) (by simp)
      | none =>
        have hedits : edits c (.hook spec, w) =
            [⟨.hooks (c.event h), fun (bucket : List Hook) => bucket ++ [h]⟩] := by
          simp [edits, Facet.draft, installHook, hread, Plan.edits, World.made, hfault, put]
        have hclaim : claim c (.hook spec, w) = some (.hook h) := by
          simp [claim, Facet.draft, installHook, hread, Plan.outcome, hfault, Outcome.entry]
        by_cases hevent : c.event h = event
        · subst hevent
          refine ⟨[h], ?_, List.forall_mem_singleton.mpr ⟨hclaim, rfl⟩⟩
          simp [hedits, Edit.run]
        · refine hnone ?_
          rw [hedits]
          exact Edit.run_of_ne fun hk => hevent (Key.hooks.inj hk).symm
  | _ => exact hnone (runAll_edits_of_writes rfl)

/-! ### Installing facets -/

def claims (c : Installer Hook Graph) (fs : List (Facet × World)) : List (Registered Hook) :=
  fs.filterMap (claim c)

/-- The facets as far as the first that an exception leaves. -/
def reached (c : Installer Hook Graph) : List (Facet × World) → List (Facet × World)
  | [] => []
  | x :: rest => if escapes c x then [x] else x :: reached c rest

/-- Some facet fails, on the stores as the facets before it leave them. -/
def fails (c : Installer Hook Graph) : List (Facet × World) → Studio Hook Graph → Bool
  | [], _ => false
  | x :: rest, s =>
    ((x.1.plan c x.2 s).outcome x.2).isFailed || fails c rest (runAll (edits c x) s)

/-- An entry is on record, or it is that of a connector that is not there. -/
def Settled (r : Registered Hook) (p : Progress Hook Graph) : Prop :=
  r ∈ p.registered ∨ ∃ id, r = .connector id ∧ p.studio (.connector id) = none

/-- Facets that no exception leaves take the installation from here to there. -/
structure Advance (c : Installer Hook Graph) (fs : List (Facet × World))
    (p q : Progress Hook Graph) : Prop where
  studio : q.studio = runAll (fs.flatMap (edits c)) p.studio
  registered : ∀ r ∈ q.registered, r ∈ p.registered ∨ r ∈ claims c fs
  settled : ∀ r, Settled r p ∨ r ∈ claims c fs → Settled r q
  errors : q.errors = [] ↔ p.errors = [] ∧ fails c fs p.studio = false

variable {x : Facet × World} {fs : List (Facet × World)} {p q p' : Progress Hook Graph}

theorem mem_claims_cons {r : Registered Hook} :
    r ∈ claims c (x :: fs) ↔ claim c x = some r ∨ r ∈ claims c fs := by
  unfold claims
  cases hclaim : claim c x with
  | none => simp [hclaim]
  | some r' => simp [hclaim, eq_comm]

theorem Advance.nil (c : Installer Hook Graph) (p : Progress Hook Graph) : Advance c [] p p where
  studio := rfl
  registered r hr := Or.inl hr
  settled r h := h.resolve_right List.not_mem_nil
  errors := by simp [fails]

theorem Advance.cons (h : Advance c [x] p p') (hrest : Advance c fs p' q) :
    Advance c (x :: fs) p q where
  studio := by
    rw [hrest.studio, h.studio, List.flatMap_cons, List.flatMap_cons, List.flatMap_nil,
      List.append_nil, runAll_append]
  registered r hr := by
    rw [mem_claims_cons]
    rcases hrest.registered r hr with hp | hclaims
    · exact (h.registered r hp).imp_right fun hx =>
        Or.inl ((mem_claims_cons.mp hx).resolve_right List.not_mem_nil)
    · exact Or.inr (Or.inr hclaims)
  settled r hr := by
    refine hrest.settled r ?_
    rw [mem_claims_cons] at hr
    rcases hr with hp | hx | hclaims
    · exact Or.inl (h.settled r (Or.inl hp))
    · exact Or.inl (h.settled r (Or.inr (mem_claims_cons.mpr (Or.inl hx))))
    · exact Or.inr hclaims
  errors := by
    have hstudio : p'.studio = runAll (edits c x) p.studio := by
      rw [h.studio, List.flatMap_cons, List.flatMap_nil, List.append_nil]
    have herrors := h.errors
    rw [hrest.errors, herrors, hstudio]
    simp only [fails, Bool.or_false, Bool.or_eq_false_iff, and_assoc]

theorem Settled.step {r : Registered Hook} (h : Settled r p) (hx : escapes c x = false)
    (hstudio : q.studio = runAll (edits c x) p.studio) (hsub : p.registered ⊆ q.registered)
    (hclaim : claim c x = some r → Settled r q) : Settled r q := by
  rcases h with hmem | ⟨id, rfl, hnone⟩
  · exact Or.inl (hsub hmem)
  · by_cases hid : claim c x = some (.connector id)
    · exact hclaim hid
    · exact Or.inr ⟨id, rfl, by rw [hstudio, runAll_edits_connector hx hid, hnone]⟩

theorem installFacet_spec (x : Facet × World) (p : Progress Hook Graph) :
    (escapes c x = true ∧ ∃ kind, installFacet c x p = .error (kind, runAll (edits c x) p.studio)) ∨
      (escapes c x = false ∧ ∃ q, installFacet c x p = .ok q ∧ Advance c [x] p q) := by
  obtain ⟨f, w⟩ := x
  have hrun := runAll_plan (c := c) f w p.studio
  have hflat : ([(f, w)].flatMap (edits c)) = edits c (f, w) := by simp
  have hstep : ∀ q : Progress Hook Graph, escapes c (f, w) = false →
      q.studio = runAll (edits c (f, w)) p.studio → p.registered ⊆ q.registered →
      (∀ r, claim c (f, w) = some r → Settled r q) → ∀ r,
      Settled r p ∨ r ∈ claims c [(f, w)] → Settled r q := fun q hx hstudio hsub hclaim r hr => by
    rcases hr with hp | hr
    · exact hp.step hx hstudio hsub (hclaim r)
    · exact hclaim r ((mem_claims_cons.mp hr).resolve_right List.not_mem_nil)
  rcases outcome_plan (c := c) f w p.studio with hplan | ⟨id, message, hdraft, hplan, hnone⟩
  · cases hdraft : (f.draft c w).outcome w with
    | raised kind =>
      refine Or.inl ⟨by simp [escapes, hdraft, Outcome.isRaised], kind, ?_⟩
      simp only [installFacet, hplan, hdraft, hrun, edits]
    | failed message =>
      have hx : escapes c (f, w) = false := by simp [escapes, hdraft, Outcome.isRaised]
      have hclaim : claim c (f, w) = none := by simp [claim, hdraft, Outcome.entry]
      refine Or.inr ⟨hx, ⟨runAll (edits c (f, w)) p.studio, p.registered, p.errors ++ [message]⟩,
        by simp only [installFacet, hplan, hdraft, hrun, edits], ⟨by rw [hflat], fun r => Or.inl,
        hstep _ hx rfl (List.Subset.refl _) fun r hr => ?_, ?_⟩⟩
      · rw [hclaim] at hr
        exact absurd hr (Option.some_ne_none r).symm
      · simp [fails, hplan, hdraft, Outcome.isFailed]
    | installed r =>
      have hx : escapes c (f, w) = false := by simp [escapes, hdraft, Outcome.isRaised]
      have hclaim : claim c (f, w) = some r := by simp [claim, hdraft, Outcome.entry]
      refine Or.inr ⟨hx, ⟨runAll (edits c (f, w)) p.studio, p.registered ++ [r], p.errors⟩,
        by simp only [installFacet, hplan, hdraft, hrun, edits], ⟨by rw [hflat], fun r' hr' => ?_,
        hstep _ hx rfl (List.subset_append_left _ _) fun r' hr' => ?_, ?_⟩⟩
      · rcases mem_snoc.mp hr' with hp | rfl
        · exact Or.inl hp
        · exact Or.inr (mem_claims_cons.mpr (Or.inl hclaim))
      · rw [hclaim] at hr'
        exact Or.inl (List.mem_append_right _ (List.mem_singleton.mpr (Option.some.inj hr').symm))
      · simp [fails, hplan, hdraft, Outcome.isFailed]
  · have hx : escapes c (f, w) = false := by simp [escapes, hdraft, Outcome.isRaised]
    have hclaim : claim c (f, w) = some (.connector id) := by simp [claim, hdraft, Outcome.entry]
    refine Or.inr ⟨hx, ⟨runAll (edits c (f, w)) p.studio, p.registered, p.errors ++ [message]⟩,
      by simp only [installFacet, hplan, hrun, edits], ⟨by rw [hflat], fun r => Or.inl,
      hstep _ hx rfl (List.Subset.refl _) fun r hr => ?_, ?_⟩⟩
    · rw [hclaim] at hr
      exact Or.inr ⟨id, (Option.some.inj hr).symm, hnone⟩
    · simp [fails, hplan, Outcome.isFailed]

theorem installFacets_ok (hfs : ∀ x ∈ fs, escapes c x = false) (p : Progress Hook Graph) :
    ∃ q, installFacets c fs p = .ok q ∧ Advance c fs p q := by
  induction fs generalizing p with
  | nil => exact ⟨p, rfl, Advance.nil c p⟩
  | cons x rest ih =>
    obtain ⟨hx, hrest⟩ := List.forall_mem_cons.mp hfs
    rcases installFacet_spec (c := c) x p with ⟨hraised, -⟩ | ⟨-, p', hp', hstep⟩
    · exact absurd (hraised.symm.trans hx) (by simp)
    · obtain ⟨q, hq, hadvance⟩ := ih hrest p'
      exact ⟨q, by rw [installFacets, hp', ← hq], hstep.cons hadvance⟩

theorem installFacets_error (hfs : ∃ x ∈ fs, escapes c x = true) (p : Progress Hook Graph) :
    ∃ kind, installFacets c fs p =
      .error (kind, runAll ((reached c fs).flatMap (edits c)) p.studio) := by
  induction fs generalizing p with
  | nil =>
    obtain ⟨x, hx, -⟩ := hfs
    exact absurd hx List.not_mem_nil
  | cons x rest ih =>
    rcases installFacet_spec (c := c) x p with ⟨hraised, kind, hkind⟩ | ⟨hx, p', hp', hstep⟩
    · exact ⟨kind, by simp [installFacets, hkind, reached, hraised]⟩
    · have hrest : ∃ y ∈ rest, escapes c y = true := by
        obtain ⟨y, hy, hescapes⟩ := hfs
        rcases List.mem_cons.mp hy with rfl | hy
        · exact absurd (hescapes.symm.trans hx) (by simp)
        · exact ⟨y, hy, hescapes⟩
      obtain ⟨kind, hkind⟩ := ih hrest p'
      have hstudio := hstep.studio
      refine ⟨kind, ?_⟩
      rw [installFacets, hp', reached, hx]
      simp only [hkind, Bool.false_eq_true, if_false, List.flatMap_cons, List.flatMap_nil,
        List.append_nil, runAll_append] at hstudio ⊢
      rw [hstudio]

theorem reached_eq_self (hfs : ∀ x ∈ fs, escapes c x = false) : reached c fs = fs := by
  induction fs with
  | nil => rfl
  | cons x rest ih =>
    obtain ⟨hx, hrest⟩ := List.forall_mem_cons.mp hfs
    rw [reached, hx, ih hrest]
    rfl

theorem exists_hooks (hfs : ∀ x ∈ fs, escapes c x = false) (event : Str) (s : Studio Hook Graph) :
    ∃ hs, runAll (fs.flatMap (edits c)) s (.hooks event) = s (.hooks event) ++ hs ∧
      ∀ h ∈ hs, .hook h ∈ claims c fs ∧ c.event h = event := by
  induction fs generalizing s with
  | nil => exact ⟨[], by simp, List.forall_mem_nil _⟩
  | cons x rest ih =>
    obtain ⟨hx, hrest⟩ := List.forall_mem_cons.mp hfs
    obtain ⟨hs, hhs, hclaim⟩ := runAll_edits_hooks (s := s) event hx
    obtain ⟨hs', hhs', hclaims⟩ := ih hrest (runAll (edits c x) s)
    refine ⟨hs ++ hs', by rw [List.flatMap_cons, runAll_append, hhs', hhs, List.append_assoc],
      fun h hh => ?_⟩
    rcases List.mem_append.mp hh with hh | hh
    · exact ⟨mem_claims_cons.mpr (Or.inl (hclaim h hh).1), (hclaim h hh).2⟩
    · exact ⟨mem_claims_cons.mpr (Or.inr (hclaims h hh).1), (hclaims h hh).2⟩

end AgentStudio.Bundles

import AgentStudio.Bundles.Drafts

/-!
# Rollback

An install that does not succeed should leave all as it was. But `install` keeps no record of what
was there before: it uninstalls what the bundle has registered, also where a facet has overwritten
something of the same identifier, and it uninstalls nothing when an exception leaves it.

`unchanged_iff` says when the stores are as before nevertheless. If the install answers with errors
(`Restored`), nothing was there under what the bundle claims, none of its hooks was there, and what
else it has written had been there. If an exception leaves the install, the edits of the facets as
far as that one change nothing.
-/

namespace AgentStudio.Bundles

open PyText PyDict PyJson Undo Connectors

variable {Hook Graph : Type} [DecidableEq Hook] {c : Installer Hook Graph}
  {fs : List (Facet × World)} {s : Studio Hook Graph}

/-! ### The condition -/

/-- The facets come to nothing when what they claim is removed. -/
structure Restored (c : Installer Hook Graph) (fs : List (Facet × World))
    (s : Studio Hook Graph) : Prop where
  fresh : ∀ r ∈ claims c fs, ∀ k, r.covers c k = true → s k = blank Hook Graph k
  unhooked : ∀ h, .hook h ∈ claims c fs → h ∉ s (.hooks (c.event h))
  idle : ∀ k, (∀ event, k ≠ .hooks event) → (∀ r ∈ claims c fs, r.covers c k = false) →
    runAll (fs.flatMap (edits c)) s k = s k

/-- An exception leaves the install: that of a facet, or the one at the record of a bundle of which
no facet fails. -/
def Leaves (c : Installer Hook Graph) (e : Environment) (s : Studio Hook Graph) : Prop :=
  (∃ x ∈ e.facets c, escapes c x = true) ∨
    (e.registry.isSome = true ∧ fails c (e.facets c) s = false)

/-- What the bundle writes comes to nothing: all that is written before an exception, or all that is
left when what has been registered is removed. -/
structure Spared (c : Installer Hook Graph) (e : Environment) (s : Studio Hook Graph) : Prop where
  left : Leaves c e s → ∀ k, runAll ((reached c (e.facets c)).flatMap (edits c)) s k = s k
  returned : ¬ Leaves c e s → Restored c (e.facets c) s

/-! ### Uninstalling -/

omit [DecidableEq Hook] in
theorem Registered.mem_inOrder {r : Registered Hook} {rs : List (Registered Hook)} :
    r ∈ Registered.inOrder rs ↔ r ∈ rs := by
  have hrank : r.rank < 6 := by cases r <;> simp [Registered.rank]
  simp [Registered.inOrder, hrank]

theorem uninstallFacets_eq (registered : List (Registered Hook)) :
    (uninstallFacets c registered s).2 =
      undoAll (fun r => r.erase c) (Registered.inOrder registered) s := by
  have hfold (rs : List (Registered Hook)) (x : List (Registered Hook) × Studio Hook Graph) :
      (rs.foldl (fun x r =>
        (if r.removes c x.2 then x.1 ++ [r] else x.1, fun k => r.erase c k (x.2 k))) x).2 =
        undoAll (fun r => r.erase c) rs x.2 := by
    induction rs generalizing x with
    | nil => rfl
    | cons r rs ih => exact ih _
  exact hfold _ _

theorem Registered.erase_eq {k : Key} (hk : ∀ event, k ≠ .hooks event) (r : Registered Hook)
    (v : Value Hook Graph k) :
    r.erase c k v = if r.covers c k = true then blank Hook Graph k else v := by
  cases k with
  | hooks event => exact absurd rfl (hk event)
  | _ => rfl

theorem undoAll_hooks (event : Str) (rs : List (Registered Hook)) (s : Studio Hook Graph) :
    undoAll (fun r => Registered.erase c r) rs s (.hooks event) =
      (s (.hooks event)).filter fun h => ¬ (c.event h = event ∧ .hook h ∈ rs) := by
  induction rs generalizing s with
  | nil => simp [undoAll]
  | cons r rs ih =>
    have hcons : undoAll (fun r => Registered.erase c r) (r :: rs) s =
        undoAll (fun r => Registered.erase c r) rs fun k => r.erase c k (s k) := rfl
    rw [hcons, ih]
    cases r with
    | hook h =>
      simp only [Registered.erase, Registered.eraseHooks]
      split_ifs with hevent
      · rw [List.filter_filter]
        refine List.filter_congr fun h' _ => ?_
        by_cases hh : h' = h
        · simp [hh, hevent]
        · simp [hh]
      · refine List.filter_congr fun h' _ => ?_
        by_cases hh : h' = h
        · simp [hh, hevent]
        · simp [hh]
    | _ => exact List.filter_congr fun h' _ => by simp

/-! ### Rolling back -/

section Rollback

variable {q : Progress Hook Graph}

/-- What is left when the registered entries have been removed: nothing where the facets have a
claim, and what they have written elsewhere. -/
theorem uninstalled_apply (h : Advance c fs ⟨s, [], []⟩ q) {k : Key}
    (hk : ∀ event, k ≠ .hooks event) :
    (uninstallFacets c q.registered q.studio).2 k =
      if ∃ r ∈ claims c fs, r.covers c k = true then blank Hook Graph k
      else runAll (fs.flatMap (edits c)) s k := by
  rw [uninstallFacets_eq, undoAll_apply (Registered.erase_eq hk)]
  simp only [Registered.mem_inOrder]
  by_cases hregistered : ∃ r ∈ q.registered, r.covers c k = true
  · obtain ⟨r, hr, hcovers⟩ := hregistered
    have hclaims : r ∈ claims c fs := (h.registered r hr).resolve_left List.not_mem_nil
    rw [if_pos ⟨r, hr, hcovers⟩, if_pos ⟨r, hclaims, hcovers⟩]
  · rw [if_neg hregistered]
    split_ifs with hclaimed
    · -- the claim of a connector that has been refused
      obtain ⟨r, hr, hcovers⟩ := hclaimed
      obtain hmem | ⟨id, rfl, hnone⟩ := h.settled r (Or.inr hr)
      · exact absurd ⟨r, hmem, hcovers⟩ hregistered
      · cases k with
        | connector id' =>
          obtain rfl : id' = id := by simpa [Registered.covers] using hcovers
          exact hnone
        | _ => exact absurd hcovers (by simp [Registered.covers])
    · rw [h.studio]

/-- What is left of a bucket: a bundle adds nothing to it, and takes away the hooks that are equal
to its own. -/
theorem uninstalled_hooks (hfs : ∀ x ∈ fs, escapes c x = false)
    (h : Advance c fs ⟨s, [], []⟩ q) (event : Str) :
    (uninstallFacets c q.registered q.studio).2 (.hooks event) =
      (s (.hooks event)).filter fun hook =>
        ¬ (c.event hook = event ∧ .hook hook ∈ claims c fs) := by
  have hmem (hook : Hook) : .hook hook ∈ q.registered ↔ .hook hook ∈ claims c fs := by
    constructor
    · intro hr
      exact (h.registered _ hr).resolve_left List.not_mem_nil
    · intro hr
      obtain hmem | ⟨id, heq, -⟩ := h.settled _ (Or.inr hr)
      · exact hmem
      · exact absurd heq (by simp)
  obtain ⟨hs, hhs, hclaims⟩ := exists_hooks hfs event s
  rw [uninstallFacets_eq, undoAll_hooks, h.studio, hhs, List.filter_append]
  simp only [Registered.mem_inOrder, hmem]
  have hnone : (hs.filter fun hook => ¬ (c.event hook = event ∧ .hook hook ∈ claims c fs)) = [] :=
    List.filter_eq_nil_iff.mpr fun hook hh => by simp [hclaims hook hh]
  rw [hnone, List.append_nil]

/-- **A rollback restores the stores** exactly if the facets come to nothing when what they claim is
removed. -/
theorem uninstalled_eq_iff (hfs : ∀ x ∈ fs, escapes c x = false)
    (h : Advance c fs ⟨s, [], []⟩ q) :
    (uninstallFacets c q.registered q.studio).2 = s ↔ Restored c fs s := by
  constructor
  · intro heq
    refine ⟨fun r hr k hcovers => ?_, fun hook hclaim hmem => ?_, fun k hk hnone => ?_⟩
    · have hk : ∀ event, k ≠ .hooks event := by
        rintro event rfl
        cases r <;> exact absurd hcovers (by simp [Registered.covers])
      rw [← heq, uninstalled_apply h hk, if_pos ⟨r, hr, hcovers⟩]
    · have hbucket := uninstalled_hooks hfs h (c.event hook)
      rw [heq] at hbucket
      rw [hbucket] at hmem
      simp [hclaim] at hmem
    · have hleft := uninstalled_apply h hk
      rw [heq, if_neg] at hleft
      · exact hleft.symm
      · rintro ⟨r, hr, hcovers⟩
        exact absurd (hcovers.symm.trans (hnone r hr)) (by simp)
  · rintro ⟨hfresh, hunhooked, hidle⟩
    funext k
    by_cases hk : ∀ event, k ≠ .hooks event
    · rw [uninstalled_apply h hk]
      split_ifs with hclaimed
      · obtain ⟨r, hr, hcovers⟩ := hclaimed
        exact (hfresh r hr k hcovers).symm
      · exact hidle k hk fun r hr => Bool.eq_false_iff.mpr fun hcovers => hclaimed ⟨r, hr, hcovers⟩
    · push Not at hk
      obtain ⟨event, rfl⟩ := hk
      rw [uninstalled_hooks hfs h]
      refine List.filter_eq_self.mpr fun hook hmem => ?_
      have hne : ¬ (c.event hook = event ∧ .hook hook ∈ claims c fs) := by
        rintro ⟨rfl, hclaim⟩
        exact hunhooked hook hclaim hmem
      exact decide_eq_true hne

end Rollback

/-! ### The install -/

omit [DecidableEq Hook] in
theorem spared_of_nil {e : Environment} (h : e.facets c = []) : Spared c e s where
  left _ k := by simp [h, reached]
  returned _ := by
    rw [h]
    exact ⟨List.forall_mem_nil _, fun _ h => absurd h List.not_mem_nil,
      fun k _ _ => rfl⟩

theorem finish_eq_iff (e : Environment) {name : Str}
    (h : (finish c e name (installFacets c (e.facets c) ⟨s, [], []⟩)).1.ok = false) :
    (finish c e name (installFacets c (e.facets c) ⟨s, [], []⟩)).2 = s ↔ Spared c e s := by
  by_cases hraised : ∃ x ∈ e.facets c, escapes c x = true
  · obtain ⟨kind, hkind⟩ := installFacets_error hraised ⟨s, [], []⟩
    rw [hkind, finish, funext_iff]
    exact ⟨fun hidle => ⟨fun _ => hidle, fun hstays => absurd (Or.inl hraised) hstays⟩,
      fun hspared => hspared.left (Or.inl hraised)⟩
  · have hfs : ∀ x ∈ e.facets c, escapes c x = false := fun x hx =>
      Bool.eq_false_iff.mpr fun hescapes => hraised ⟨x, hx, hescapes⟩
    obtain ⟨q, hq, hadvance⟩ := installFacets_ok hfs ⟨s, [], []⟩
    have herrors : q.errors = [] ↔ fails c (e.facets c) s = false := by
      simpa using hadvance.errors
    rw [hq] at h ⊢
    by_cases hfails : q.errors = []
    · cases hrecord : e.registry with
      | none => simp [finish, hfails, hrecord, Result.ok] at h
      | some kind =>
        have hleaves : Leaves c e s := Or.inr ⟨by simp [hrecord], herrors.mp hfails⟩
        simp only [finish, hfails, if_true, hrecord]
        rw [hadvance.studio, funext_iff]
        constructor
        · intro hidle
          exact ⟨fun _ => by rwa [reached_eq_self hfs], fun hstays => absurd hleaves hstays⟩
        · intro hspared
          simpa [reached_eq_self hfs] using hspared.left hleaves
    · have hstays : ¬ Leaves c e s := by
        rintro (hescapes | ⟨-, hnone⟩)
        · exact hraised hescapes
        · exact hfails (herrors.mpr hnone)
      simp only [finish, hfails, if_false]
      rw [uninstalled_eq_iff hfs hadvance]
      exact ⟨fun hrestored => ⟨fun hleaves => absurd hleaves hstays, fun _ => hrestored⟩,
        fun hspared => hspared.returned hstays⟩

/-- **An install that does not succeed changes nothing** exactly if what the bundle writes comes to
nothing. -/
theorem unchanged_iff (c : Installer Hook Graph) (e : Environment) (s : Studio Hook Graph)
    (h : (install c e s).1.ok = false) : (install c e s).2 = s ↔ Spared c e s := by
  cases hload : loadBundleManifest c e.candidates with
  | none =>
    refine iff_of_true ?_ (spared_of_nil ?_)
    · simp [install, hload]
    · simp [Environment.facets, hload]
  | some loaded =>
    cases loaded with
    | error raised =>
      refine iff_of_true ?_ (spared_of_nil ?_)
      · simp [install, hload]
      · simp [Environment.facets, hload]
    | ok m =>
      by_cases hfacets : m.facets = []
      · refine iff_of_true ?_ (spared_of_nil ?_)
        · simp [install, hload, hfacets]
        · simp [Environment.facets, hload, hfacets]
      · have hinstall : install c e s = finish c e (if m.name = [] then e.dirName else m.name)
            (installFacets c (e.facets c) ⟨s, [], []⟩) := by
          simp only [install, hload, if_neg hfacets]
        rw [hinstall] at h ⊢
        exact finish_eq_iff e h

/-! ### A skill that is lost -/

/-- An installer of a studio without a graph store and MCP servers. -/
def plainInstaller : Installer Unit Unit where
  str _ := []
  hookOf _ := .error .keyError
  event _ := []
  graphOf _ _ := .error .keyError
  graphId _ := []
  graphStore := false
  mcpRegister := false
  mcpUnregister := false

/-- A bundle with a skill `review`, and a connector that has no identifier. -/
def reviewKit : Environment where
  path := "review-kit"
  dirName := "review-kit"
  candidates := [some (.obj [("name", .str "review-kit"),
    ("skills", .arr [.obj [("name", .str "review"),
      ("content", .str "Review all changes.")]]),
    ("connectors", .arr [.obj [("type", .str "api_key")]])])]
  world _ := ⟨0, [], none, fun _ => [], .error .osError, fun _ => [], fun _ => .ok none, none, none⟩
  registry := none

/-- A studio that has a skill `review` of its own. -/
def reviewed : Studio Unit Unit :=
  runAll ([mkdir .skills ["review"],
    save .skills ["review", "SKILL.md"] "Review twice.\n"].map Write.toEdit)
    (blank Unit Unit)

/-- The condition can be checked where the install has answered with errors. -/
theorem unchanged_iff_reviewed :
    (install plainInstaller reviewKit reviewed).2 = reviewed ↔
      Spared plainInstaller reviewKit reviewed :=
  unchanged_iff plainInstaller reviewKit reviewed (by decide)

/-- The skill that was there before is gone when the bundle has been rolled back. -/
theorem overwritten_skill_lost :
    ¬ ∀ (c : Installer Unit Unit) (e : Environment) (s : Studio Unit Unit),
      (install c e s).1.ok = false → (install c e s).2 = s := by
  intro hall
  have hsame := hall plainInstaller reviewKit reviewed (by decide)
  have hskill := congrFun hsame (.file .skills ["review", "SKILL.md"])
  exact absurd (congrArg Option.isSome hskill) (by decide)

end AgentStudio.Bundles

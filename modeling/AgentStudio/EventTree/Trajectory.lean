import AgentStudio.EventTree.Forks

/-!
# The recorded trajectory of a run

`_run_with_trajectory` of `agent_runtime/runtime.py` gives each event of a graph an id and the id
of the event before it as its parent; what the reviewer finds in an event is reported before the
event and has neither. `_run_graph_async` of `agent_runtime/daemon_server.py` appends all of them
to the event tree, where the frames of single tokens are skipped; an append that fails is only
logged.

`Linked` is what a fork relies on: the path to an event of a run is the log of the run up to it.
The path follows the parent ids, so this holds exactly if every event in the log but the first has
the event before it in the log as its parent (`linked_iff_isChain`). For a recorded run that is
`Unbroken`, a condition on what was reported: after the first stored event, only events of the
graph are stored, and each directly follows a stored one (`linked_iff_unbroken`). One token between
two events breaks it (`not_linked`). Whatever was stored, a path to the root goes from parent to
child, and as far up as it can (`isPath_pathToRoot`).
-/

namespace AgentStudio.EventTree

open PyText Ancestry Machine Rows EventTreeStore

variable {δ μ : Type} {s : EventTreeStore δ μ} {r : Str}

/-! ### Paths along a chain of parents -/

/-- The path to every event of a run is the log of the run up to it, and so is what a fork at the
event copies. -/
def Linked (s : EventTreeStore δ μ) (r : Str) : Prop :=
  ∀ i ev, (s.listEvents r)[i]? = some ev →
    s.pathToRoot r ev.eventId = some ((s.listEvents r).take (i + 1)) ∧
      s.forkPath r ev.eventId = some ((s.listEvents r).take (i + 1), ev.eventId)

/-- The second event names the first as its parent. -/
def Follows (a b : Event δ) : Prop := b.parentId = a.eventId

theorem link_of_ne {k : Str} (h : k ≠ []) : link k = some k := if_neg h

theorem link_eq_some {k k' : Str} (h : link k = some k') : k = k' := by
  unfold link at h
  split_ifs at h
  exact Option.some.inj h

theorem byId_of_mem {events : List (Event δ)} (hn : (events.map Event.eventId).Nodup)
    {ev : Event δ} (h : ev ∈ events) : byId events ev.eventId = some ev := by
  rcases hfind : byId events ev.eventId with _ | x
  · exact absurd rfl (byId_eq_none_iff.mp hfind ev h)
  · rw [List.inj_on_of_nodup_map hn (mem_of_byId hfind) h (byId_eventId hfind)]

theorem ascent_of_isChain {events : List (Event δ)} (hn : (events.map Event.eventId).Nodup)
    (hid : ∀ ev ∈ events, ev.eventId ≠ [])
    (hfirst : ∀ ev, events.head? = some ev → ∀ x ∈ events, x.eventId ≠ ev.parentId)
    (hchain : events.IsChain Follows) {i : ℕ} (hi : i < events.length) :
    Ascent (byId events) (link ·.parentId) (link events[i].eventId)
      (events.take (i + 1)).reverse := by
  induction i with
  | zero =>
    have hmem : events[0] ∈ events := List.getElem_mem hi
    rw [link_of_ne (hid _ hmem), List.take_one, List.head?_eq_getElem?, List.getElem?_eq_getElem hi]
    refine .up (byId_of_mem hn hmem) (.stop ?_)
    rcases hlink : link events[0].parentId with _ | k
    · rfl
    · rw [Option.bind_some, ← link_eq_some hlink]
      refine byId_eq_none_iff.mpr (hfirst _ ?_)
      rw [List.head?_eq_getElem?, List.getElem?_eq_getElem hi]
  | succ i ih =>
    have hmem : events[i + 1] ∈ events := List.getElem_mem hi
    have hfollows : events[i + 1].parentId = events[i].eventId := hchain.getElem i hi
    rw [link_of_ne (hid _ hmem), List.take_succ_eq_append_getElem hi, List.reverse_append,
      List.reverse_singleton, List.singleton_append]
    refine .up (byId_of_mem hn hmem) ?_
    rw [hfollows]
    exact ih (Nat.lt_of_succ_lt hi)

theorem linked_iff_isChain (hv : Valid s)
    (hfirst : ∀ ev, (s.listEvents r).head? = some ev →
      ∀ x ∈ s.listEvents r, x.eventId ≠ ev.parentId) :
    Linked s r ↔ (s.listEvents r).IsChain Follows := by
  have hn := hv.nodup_listEvents r
  have hid : ∀ ev ∈ s.listEvents r, ev.eventId ≠ [] := fun ev h => hv.eventId_ne h
  constructor
  · intro h
    refine List.isChain_iff_getElem.mpr fun i hi => ?_
    have hpath := (h (i + 1) _ (List.getElem?_eq_getElem hi)).1
    unfold pathToRoot at hpath
    dsimp only at hpath
    split_ifs at hpath
    have hclimb := List.reverse_eq_iff.mp (Option.some.inj hpath)
    rw [List.take_succ_eq_append_getElem hi, List.reverse_append, List.reverse_singleton,
      List.singleton_append, List.take_succ_eq_append_getElem (Nat.lt_of_succ_lt hi),
      List.reverse_append, List.reverse_singleton, List.singleton_append] at hclimb
    obtain ⟨_, _, _, m, _, hrest⟩ := climb_eq_cons hclimb
    obtain ⟨k, hk, hfind, -⟩ := climb_eq_cons hrest
    exact (link_eq_some hk).trans (byId_eventId hfind).symm
  · intro hchain i ev hev
    obtain ⟨hi, rfl⟩ := List.getElem?_eq_some_iff.mp hev
    have hmem : (s.listEvents r)[i] ∈ s.listEvents r := List.getElem_mem hi
    have hpath : s.pathToRoot r (s.listEvents r)[i].eventId =
        some ((s.listEvents r).take (i + 1)) := by
      have hlen : ((s.listEvents r).take (i + 1)).reverse.length ≤ (s.listEvents r).length := by
        rw [List.length_reverse]
        exact List.length_take_le' _ _
      have hclimb : climb (byId (s.listEvents r)) (link ·.parentId) (s.listEvents r).length []
          (link (s.listEvents r)[i].eventId) = ((s.listEvents r).take (i + 1)).reverse :=
        (ascent_of_isChain hn hid hfirst hchain hi).climb_eq byId_eventId hlen
          fun _ _ => List.not_mem_nil
      rw [pathToRoot, if_neg, hclimb, List.reverse_reverse]
      rw [byId_of_mem hn hmem]
      exact Option.some_ne_none _
    refine ⟨hpath, ?_⟩
    rcases hlast : (s.listEvents r).getLast? with _ | last
    · exact absurd (List.getLast?_eq_none_iff.mp hlast) (List.ne_nil_of_mem hmem)
    · rw [forkPath]
      simp only [hlast]
      rw [if_pos (hid _ hmem), hpath]
      rfl

/-! ### What a run reports -/

/-- An event that the runtime yields, the messages of the conversation at that time, the id that
the store draws for it if it has none, and whether its append goes through. -/
structure Emission (δ μ : Type) where
  event : Event δ
  messages : List μ
  hex : Str
  appended : Bool

/-- What is reported before it has ids: an event of the graph or a finding of the reviewer. -/
structure Report (δ μ : Type) where
  type : Str
  data : δ
  hex : Str
  messages : List μ
  appended : Bool

def Report.event (p : Report δ μ) : Event δ := ⟨p.type, [], [], p.data⟩

/-- An event of the graph and the reviewer's findings in it, which are of type `verify`. -/
structure Observed (δ μ : Type) where
  report : Report δ μ
  findings : List (Report δ μ)
  verify : ∀ f ∈ findings, f.type = "verify"

/-- The event with its id and its parent: those it has, or else the drawn id and the last event. -/
def stamp (last hex : Str) (ev : Event δ) : Event δ :=
  { ev with eventId := orElse ev.eventId (evtId hex), parentId := orElse ev.parentId last }

/-- The report as it is yielded, with the given event. -/
def Report.emission (p : Report δ μ) (ev : Event δ) : Emission δ μ :=
  ⟨ev, p.messages, p.hex, p.appended⟩

/-- The loop of `_run_with_trajectory`: the findings in an event come before it, and only the
events of the graph are stamped. -/
def runWithTrajectory : Str → List (Observed δ μ) → List (Emission δ μ)
  | _, [] => []
  | last, o :: os =>
    let ev := stamp last o.report.hex o.report.event
    o.findings.map (fun f => f.emission f.event) ++
      o.report.emission ev :: runWithTrajectory ev.eventId os

/-- What is passed to an append that goes through. -/
def appends (es : List (Emission δ μ)) : List (Event δ × List μ × Str) :=
  (es.filter Emission.appended).map fun e => (e.event, e.messages, e.hex)

/-- The event that `append_event` stores, if it does. -/
def recorded (c : Event δ × List μ × Str) : Option (Event δ) :=
  if c.1.type ∈ skippedEventTypes then none
  else some { c.1 with eventId := orElse c.1.eventId (evtId c.2.2) }

def appendTo (r : Str) : Operation δ μ → Option (Event δ × List μ × Str)
  | .appendEvent r' ev messages hex => if r' = r then some (ev, messages, hex) else none
  | _ => none

/-! ### When the chain is unbroken -/

/-- Of a report: whether it is an event of the graph, and whether it is stored. -/
structure Mark where
  inner : Bool
  stored : Bool
deriving DecidableEq

/-- A report with the information whether it is an event of the graph. -/
def reportMark (p : Bool × Report δ μ) : Mark :=
  ⟨p.1, p.2.appended && decide (p.2.type ∉ skippedEventTypes)⟩

def Observed.reports (o : Observed δ μ) : List (Bool × Report δ μ) :=
  o.findings.map (Prod.mk false) ++ [(true, o.report)]

/-- The first stored report is free; after it, only events of the graph may be stored, and each of
them only if the event of the graph before it is. `started` says whether a report is stored so
far, `linked` whether the last event of the graph is. -/
def Unbroken : Bool → Bool → List Mark → Prop
  | _, _, [] => True
  | started, linked, m :: ms =>
    (m.stored = true → started = true → m.inner = true ∧ linked = true) ∧
      Unbroken (started || m.stored) (if m.inner then m.stored else linked) ms

instance : (started linked : Bool) → (ms : List Mark) → Decidable (Unbroken started linked ms)
  | _, _, [] => isTrue trivial
  | _, _, _ :: _ => @instDecidableAnd _ _ inferInstance (instDecidableUnbroken _ _ _)

/-- `runWithTrajectory` on the reports in order. -/
private def emit : Str → List (Bool × Report δ μ) → List (Emission δ μ)
  | _, [] => []
  | last, (inner, p) :: ps =>
    if inner then p.emission (stamp last p.hex p.event) :: emit (evtId p.hex) ps
    else p.emission p.event :: emit last ps

private theorem emit_findings (last : Str) (fs : List (Report δ μ))
    (ps : List (Bool × Report δ μ)) :
    emit last (fs.map (Prod.mk false) ++ ps) =
      fs.map (fun f => f.emission f.event) ++ emit last ps := by
  induction fs with
  | nil => rfl
  | cons f fs ih => exact congrArg _ ih

private theorem runWithTrajectory_eq (last : Str) (os : List (Observed δ μ)) :
    runWithTrajectory last os = emit last (os.flatMap Observed.reports) := by
  induction os generalizing last with
  | nil => rfl
  | cons o os ih =>
    rw [List.flatMap_cons, Observed.reports, List.append_assoc, emit_findings, runWithTrajectory,
      ih]
    rfl

private def logged (last : Str) (ps : List (Bool × Report δ μ)) : List (Event δ) :=
  (appends (emit last ps)).filterMap recorded

/-- The event that a report leaves in the log, if it is stored. -/
private def loggedEvent (last : Str) (p : Bool × Report δ μ) : Event δ :=
  ⟨p.2.type, evtId p.2.hex, if p.1 then last else [], p.2.data⟩

private def lastAfter (last : Str) (p : Bool × Report δ μ) : Str :=
  if p.1 then evtId p.2.hex else last

private theorem logged_cons (last : Str) (p : Bool × Report δ μ) (ps : List (Bool × Report δ μ)) :
    logged last (p :: ps) =
      (if (reportMark p).stored then [loggedEvent last p] else []) ++
        logged (lastAfter last p) ps := by
  obtain ⟨inner, type, data, hex, messages, appended⟩ := p
  cases inner <;> cases appended <;> by_cases h : type ∈ skippedEventTypes <;>
    simp [logged, emit, appends, recorded, reportMark, Report.emission, Report.event, stamp, orElse,
      loggedEvent, lastAfter, h]

private theorem isChain_logged (ps : List (Bool × Report δ μ)) {last : Str}
    {prev : Option (Event δ)} {linked : Bool}
    (hlinked : linked = true ↔ ∃ x, prev = some x ∧ x.eventId = last)
    (hn : (ps.map (·.2.hex)).Nodup) (hlast : ∀ p ∈ ps, evtId p.2.hex ≠ last)
    (hprev : ∀ x, prev = some x → x.eventId ≠ [] ∧ ∀ p ∈ ps, evtId p.2.hex ≠ x.eventId) :
    (prev.toList ++ logged last ps).IsChain Follows ↔
      Unbroken prev.isSome linked (ps.map reportMark) := by
  induction ps generalizing last prev linked with
  | nil =>
    refine iff_of_true ?_ trivial
    rcases prev with _ | x
    · exact .nil
    · exact .singleton x
  | cons p ps ih =>
    obtain ⟨hp, hn⟩ := List.nodup_cons.mp hn
    have hnew : ∀ q ∈ ps, evtId q.2.hex ≠ evtId p.2.hex := fun q hq h =>
      hp (List.mem_map.mpr ⟨q, hq, List.append_cancel_left h⟩)
    have hlast' : ∀ q ∈ ps, evtId q.2.hex ≠ lastAfter last p := by
      intro q hq
      unfold lastAfter
      split_ifs
      · exact hnew q hq
      · exact hlast q (List.mem_cons_of_mem _ hq)
    rw [logged_cons, List.map_cons, Unbroken]
    rcases hstored : (reportMark p).stored with _ | _
    · -- nothing is stored; an event of the graph leaves a gap
      rw [if_neg Bool.false_ne_true, List.nil_append, Bool.or_false,
        and_iff_right fun h => absurd h Bool.false_ne_true]
      refine ih ?_ hn hlast' fun x hx => ⟨(hprev x hx).1, fun q hq =>
        (hprev x hx).2 q (List.mem_cons_of_mem _ hq)⟩
      rcases hinner : p.1 with _ | _
      · simpa [reportMark, lastAfter, hinner] using hlinked
      · simp only [reportMark, lastAfter, hinner, if_true, Bool.false_eq_true, false_iff]
        rintro ⟨x, hx, heq⟩
        exact (hprev x hx).2 p List.mem_cons_self heq.symm
    · rw [if_pos rfl, List.singleton_append, Bool.or_true]
      have hev : ∀ x, some (loggedEvent last p) = some x →
          x.eventId ≠ [] ∧ ∀ q ∈ ps, evtId q.2.hex ≠ x.eventId := by
        intro x hx
        obtain rfl := Option.some.inj hx
        exact ⟨List.append_ne_nil_of_left_ne_nil (by decide) _, hnew⟩
      rcases prev with _ | x
      · refine Iff.trans (ih ?_ hn hlast' hev)
          (and_iff_right fun _ h => absurd h Bool.false_ne_true).symm
        rcases hinner : p.1 with _ | _
        · have hid : evtId p.2.hex ≠ last := hlast p List.mem_cons_self
          simpa [reportMark, lastAfter, loggedEvent, hinner, hid] using hlinked
        · simp [reportMark, lastAfter, loggedEvent, hinner]
      · refine List.isChain_cons_cons.trans ?_
        rcases hinner : p.1 with _ | _
        · -- a finding names no parent
          refine iff_of_false (fun h => (hprev x rfl).1 ?_) fun h => ?_
          · exact h.1.symm.trans (by simp [loggedEvent, hinner])
          · exact absurd (h.1 rfl rfl).1 (by simp [reportMark, hinner])
        · refine and_congr ?_ (ih ?_ hn hlast' hev)
          · simp only [Follows, loggedEvent, hinner, if_true, reportMark, true_and,
            Option.isSome_some,
              forall_const, hlinked, Option.some.injEq, exists_eq_left', eq_comm]
          · simp [reportMark, lastAfter, loggedEvent, hinner]

private theorem eventId_logged_sublist (ps : List (Bool × Report δ μ)) (last : Str) :
    ((logged last ps).map Event.eventId).Sublist (ps.map (evtId ·.2.hex)) := by
  induction ps generalizing last with
  | nil => exact List.Sublist.refl _
  | cons p ps ih =>
    rw [logged_cons, List.map_append, List.map_cons]
    split_ifs
    · exact (ih _).cons_cons _
    · exact (ih _).cons _

private theorem parentId_head_logged (ps : List (Bool × Report δ μ)) {last : Str}
    (hn : (ps.map (·.2.hex)).Nodup) (hlast : ∀ p ∈ ps, evtId p.2.hex ≠ last) {ev : Event δ}
    (hev : (logged last ps).head? = some ev) {x : Event δ} (hx : x ∈ logged last ps) :
    x.eventId ≠ ev.parentId := by
  induction ps generalizing last with
  | nil => exact absurd hev (by simp [logged, emit, appends])
  | cons p ps ih =>
    obtain ⟨hp, hn⟩ := List.nodup_cons.mp hn
    have hids := eventId_logged_sublist (p :: ps) last
    have hxid := hids.subset (List.mem_map_of_mem hx)
    obtain ⟨q, hq, hqx⟩ := List.mem_map.mp hxid
    rw [logged_cons] at hev hx
    rcases hstored : (reportMark p).stored with _ | _
    · rw [hstored, if_neg Bool.false_ne_true, List.nil_append] at hev hx
      refine ih hn (fun y hy => ?_) hev hx
      unfold lastAfter
      split_ifs
      · exact fun h => hp (List.mem_map.mpr ⟨y, hy, List.append_cancel_left h⟩)
      · exact hlast y (List.mem_cons_of_mem _ hy)
    · rw [hstored, if_pos rfl, List.singleton_append] at hev
      obtain rfl := Option.some.inj hev
      rw [← hqx]
      unfold loggedEvent
      dsimp only
      split_ifs
      · exact hlast q hq
      · exact List.append_ne_nil_of_left_ne_nil (by decide) _

/-! ### The log of a run -/

theorem listEvents_appendEvent (hv : Valid s) {ev : Event δ} {messages : List μ} {hex : Str}
    (hid : ∀ x ∈ recorded (ev, messages, hex), x.eventId ∉ (s.listEvents r).map Event.eventId) :
    (s.appendEvent r ev messages hex).listEvents r =
      s.listEvents r ++ (recorded (ev, messages, hex)).toList := by
  by_cases htype : ev.type ∈ skippedEventTypes
  · rw [appendEvent, if_pos htype, recorded, if_pos htype]
    exact (List.append_nil _).symm
  · have hafter := hv.appendEvent r ev messages hex
    rw [appendEvent, if_neg htype] at hafter ⊢
    rw [recorded, if_neg htype] at hid ⊢
    have hkey : (s.eventRow r ev messages hex).key ∉ s.runEventLog.rows.map EventRow.key := by
      intro hmem
      obtain ⟨x, hx, hxk⟩ := List.mem_map.mp hmem
      refine hid _ rfl (List.mem_map.mpr ⟨x.event, ?_, ?_⟩)
      · rw [hv.listEvents_eq]
        exact List.mem_map_of_mem (List.mem_filter.mpr
          ⟨hx, decide_eq_true (congrArg Prod.fst hxk)⟩)
      · exact (hv.ids x hx).1.trans (congrArg Prod.snd hxk)
    have hself : [s.eventRow r ev messages hex].filter (·.runId = r) =
        [s.eventRow r ev messages hex] :=
      List.filter_eq_self.mpr fun x hx => by
        obtain rfl := List.mem_singleton.mp hx
        exact decide_eq_true rfl
    rw [hafter.listEvents_eq, hv.listEvents_eq, rowsOf, Table.rows_put hkey, List.filter_append,
      List.map_append, hself]
    rfl

/-- The events of a run after a call: a call for another run leaves them alone. -/
theorem listEvents_step (hv : Valid s) {c : Operation δ μ} (hfresh : Fresh c s)
    (hfork : ∀ f, c = .forkRun f → f.newRun ≠ r)
    (hid : ∀ x ∈ (appendTo r c).bind recorded,
      x.eventId ∉ (s.listEvents r).map Event.eventId) :
    (step c s).2.listEvents r = s.listEvents r ++ ((appendTo r c).bind recorded).toList := by
  cases c with
  | registerRun m => exact (List.append_nil _).symm
  | appendEvent r' ev messages hex =>
    by_cases hr : r' = r
    · obtain rfl := hr
      rw [appendTo, if_pos rfl] at hid ⊢
      exact listEvents_appendEvent hv hid
    · rw [appendTo, if_neg hr]
      refine (listEvents_congr ?_).trans (List.append_nil _).symm
      unfold step EventTreeStore.appendEvent
      dsimp only
      split_ifs
      · rfl
      · exact Table.filter_put fun x hx => decide_eq_false fun hxr =>
          hr ((congrArg Prod.fst hx).symm.trans hxr)
  | forkRun f =>
    refine Eq.trans ?_ (List.append_nil _).symm
    rcases forkRun_cases s f with ⟨h, -⟩ | ⟨m, path, last, hm, hpath, h⟩
    · rw [step, h]
    · rw [step, h]
      exact ((hv.forked hfresh hm hpath).others r (hfork f rfl).symm).1
  | activateBranch r' b =>
    refine Eq.trans ?_ (List.append_nil _).symm
    rcases activateBranch_cases s r' b with ⟨h, -⟩ | ⟨m, t, -, -, h, hlog, -⟩
    · rw [step, h]
    · rw [step, h]
      exact listEvents_congr (congrArg (fun T => T.rows.filter (·.runId = r)) hlog)

theorem listEvents_run (cs : List (Operation δ μ)) (hv : Valid s)
    (hfresh : Along step Fresh cs s) (hfork : ∀ f, .forkRun f ∈ cs → f.newRun ≠ r)
    (hids : ((s.listEvents r ++ (cs.filterMap (appendTo r)).filterMap recorded).map
      Event.eventId).Nodup) :
    (run step cs s).2.listEvents r =
      s.listEvents r ++ (cs.filterMap (appendTo r)).filterMap recorded := by
  induction cs generalizing s with
  | nil => exact (List.append_nil _).symm
  | cons c cs ih =>
    have hsplit : ((c :: cs).filterMap (appendTo r)).filterMap recorded =
        ((appendTo r c).bind recorded).toList ++
          (cs.filterMap (appendTo r)).filterMap recorded := by
      rw [List.filterMap_cons]
      rcases appendTo r c with _ | x
      · rfl
      · rw [List.filterMap_cons, Option.bind_some]
        rcases recorded x with _ | ev <;> rfl
    rw [hsplit, ← List.append_assoc] at hids ⊢
    have hstep : (step c s).2.listEvents r =
        s.listEvents r ++ ((appendTo r c).bind recorded).toList := by
      refine listEvents_step hv hfresh.1 (fun f hf => hfork f (hf ▸ List.mem_cons_self)) ?_
      intro x hx hmem
      rw [Option.mem_def.mp hx, List.map_append, List.map_append, List.nodup_append,
        List.nodup_append] at hids
      exact hids.1.2.2 _ hmem _ (List.mem_map_of_mem (List.mem_singleton_self x)) rfl
    rw [← hstep] at hids ⊢
    exact ih (hv.step c s hfresh.1) hfresh.2
      (fun f hf => hfork f (List.mem_cons_of_mem _ hf)) hids

/-! ### Recorded runs -/

/-- **A recorded run is linked exactly if it is unbroken.** The calls are any calls of the store
of which those that append to the run are the appends of its trajectory. -/
theorem linked_iff_unbroken (os : List (Observed δ μ)) (cs : List (Operation δ μ))
    (hhex : ((os.flatMap Observed.reports).map (·.2.hex)).Nodup)
    (hfresh : Along step Fresh cs .empty) (hfork : ∀ f, .forkRun f ∈ cs → f.newRun ≠ r)
    (hcs : cs.filterMap (appendTo r) = appends (runWithTrajectory [] os)) :
    Linked (run step cs .empty).2 r ↔
      Unbroken false false ((os.flatMap Observed.reports).map reportMark) := by
  set ps := os.flatMap Observed.reports
  have hlast : ∀ p ∈ ps, evtId p.2.hex ≠ [] := fun p _ =>
    List.append_ne_nil_of_left_ne_nil (by decide) _
  have hlogged : (cs.filterMap (appendTo r)).filterMap recorded = logged [] ps := by
    rw [hcs, runWithTrajectory_eq, logged]
  have hn : ((logged [] ps).map Event.eventId).Nodup := by
    refine List.Nodup.sublist (eventId_logged_sublist ps []) ?_
    have hmap : (ps.map (·.2.hex)).map evtId = ps.map (evtId ·.2.hex) := List.map_map
    rw [← hmap]
    exact hhex.map fun _ _ h => List.append_cancel_left h
  have hlog : (run step cs .empty).2.listEvents r = logged [] ps := by
    rw [listEvents_run cs valid_empty hfresh hfork, hlogged]
    · rfl
    · rw [hlogged]
      exact hn
  rw [linked_iff_isChain (valid_run cs hfresh), hlog]
  · have hchain : ((none : Option (Event δ)).toList ++ logged [] ps).IsChain Follows ↔
        Unbroken (none : Option (Event δ)).isSome false (ps.map reportMark) :=
      isChain_logged ps (by simp) hhex hlast (by simp)
    exact hchain
  · rw [hlog]
    exact fun ev hev x hx => parentId_head_logged ps hhex hlast hev hx

/-- The calls of `_run_graph_async` for one run: it is registered, then what it reports is
appended. -/
def graphRun (m : RunMeta) (os : List (Observed δ μ)) : List (Operation δ μ) :=
  .registerRun m :: (appends (runWithTrajectory [] os)).map fun c =>
    .appendEvent m.runId c.1 c.2.1 c.2.2

def plainRun : RunMeta :=
  { runId := execId "r", graphId := "g", sessionId := [], taskId := [],
    team := "default", rootRunId := [], parentRunId := [], forkEventId := [],
    createdAt := 0 }

/-- A run that reports events of the given types, without findings. -/
def reporting (types : List String) : List (Observed Unit ℕ) :=
  types.zipIdx.map fun t =>
    { report := ⟨t.1.toList, (), [Char.ofNat (97 + t.2)], [], true⟩
      findings := []
      verify := List.forall_mem_nil _ }

/-- Without tokens in between, a run is linked. -/
theorem linked_reporting :
    Linked (run step (graphRun plainRun (reporting ["start", "tool_call", "end"])) .empty).2
      plainRun.runId :=
  (linked_iff_unbroken (reporting ["start", "tool_call", "end"]) _ (by decide) (by decide)
    (by simp [graphRun]) (by decide)).mpr (by decide)

/-- **A token breaks the chain.** The path to the last event does not reach the first one. -/
theorem not_linked :
    ¬Linked (run step (graphRun plainRun (reporting ["start", "token", "end"])) .empty).2
      plainRun.runId :=
  fun h => absurd (h 1 ⟨"end", evtId "c", evtId "b", ()⟩ (by decide)).1
    (by decide)

/-! ### Paths to the root -/

/-- What a path to the root is: a path from an event up to one whose parent is not in the run, or
is on the path as well. -/
structure IsPath (events : List (Event δ)) (eventId : Str) (path : List (Event δ)) : Prop where
  stored : ∀ ev ∈ path, ev ∈ events
  nodup : (path.map Event.eventId).Nodup
  last : path.getLast?.map Event.eventId = some eventId
  links : path.IsChain Follows
  root : ∀ ev ∈ path.head?, (∀ ev' ∈ events, ev'.eventId ≠ ev.parentId) ∨
    ev.parentId ∈ path.map Event.eventId

/-- **Paths to the root**: in every run of calls, each path that is answered leads up from the
event as far as the parents are there. -/
theorem isPath_pathToRoot (cs : List (Operation δ μ)) (hfresh : Along step Fresh cs .empty)
    {r e : Str} {path : List (Event δ)} (h : (run step cs .empty).2.pathToRoot r e = some path) :
    IsPath ((run step cs .empty).2.listEvents r) e path := by
  have hv := valid_run cs hfresh
  generalize (run step cs .empty).2 = s at hv h
  obtain ⟨hstored, hnodup⟩ := pathToRoot_spec h
  unfold pathToRoot at h
  dsimp only at h
  split_ifs at h with hnone
  obtain ⟨ev, hev⟩ := Option.ne_none_iff_exists'.mp hnone
  have hne : e ≠ [] := fun he => hv.eventId_ne (mem_of_byId hev) ((byId_eventId hev).trans he)
  obtain ⟨l, hl⟩ : ∃ l, climb (byId (s.listEvents r)) (link ·.parentId) (s.listEvents r).length []
    (link e) = l := ⟨_, rfl⟩
  rw [hl] at h
  obtain rfl := Option.some.inj h
  have hpos : 0 < (s.listEvents r).length := List.length_pos_of_mem (mem_of_byId hev)
  have hhead : ∃ l', l = ev :: l' := by
    obtain ⟨m, hm⟩ := Nat.exists_eq_add_one.mpr hpos
    rw [← hl, hm, link, if_neg hne, climb_some hev List.not_mem_nil]
    exact ⟨_, rfl⟩
  refine ⟨hstored, hnodup, ?_, ?_, fun top htop => ?_⟩
  · obtain ⟨l', rfl⟩ := hhead
    simp [byId_eventId hev]
  · exact List.isChain_reverse.mpr ((isChain_climb byId_eventId hl).imp fun _ _ => link_eq_some)
  · rw [List.head?_reverse] at htop
    rcases climb_stops byId_eventId hl htop with hlen | hstop | ⟨k, hup, hk⟩
    · -- all events are on the path
      have hperm : (l.reverse.map Event.eventId).Perm ((s.listEvents r).map Event.eventId) :=
        (List.subperm_of_subset hnodup (List.map_subset _ hstored)).perm_of_length_le
          (by simp [hlen])
      by_cases hthere : top.parentId ∈ (s.listEvents r).map Event.eventId
      · exact .inr (hperm.mem_iff.mpr hthere)
      · exact .inl fun ev' hmem hid => hthere (hid ▸ List.mem_map_of_mem hmem)
    · refine .inl fun ev' hmem hid => ?_
      rw [← hid, link, if_neg (hv.eventId_ne hmem)] at hstop
      exact byId_eq_none_iff.mp hstop ev' hmem rfl
    · refine .inr ?_
      rw [link_eq_some hup]
      simpa using hk

/-- A run with two events, the second below the first. -/
def twoEvents : List (Operation Unit ℕ) :=
  [.registerRun ⟨"r", [], [], [], [], [], [], [], 0⟩,
    .appendEvent "r" ⟨"start", "a", [], ()⟩ [] "1", .appendEvent "r" ⟨"end", "b", "a", ()⟩ [] "2"]

theorem isPath_pathToRoot_twoEvents :
    IsPath ((run step twoEvents .empty).2.listEvents "r") "b"
      [⟨"start", "a", [], ()⟩, ⟨"end", "b", "a", ()⟩] :=
  isPath_pathToRoot twoEvents ⟨⟨by decide, rfl⟩, trivial, trivial, trivial⟩ (by decide +kernel)

end AgentStudio.EventTree

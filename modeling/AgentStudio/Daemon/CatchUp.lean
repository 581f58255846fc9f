import AgentStudio.Library.Machine
import AgentStudio.Daemon.TeamEvents

/-!
# Catching up with the events of a team

Across the replay of the ring buffer and the live events, a client should get every event of its
team after the last one it has seen exactly once and in order (`DaemonServer.Lawful`).

`DaemonServer.due` are the events that a client has got, those left to replay, and those that tasks
have for it. The invariant `Tracks` says that the wanted events among them are in order and that
none is missing, as soon as the ring buffer has been read. `Act.Apart` is what a step has to meet
for this to be kept; `lawful_of_apart` makes a run of it, and `not_caughtUp` is a run in which a
live event overtakes the replay.
-/

namespace AgentStudio.TeamEvents

open PyText PyJson PyDict

variable {s : DaemonServer} {c c' : ℕ} {x : Session} {e : Event}

namespace DaemonServer

/-- The events that are left to replay for a client. -/
def missed (s : DaemonServer) (c : ℕ) : List Event :=
  match s.handlers c with
  | .replaying missed => missed
  | _ => []

/-- The events that tasks of broadcasts have for a client. -/
def pending (s : DaemonServer) (c : ℕ) : List Event :=
  (s.sends.filter fun p => p.1 = c).map Prod.snd

/-- The wanted events that a client has got or will get, if nothing overtakes. -/
def due (s : DaemonServer) (c : ℕ) (x : Session) : List Event :=
  (x.events ++ s.missed c ++ s.pending c).filter x.Wants

/-- The ring buffer of a client has not been read yet. -/
def Subscribing (s : DaemonServer) (c : ℕ) : Prop := ∃ t k, s.handlers c = .subscribing t k

/-- The wanted events of a flow are in order, and none that was broadcast is missing. -/
structure Flows (s : DaemonServer) (x : Session) (flow : List Event) : Prop where
  order : flow.Pairwise fun e e' => e.eventId < e'.eventId
  bound : ∀ e ∈ flow, e.eventId ≤ s.eventSeq
  all : ∀ e ∈ s.broadcasts, x.Wants e → e ∈ flow

/-- What is kept about a client that has subscribed. -/
structure Tracks (s : DaemonServer) (c : ℕ) (x : Session) : Prop where
  subscription : s.wsSubscriptions.lookup c = some x.team
  asked : ∀ t k, s.handlers c = .subscribing t k → t = x.team ∧ k = x.lastEventId
  waits : s.Subscribing c → s.due c x = []
  flows : ¬ s.Subscribing c → s.Flows x (s.due c x)

structure Inv (s : DaemonServer) : Prop where
  clients : s.wsClients.Nodup
  log : s.eventLog.Pairwise fun e e' => e.eventId < e'.eventId
  bound : ∀ e ∈ s.eventLog, e.eventId ≤ s.eventSeq
  tracks : ∀ c ∈ s.wsClients, ∀ x, s.session c = some x → s.Tracks c x

/-! ### The law -/

theorem events_sublist_due (s : DaemonServer) (c : ℕ) (x : Session) :
    (x.events.filter x.Wants).Sublist (s.due c x) :=
  ((List.sublist_append_left _ _).trans (List.sublist_append_left _ _)).filter _

theorem Tracks.delivers (h : s.Tracks c x) : s.Delivers c x where
  order := by
    by_cases hs : s.Subscribing c
    · have hnil := s.events_sublist_due c x
      rw [h.waits hs] at hnil
      rw [List.sublist_nil.mp hnil]
      exact List.Pairwise.nil
    · exact (h.flows hs).order.sublist (s.events_sublist_due c x)
  all := by
    rintro ⟨hreading, hsends⟩ e he hw
    have hmissed : s.missed c = [] := by rw [missed, hreading]
    have hpending : s.pending c = [] := by
      rw [pending, List.map_eq_nil_iff]
      refine List.filter_eq_nil_iff.mpr fun p hp hc => hsends ?_
      rw [← of_decide_eq_true hc]
      exact List.mem_map_of_mem hp
    have hnot : ¬ s.Subscribing c := by
      rintro ⟨t, k, hs⟩
      rw [hreading] at hs
      exact absurd hs nofun
    have hmem := (h.flows hnot).all e he hw
    rw [due, hmissed, hpending, List.append_nil, List.append_nil] at hmem
    exact List.mem_of_mem_filter hmem

theorem Inv.lawful (h : s.Inv) : s.Lawful :=
  fun c hc x hx => (h.tracks c hc x hx).delivers

/-! ### What a step leaves alone -/

theorem Flows.mono {s' : DaemonServer} {flow : List Event} (h : s.Flows x flow)
    (hseq : s.eventSeq ≤ s'.eventSeq) (hbroadcasts : s'.broadcasts = s.broadcasts) :
    s'.Flows x flow where
  order := h.order
  bound e he := (h.bound e he).trans hseq
  all e he := h.all e (hbroadcasts ▸ he)

theorem Tracks.congr {s' : DaemonServer} (h : s.Tracks c x)
    (hsub : s'.wsSubscriptions.lookup c = s.wsSubscriptions.lookup c)
    (hhandler : s'.handlers c = s.handlers c) (hdue : s'.due c x = s.due c x)
    (hseq : s.eventSeq ≤ s'.eventSeq) (hbroadcasts : s'.broadcasts = s.broadcasts) :
    s'.Tracks c x := by
  have hsubscribing : s'.Subscribing c ↔ s.Subscribing c := by
    rw [Subscribing, Subscribing, hhandler]
  constructor
  · rw [hsub]
    exact h.subscription
  · rw [hhandler]
    exact h.asked
  · rw [hsubscribing, hdue]
    exact h.waits
  · rw [hsubscribing, hdue]
    exact fun hnot => (h.flows hnot).mono hseq hbroadcasts

theorem due_congr {s' : DaemonServer} (hhandler : s'.handlers c = s.handlers c)
    (hsends : s'.sends = s.sends) : s'.due c x = s.due c x := by
  rw [due, due, missed, missed, pending, pending, hhandler, hsends]

theorem session_write (s : DaemonServer) (c : ℕ) (f : Frame) :
    (s.write c f).session c = read (s.session c) f := by
  have hwritten : (s.write c f).written c = s.written c ++ [f] := Function.update_self ..
  rw [session, hwritten, List.foldl_append]
  rfl

theorem session_write_of_ne (s : DaemonServer) (f : Frame) (hc : c' ≠ c) :
    (s.write c f).session c' = s.session c' := by
  have hwritten : (s.write c f).written c' = s.written c' := Function.update_of_ne hc ..
  rw [session, hwritten, session]

theorem handlers_goTo (s : DaemonServer) (c : ℕ) (h : Handler) : (s.goTo c h).handlers c = h :=
  Function.update_self ..

theorem handlers_goTo_of_ne (s : DaemonServer) (h : Handler) (hc : c' ≠ c) :
    (s.goTo c h).handlers c' = s.handlers c' := Function.update_of_ne hc ..

/-! ### Events are appended -/

theorem Inv.appendEvent_log (h : s.Inv) (type : Str) (data : EventData) (team : Str) :
    (s.appendEvent type data team).eventLog.Pairwise (fun e e' => e.eventId < e'.eventId) ∧
      ∀ e ∈ (s.appendEvent type data team).eventLog, e.eventId ≤ s.eventSeq + 1 := by
  have hsub := append_sublist maxlen s.eventLog (s.nextEvent type data team)
  rw [← eventLog_appendEvent] at hsub
  constructor
  · refine List.Pairwise.sublist hsub ?_
    refine List.pairwise_append.mpr ⟨h.log, List.pairwise_singleton _ _, fun e he e' he' => ?_⟩
    rw [List.mem_singleton.mp he']
    exact Nat.lt_succ_of_le (h.bound e he)
  · intro e he
    rcases mem_snoc.mp (hsub.subset he) with he | rfl
    · exact (h.bound e he).trans (Nat.le_succ _)
    · exact le_rfl

theorem Inv.mirror (h : s.Inv) (type : Str) (data : EventData) (team : Str) :
    (s.appendEvent type data team).Inv := by
  obtain ⟨hlog, hbound⟩ := h.appendEvent_log type data team
  refine ⟨h.clients, hlog, hbound, fun c hc x hx => ?_⟩
  exact (h.tracks c hc x hx).congr rfl rfl (due_congr rfl rfl) (Nat.le_succ _) rfl

theorem pending_broadcastEvent (hclients : s.wsClients.Nodup) (type : Str) (data : EventData)
    (team : Option Str) (hc : c ∈ s.wsClients) {sub : Str}
    (hsub : s.wsSubscriptions.lookup c = some sub) :
    (s.broadcastEvent type data team).pending c = s.pending c ++
      if channel data team = sub then [s.nextEvent type data (channel data team)] else [] := by
  have hsends : (s.broadcastEvent type data team).pending c = s.pending c ++
      (((s.wsClients.filter fun c => s.wsSubscriptions.lookup c = some (channel data team)).map
        fun c => (c, s.nextEvent type data (channel data team))).filter
          fun p => p.1 = c).map Prod.snd := by
    rw [pending, broadcastEvent, List.filter_append, List.map_append]
    rfl
  have honly : (s.wsClients.filter fun a => decide (a = c) &&
      decide (s.wsSubscriptions.lookup a = some (channel data team))) =
        if channel data team = sub then [c] else [] := by
    split_ifs with hch
    · have hfilter : ∀ a ∈ s.wsClients, (decide (a = c) &&
          decide (s.wsSubscriptions.lookup a = some (channel data team))) = (a == c) := by
        intro a _
        by_cases ha : a = c
        · subst ha
          simp [hsub, hch]
        · simp [ha]
      rw [List.filter_congr hfilter, List.filter_beq, List.count_eq_one_of_mem hclients hc]
      rfl
    · refine List.filter_eq_nil_iff.mpr fun a _ ha => hch ?_
      obtain ⟨rfl, hlookup⟩ : a = c ∧ s.wsSubscriptions.lookup a = some (channel data team) := by
        simpa using ha
      exact Option.some.inj (hlookup.symm.trans hsub)
  rw [hsends, List.filter_map, List.filter_filter, List.map_map]
  refine congrArg (s.pending c ++ ·) ?_
  refine (congrArg (List.map _) honly).trans ?_
  split_ifs <;> rfl

theorem due_broadcastEvent (hclients : s.wsClients.Nodup) (type : Str) (data : EventData)
    (team : Option Str) (hc : c ∈ s.wsClients)
    (hsub : s.wsSubscriptions.lookup c = some x.team) :
    (s.broadcastEvent type data team).due c x = s.due c x ++
      if channel data team = x.team ∧ x.Wants (s.nextEvent type data (channel data team)) then
        [s.nextEvent type data (channel data team)] else [] := by
  have hmissed : (s.broadcastEvent type data team).missed c = s.missed c := rfl
  rw [due, hmissed, pending_broadcastEvent hclients type data team hc hsub, ← List.append_assoc,
    List.filter_append, ← due]
  refine congrArg (s.due c x ++ ·) ?_
  by_cases hch : channel data team = x.team
  · by_cases hw : x.Wants (s.nextEvent type data (channel data team))
    · rw [if_pos hch, if_pos ⟨hch, hw⟩]
      simp [hw]
    · rw [if_pos hch, if_neg fun h => hw h.2]
      simp [hw]
  · rw [if_neg hch, if_neg fun h => hch h.1]
    rfl

theorem Flows.broadcast {flow : List Event} (h : s.Flows x flow) (type : Str) (data : EventData)
    (team : Option Str) (hch : x.Wants (s.nextEvent type data (channel data team)) →
      channel data team = x.team) :
    (s.broadcastEvent type data team).Flows x (flow ++
      if channel data team = x.team ∧ x.Wants (s.nextEvent type data (channel data team)) then
        [s.nextEvent type data (channel data team)] else []) := by
  by_cases hw : x.Wants (s.nextEvent type data (channel data team))
  · rw [if_pos ⟨hch hw, hw⟩]
    refine ⟨List.pairwise_append.mpr ⟨h.order, List.pairwise_singleton _ _, ?_⟩, ?_, ?_⟩
    · intro e he e' he'
      rw [List.mem_singleton.mp he']
      exact Nat.lt_succ_of_le (h.bound e he)
    · intro e he
      rcases mem_snoc.mp he with he | rfl
      · exact (h.bound e he).trans (Nat.le_succ _)
      · exact le_rfl
    · intro e he hwe
      rcases List.mem_append.mp he with he | he
      · exact List.mem_append_left _ (h.all e he hwe)
      · exact List.mem_append_right _ he
  · rw [if_neg fun hand => hw hand.2, List.append_nil]
    refine ⟨h.order, fun e he => (h.bound e he).trans (Nat.le_succ _), fun e he hwe => ?_⟩
    rcases mem_snoc.mp he with he | rfl
    · exact h.all e he hwe
    · exact absurd hwe hw

theorem Inv.broadcast (h : s.Inv) {type : Str} {data : EventData} {team : Option Str}
    (hok : Act.Apart (.broadcast type data team) s) : (s.broadcastEvent type data team).Inv := by
  obtain ⟨hlog, hbound⟩ := h.appendEvent_log type data (channel data team)
  rw [← eventLog_broadcastEvent] at hlog hbound
  refine ⟨h.clients, hlog, hbound, fun c hc x hx => ?_⟩
  have ht := h.tracks c hc x hx
  have hdue := due_broadcastEvent h.clients type data team hc ht.subscription
  refine ⟨ht.subscription, ht.asked, fun hs => ?_, fun hnot => ?_⟩
  · -- The event is in the ring buffer when the client reads it.
    obtain ⟨t, k, hhandler⟩ := hs
    rw [hdue, ht.waits ⟨t, k, hhandler⟩]
    exact if_neg fun hand => (hok c hc x hx hand.2).mp hand.1 t k hhandler
  · rw [hdue]
    exact (ht.flows hnot).broadcast type data team fun hw =>
      (hok c hc x hx hw).mpr fun t k hs => hnot ⟨t, k, hs⟩

/-! ### Connections -/

theorem Inv.connect (h : s.Inv) (c : ℕ) : (s.connect c).Inv := by
  rw [DaemonServer.connect]
  split_ifs with hc
  · exact h
  rw [not_or] at hc
  refine ⟨?_, h.log, h.bound, fun c' hc' x hx => ?_⟩
  · exact List.nodup_append.mpr ⟨h.clients, List.nodup_singleton c, fun a ha b hb hab =>
      hc.1 (List.mem_singleton.mp hb ▸ hab ▸ ha)⟩
  · by_cases heq : c' = c
    · subst heq
      have hnone : (Function.update s.written c' [] c').foldl read none = some x := hx
      rw [Function.update_self] at hnone
      exact absurd hnone nofun
    · have hmem : c' ∈ s.wsClients := by
        rcases List.mem_append.mp hc' with hc' | hc'
        · exact hc'
        · exact absurd (List.mem_singleton.mp hc') heq
      have hwritten : Function.update s.written c [] c' = s.written c' :=
        Function.update_of_ne heq ..
      have hold : (Function.update s.written c [] c').foldl read none = some x := hx
      rw [hwritten] at hold
      have hhandler := s.handlers_goTo_of_ne .reading heq
      exact (h.tracks c' hmem x hold).congr rfl hhandler (due_congr hhandler rfl) le_rfl rfl

theorem Inv.disconnect (h : s.Inv) (c : ℕ) : (s.disconnect c).Inv := by
  refine ⟨h.clients.filter _, h.log, h.bound, fun c' hc' x hx => ?_⟩
  obtain ⟨hmem, hne⟩ := List.mem_filter.mp hc'
  have hlookup : (pop c s.wsSubscriptions).lookup c' = s.wsSubscriptions.lookup c' := by
    rw [lookup_pop, if_neg (of_decide_eq_true hne)]
  exact (h.tracks c' hmem x hx).congr hlookup rfl (due_congr rfl rfl) le_rfl rfl

theorem Inv.subscribe (h : s.Inv) {team : Str} {lastEventId : ℤ}
    (hok : Act.Apart (.subscribe c team lastEventId) s) : (s.subscribe c team lastEventId).Inv := by
  refine ⟨h.clients, h.log, h.bound, fun c' hc' x hx => ?_⟩
  have hwrite : (s.write c (.subscribed team lastEventId)).session c' = some x := hx
  have hlookup := lookup_setItem c c' team s.wsSubscriptions
  by_cases heq : c' = c
  · subst heq
    rw [session_write] at hwrite
    obtain rfl : (⟨team, lastEventId, []⟩ : Session) = x := by
      rcases s.session c' with - | y <;> exact Option.some.inj hwrite
    have hhandler : (s.subscribe c' team lastEventId).handlers c' =
        .subscribing team lastEventId := handlers_goTo ..
    have hmissed : (s.subscribe c' team lastEventId).missed c' = [] := by
      rw [missed, hhandler]
    -- No task has an event that the new subscription wants.
    have hdue : (s.subscribe c' team lastEventId).due c' ⟨team, lastEventId, []⟩ = [] := by
      rw [due, hmissed]
      refine List.filter_eq_nil_iff.mpr fun e he hw => ?_
      obtain ⟨⟨c, e⟩, hp, rfl⟩ := List.mem_map.mp he
      obtain ⟨hp, hc⟩ := List.mem_filter.mp hp
      obtain rfl := of_decide_eq_true hc
      obtain ⟨hteam, hlast⟩ := of_decide_eq_true hw
      exact hok e hp hteam hlast
    rw [if_pos rfl] at hlookup
    refine ⟨hlookup, fun t k hs => ?_, fun _ => hdue, fun hnot => ?_⟩
    · rw [hhandler] at hs
      obtain ⟨rfl, rfl⟩ := Handler.subscribing.inj hs
      exact ⟨rfl, rfl⟩
    · exact absurd ⟨team, lastEventId, hhandler⟩ hnot
  · rw [session_write_of_ne s _ heq] at hwrite
    rw [if_neg heq] at hlookup
    have hhandler := (s.write c (.subscribed team lastEventId)).handlers_goTo_of_ne
      (.subscribing team lastEventId) heq
    exact (h.tracks c' hc' x hwrite).congr hlookup hhandler (due_congr hhandler rfl) le_rfl rfl

/-! ### The replay -/

theorem Flows.tracks (h : s.Flows x (s.due c x))
    (hsub : s.wsSubscriptions.lookup c = some x.team)
    (hnot : ∀ t k, s.handlers c ≠ .subscribing t k) : s.Tracks c x where
  subscription := hsub
  asked t k hs := absurd hs (hnot t k)
  waits := fun ⟨t, k, hs⟩ => absurd hs (hnot t k)
  flows _ := h

theorem exists_got (h : (s.write c (.event e)).session c = some x) :
    ∃ y, s.session c = some y ∧ y.got e = x := by
  rw [session_write] at h
  rcases hy : s.session c with - | y
  · rw [hy] at h
    exact absurd h nofun
  · rw [hy] at h
    exact ⟨y, rfl, Option.some.inj h⟩

theorem Inv.replay (h : s.Inv) {events : List Event}
    (hflows : ∀ x, s.session c = some x → s.wsSubscriptions.lookup c = some x.team ∧
      s.Flows x ((x.events ++ events ++ s.pending c).filter x.Wants)) :
    (s.replay c events).Inv := by
  cases events with
  | nil =>
    refine ⟨h.clients, h.log, h.bound, fun c' hc' x hx => ?_⟩
    by_cases heq : c' = c
    · subst heq
      have hhandler : (s.replay c' []).handlers c' = .reading := handlers_goTo ..
      obtain ⟨hsub, hflow⟩ := hflows x hx
      refine Flows.tracks ?_ hsub fun t k hs => ?_
      · rw [due, missed, hhandler]
        exact hflow.mono le_rfl rfl
      · rw [hhandler] at hs
        exact absurd hs nofun
    · have hhandler := s.handlers_goTo_of_ne .reading heq
      exact (h.tracks c' hc' x hx).congr rfl hhandler (due_congr hhandler rfl) le_rfl rfl
  | cons e events =>
    refine ⟨h.clients, h.log, h.bound, fun c' hc' x hx => ?_⟩
    have hwrite : (s.write c (.event e)).session c' = some x := hx
    by_cases heq : c' = c
    · subst heq
      have hhandler : (s.replay c' (e :: events)).handlers c' = .replaying events :=
        handlers_goTo ..
      obtain ⟨y, hy, rfl⟩ := exists_got hwrite
      obtain ⟨hsub, hflow⟩ := hflows y hy
      refine Flows.tracks ?_ hsub fun t k hs => ?_
      · have hsame : (s.replay c' (e :: events)).due c' (y.got e) =
            (y.events ++ e :: events ++ s.pending c').filter y.Wants := by
          rw [due, missed, hhandler, Session.got, List.append_assoc y.events]
          rfl
        rw [hsame]
        exact ⟨hflow.order, hflow.bound, hflow.all⟩
      · rw [hhandler] at hs
        exact absurd hs nofun
    · rw [session_write_of_ne s _ heq] at hwrite
      have hhandler := (s.write c (.event e)).handlers_goTo_of_ne (.replaying events) heq
      exact (h.tracks c' hc' x hwrite).congr rfl hhandler (due_congr hhandler rfl) le_rfl rfl

theorem mem_eventsSince (he : e ∈ s.eventLog) (hw : x.Wants e) :
    e ∈ s.eventsSince x.lastEventId x.team := by
  rw [eventsSince]
  split_ifs
  · exact List.mem_filter.mpr ⟨he, decide_eq_true hw.1⟩
  · exact List.mem_filter.mpr ⟨he, decide_eq_true ⟨hw.2, hw.1⟩⟩

theorem eventsSince_sublist (s : DaemonServer) (lastId : ℤ) (team : Str) :
    (s.eventsSince lastId team).Sublist s.eventLog := by
  rw [eventsSince]
  split_ifs <;> exact List.filter_sublist

theorem Inv.resume (h : s.Inv) (hc : c ∈ s.wsClients) (hkept : Act.Kept (.resume c) s) :
    (s.resume c).Inv := by
  rw [DaemonServer.resume]
  split
  · exact h
  · rename_i team lastEventId hhandler
    refine h.replay fun x hx => ?_
    have ht := h.tracks c hc x hx
    obtain ⟨rfl, rfl⟩ := ht.asked _ _ hhandler
    have hmissed : s.missed c = [] := by rw [missed, hhandler]
    -- Nothing wanted has been written or is about to be, so the flow is the ring buffer's.
    have hflow : (x.events ++ s.eventsSince x.lastEventId x.team ++ s.pending c).filter x.Wants =
        (s.eventsSince x.lastEventId x.team).filter x.Wants := by
      have hnil := ht.waits ⟨_, _, hhandler⟩
      rw [due, hmissed, List.append_nil, List.filter_append, List.append_eq_nil_iff] at hnil
      rw [List.filter_append, List.filter_append, hnil.1, hnil.2, List.nil_append,
        List.append_nil]
    have hsub := (List.filter_sublist (p := fun e => decide (x.Wants e))).trans
      (s.eventsSince_sublist x.lastEventId x.team)
    rw [hflow]
    refine ⟨ht.subscription, h.log.sublist hsub, fun e he => h.bound e (hsub.subset he), ?_⟩
    intro e he hw
    have hlog := hkept _ _ hhandler e he hw.1 hw.2
    exact List.mem_filter.mpr ⟨mem_eventsSince hlog hw, decide_eq_true hw⟩
  · rename_i events hhandler
    refine h.replay fun x hx => ?_
    have ht := h.tracks c hc x hx
    have hmissed : s.missed c = events := by rw [missed, hhandler]
    have hnot : ¬ s.Subscribing c := by
      rintro ⟨t, k, hs⟩
      rw [hhandler] at hs
      exact absurd hs nofun
    have hflow := ht.flows hnot
    rw [due, hmissed] at hflow
    exact ⟨ht.subscription, hflow⟩

/-! ### The tasks -/

theorem pending_of_sends {sends : List (ℕ × Event)} (hsends : s.sends = (c, e) :: sends) (c' : ℕ) :
    s.pending c' = (if c = c' then [e] else []) ++
      (sends.filter fun p => p.1 = c').map Prod.snd := by
  rw [pending, hsends, List.filter_cons]
  by_cases hc : c = c'
  · rw [if_pos hc, if_pos (decide_eq_true hc)]
    rfl
  · rw [if_neg hc, if_neg fun h => hc (of_decide_eq_true h)]
    rfl

theorem Inv.send (h : s.Inv) (hok : Act.Apart .send s) : s.send.Inv := by
  rw [DaemonServer.send]
  split
  · exact h
  · rename_i c e sends hsends
    have hpending := s.pending_of_sends hsends
    split_ifs with hc
    · refine ⟨h.clients, h.log, h.bound, fun c' hc' x hx => ?_⟩
      have hwrite : (s.write c (.event e)).session c' = some x := hx
      by_cases heq : c' = c
      · subst heq
        obtain ⟨y, hy, rfl⟩ := exists_got hwrite
        have ht := h.tracks c' hc y hy
        have hdue : DaemonServer.due { s.write c' (.event e) with sends } c' (y.got e) =
            s.due c' y := by
          have hgot : DaemonServer.due { s.write c' (.event e) with sends } c' (y.got e) =
              (y.events ++ [e] ++ s.missed c' ++
                (sends.filter fun p => p.1 = c').map Prod.snd).filter y.Wants := rfl
          rw [hgot, due, hpending c', if_pos rfl]
          by_cases hw : y.Wants e
          · -- Nothing is left to replay before a wanted event.
            have hmissed : s.missed c' = [] := by
              rw [missed]
              split
              · rename_i hs
                exact hok c' e (by rw [hsends, List.head?_cons]) y hy hw _ hs
              · rfl
            rw [hmissed, List.append_nil, List.append_nil, List.append_assoc]
          · simp [List.filter_append, hw]
        refine ⟨ht.subscription, ht.asked, fun hs => hdue.trans (ht.waits hs), fun hnot => ?_⟩
        have hflow := ht.flows hnot
        rw [hdue]
        exact ⟨hflow.order, hflow.bound, hflow.all⟩
      · rw [session_write_of_ne s _ heq] at hwrite
        refine (h.tracks c' hc' x hwrite).congr rfl rfl ?_ le_rfl rfl
        rw [due, due, hpending c', if_neg (Ne.symm heq)]
        rfl
    · refine ⟨h.clients, h.log, h.bound, fun c' hc' x hx => ?_⟩
      have heq : c ≠ c' := by
        rintro rfl
        exact hc hc'
      refine (h.tracks c' hc' x hx).congr rfl rfl ?_ le_rfl rfl
      rw [due, due, hpending c', if_neg heq]
      rfl

/-! ### Runs -/

theorem Inv.act (a : Act) (h : s.Inv) (hok : a.Kept s ∧ a.Apart s) : (act a s).2.Inv := by
  obtain ⟨hkept, hapart⟩ := hok
  cases a with
  | connect c => exact h.connect c
  | subscribe c team lastEventId =>
    rw [TeamEvents.act]
    split
    · split_ifs
      · exact h.subscribe hapart
      · exact h
    · exact h
  | resume c =>
    rw [TeamEvents.act]
    split_ifs with hc
    · exact h.resume hc hkept
    · exact h
  | broadcast type data team => exact h.broadcast hapart
  | mirror data team => exact h.mirror _ data team
  | send => exact h.send hapart
  | disconnect c => exact h.disconnect c

theorem inv_start : DaemonServer.Inv {} where
  clients := List.nodup_nil
  log := List.Pairwise.nil
  bound := nofun
  tracks := nofun

end DaemonServer

/-- Where the ring buffer has what a client needs, and replays and live events keep apart, every
client gets the events of its team after the last one it has seen exactly once and in order. -/
theorem lawful_of_apart (acts : List Act)
    (hkept : Machine.Along act Act.Kept acts {}) (hapart : Machine.Along act Act.Apart acts {}) :
    (Machine.run act acts {}).2.Lawful :=
  (Machine.run_invariant (fun a _ => DaemonServer.Inv.act a) acts DaemonServer.inv_start
    (Machine.along_and.mpr ⟨hkept, hapart⟩)).lawful

/-! ### Examples -/

/-- An event of the team `ops`. -/
def created : Act := .broadcast "task.created" {} (some "ops")

/-- While a client catches up with two events, a third one is broadcast. -/
def overtaking : List Act :=
  [created, created, .connect 0, .subscribe 0 "ops" 0, .resume 0, created, .send, .resume 0]

/-- A live event is written before the replay has ended. -/
theorem not_caughtUp : ¬ ∀ acts : List Act, Machine.Along act Act.Kept acts {} →
    (Machine.run act acts {}).2.Lawful := by
  intro h
  have hkept : Machine.Along act Act.Kept overtaking {} := by
    refine ⟨trivial, trivial, trivial, trivial, ?_, trivial, trivial, ?_, trivial⟩
    · exact fun _ _ _ e he _ _ => he
    · exact fun _ _ hs => absurd hs nofun
  have horder := (h overtaking hkept 0 (by decide) _ rfl).order
  exact absurd horder (by decide)

/-- A client that has caught up gets a live event. -/
def caughtUp : List Act :=
  [created, .connect 0, .subscribe 0 "ops" 0, .resume 0, .resume 0, created, .send]

theorem caughtUp_lawful : (Machine.run act caughtUp {}).2.Lawful := by
  refine lawful_of_apart caughtUp ?_ ?_
  · refine ⟨trivial, trivial, trivial, ?_, ?_, trivial, trivial, trivial⟩
    · exact fun _ _ _ e he _ _ => he
    · exact fun _ _ hs => absurd hs nofun
  · refine ⟨nofun, trivial, nofun, trivial, trivial, ?_, ?_, trivial⟩
    · intro c hc x hx _
      obtain rfl := List.mem_singleton.mp hc
      obtain rfl := Option.some.inj hx
      exact iff_of_true rfl fun _ _ => nofun
    · intro c e he x _ _ events hs
      obtain ⟨rfl, rfl⟩ := Prod.mk.inj (Option.some.inj he)
      exact absurd hs nofun

end AgentStudio.TeamEvents

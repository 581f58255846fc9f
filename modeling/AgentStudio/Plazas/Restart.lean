import AgentStudio.Plazas.Plaza
import Mathlib.Data.List.Pairwise

/-!
# A new plaza over the same store

Building a new plaza of `agent_runtime/plaza.py` over the store of an old one should give the old
one back: `Agrees` says so for the channels, for the messages of each channel that lives, and for
the channels that do not, which should have none.

A message can be lost, because the store ignores one whose hash it has, while the cache keeps it:
the hash covers channel, sender, content and round, and the rounds of a channel begin again when a
human breaks in. Messages can come back, because `delete_channel` leaves the rows of the messages.
`Sound` rules out both, and messages that are not later than the ones stored before them.

`Mirrored` is the invariant: the store mirrors the cache. A sound operation keeps it
(`step_mirrored`), and a mirrored plaza agrees with its reload (`agrees_of_mirrored`), so every
run of sound operations ends in a plaza that does (`restart_agrees`).
-/

namespace AgentStudio.Plazas

open PyText PyDict

/-! ### The condition -/

variable (o : Outside)

def posted (s : State) : Op → Option Message
  | .createChannel _ _ | .deleteChannel _ => none
  | .broadcast channel sender content mentions =>
    ((s.plaza.channels.lookup channel).filter (!·.isSuspended)).map fun ch =>
      broadcastMessage o ch sender content mentions s.used
  | .designateSpeaker channel agentId =>
    ((s.plaza.channels.lookup channel).filter (!·.isSuspended)).map fun ch =>
      designateMessage o ch agentId s.used
  | .humanBreakIn channel content =>
    (s.plaza.channels.lookup channel).map fun ch => breakInMessage o ch content s.used

/-- The message is later than those of its channel that are stored. -/
def Timely (s : State) (m : Message) : Prop :=
  ∀ r ∈ s.store.messages, r.channel = m.channel → r.ts < m.timestamp

instance (s : State) (m : Message) : Decidable (Timely s m) :=
  inferInstanceAs (Decidable (∀ _ ∈ _, _ → _))

/-- The operation posts only a message that the store takes, and that is later than those of its
channel; it deletes only a channel of which no message is stored. -/
structure Sound (op : Op) (s : State) : Prop where
  taken : ∀ m ∈ posted o s op, s.store.Accepts (m.row o)
  timely : ∀ m ∈ posted o s op, Timely s m
  cleared : ∀ name, op = .deleteChannel name → ∀ r ∈ s.store.messages, r.channel ≠ name

/-! ### The property -/

/-- A plaza that is built from the store of another one agrees with it. -/
structure Agrees (p q : Plaza) : Prop where
  channels : ∀ name, (q.channels.lookup name).map (fun ch => (ch.name, ch.row)) =
    (p.channels.lookup name).map fun ch => (ch.name, ch.row)
  live : ∀ name, p.channels.lookup name ≠ none → q.getMessages name = p.getMessages name
  deleted : ∀ name, p.channels.lookup name = none → q.getMessages name = []

/-! ### Reading the store -/

/-- The rows of the messages of a channel, in the order in which they were stored. -/
def Store.stored (st : Store) (name : Str) : List MessageRow :=
  st.messages.filter (·.channel = name)

structure Mirrored (s : State) : Prop where
  keyed : ∀ name ch, s.plaza.channels.lookup name = some ch → ch.name = name
  rows : ∀ name, s.store.channels.lookup name = (s.plaza.channels.lookup name).map Channel.row
  log : ∀ name, (s.store.stored name).map MessageRow.message = s.plaza.getMessages name
  empty : ∀ name, s.plaza.channels.lookup name = none → s.plaza.getMessages name = []
  times : s.store.messages.Pairwise fun a b => a.channel = b.channel → a.ts < b.ts
  solid : ∀ r ∈ s.store.messages, r.messageId ≠ [] ∧ r.ts ≠ 0

section Load

variable {scan : List MessageRow → List MessageRow} {maxRounds : ℤ} {n : ℕ} {st : Store}

@[simp] theorem getMessages_append (p : Plaza) (channel name : Str) (m : Message) :
    (p.append channel m).getMessages name =
      if name = channel then p.getMessages channel ++ [m] else p.getMessages name := by
  rw [Plaza.append, Plaza.getMessages, lookup_setItem]
  split_ifs with h
  · rfl
  · rfl

private theorem foldl_append (rows : List MessageRow) (f : MessageRow → Message) (p : Plaza) :
    (rows.foldl (fun p r => p.append r.channel (f r)) p).channels = p.channels ∧
      ∀ name, (rows.foldl (fun p r => p.append r.channel (f r)) p).getMessages name =
        p.getMessages name ++ (rows.filter (·.channel = name)).map f := by
  induction rows generalizing p with
  | nil => exact ⟨rfl, fun name => (List.append_nil _).symm⟩
  | cons r rows ih =>
    obtain ⟨hchannels, hmessages⟩ := ih (p.append r.channel (f r))
    refine ⟨hchannels, fun name => ?_⟩
    rw [List.foldl_cons, hmessages, getMessages_append, List.filter_cons]
    by_cases h : r.channel = name
    · subst h
      simp
    · rw [if_neg (Ne.symm h), if_neg (by simpa using h)]

private theorem lookup_map_row {α β : Type} (f : Str → α → β) (rows : List (Str × α))
    (name : Str) :
    (rows.map fun r => (r.1, f r.1 r.2)).lookup name = (rows.lookup name).map (f name) := by
  induction rows with
  | nil => rfl
  | cons r rows ih =>
    obtain ⟨key, a⟩ := r
    by_cases h : name = key
    · subst h
      simp
    · rw [List.map_cons, List.lookup_cons, List.lookup_cons, beq_false_of_ne h]
      exact ih

theorem lookup_channels_load (name : Str) :
    (load o scan maxRounds n st).channels.lookup name =
      (st.channels.lookup name).map (ChannelRow.channel name) := by
  rw [load, (foldl_append _ _ _).1]
  exact lookup_map_row (fun name row => row.channel name) st.channels name

theorem getMessages_load (name : Str) :
    (load o scan maxRounds n st).getMessages name =
      ((st.loadAllPlazaMessages scan).filter (·.channel = name)).map
        fun r => r.message.postInit o n := by
  rw [load, (foldl_append _ _ _).2]
  have hfresh : ((st.channels.map fun r => (r.1, ([] : List Message))).lookup name).getD [] =
      [] := by
    rw [lookup_map_row (fun _ _ => ([] : List Message)) st.channels name]
    cases st.channels.lookup name <;> rfl
  rw [Plaza.getMessages, hfresh, List.nil_append]

/-- The rows of a channel are loaded in the order in which they were stored, if their times
increase. -/
theorem filter_loadAllPlazaMessages (hscan : ∀ rows, (scan rows).Perm rows)
    (htimes : st.messages.Pairwise fun a b => a.channel = b.channel → a.ts < b.ts) (name : Str) :
    (st.loadAllPlazaMessages scan).filter (·.channel = name) = st.stored name := by
  have hstored : (st.stored name).Pairwise fun a b => a.ts < b.ts := by
    have hfilter := htimes.filter (fun r => decide (r.channel = name))
    refine hfilter.imp_of_mem fun {a b} ha hb h => h ?_
    have ha' : a.channel = name := by simpa using (List.mem_filter.mp ha).2
    have hb' : b.channel = name := by simpa using (List.mem_filter.mp hb).2
    rw [ha', hb']
  have hsorted : ((st.loadAllPlazaMessages scan).filter (·.channel = name)).Pairwise ByTs :=
    (List.pairwise_insertionSort ByTs (scan st.messages)).filter _
  have hperm : ((st.loadAllPlazaMessages scan).filter (·.channel = name)).Perm
      (st.stored name) :=
    ((List.perm_insertionSort ByTs _).trans (hscan _)).filter _
  refine List.Perm.eq_of_pairwise (fun a b ha hb hab hba => ?_) hsorted
    (hstored.imp fun h => le_of_lt h) hperm
  -- rows of one channel with the same time are the same row
  by_contra hne
  have hsymm : Std.Symm fun a b : MessageRow => a.ts ≠ b.ts := ⟨fun _ _ h => Ne.symm h⟩
  have hdistinct : (st.stored name).Pairwise fun a b => a.ts ≠ b.ts := hstored.imp ne_of_lt
  exact hdistinct.forall (hperm.mem_iff.mp ha) hb hne (le_antisymm hab hba)

/-- **A mirrored plaza agrees with its reload**, in whatever order the database scans rows. -/
theorem agrees_of_mirrored {s : State} (hs : Mirrored s) (hscan : ∀ rows, (scan rows).Perm rows) :
    Agrees s.plaza (load o scan maxRounds n s.store) := by
  have hlog : ∀ name, (load o scan maxRounds n s.store).getMessages name =
      s.plaza.getMessages name := by
    intro name
    rw [getMessages_load, filter_loadAllPlazaMessages hscan hs.times, ← hs.log]
    refine List.map_congr_left fun r hr => ?_
    -- neither the id nor the time of a row is empty
    obtain ⟨hid, hts⟩ := hs.solid r (List.mem_of_mem_filter hr)
    have hid' : r.message.id ≠ [] := hid
    have hts' : r.message.timestamp ≠ 0 := hts
    rw [Message.postInit, if_neg hid', if_neg hts']
  refine ⟨fun name => ?_, fun name _ => hlog name, fun name h => (hlog name).trans ?_⟩
  · rw [lookup_channels_load, hs.rows]
    cases hch : s.plaza.channels.lookup name with
    | none => rfl
    | some ch => exact congrArg some (Prod.ext (hs.keyed name ch hch).symm rfl)
  · exact hs.empty name h

end Load

/-! ### One operation -/

section Step

variable {s t : State} {ch : Channel} {m : Message}

private theorem mirrored_update (hs : Mirrored s)
    (hchannels : t.plaza.channels = setItem ch.name ch s.plaza.channels)
    (hrows : t.store.channels = setItem ch.name ch.row s.store.channels)
    (hlog : ∀ name, (t.store.stored name).map MessageRow.message = t.plaza.getMessages name)
    (hothers : ∀ name, name ≠ ch.name → t.plaza.getMessages name = s.plaza.getMessages name)
    (htimes : t.store.messages.Pairwise fun a b => a.channel = b.channel → a.ts < b.ts)
    (hsolid : ∀ r ∈ t.store.messages, r.messageId ≠ [] ∧ r.ts ≠ 0) : Mirrored t := by
  refine ⟨fun name ch' h => ?_, fun name => ?_, hlog, fun name h => ?_, htimes, hsolid⟩
  · rw [hchannels, lookup_setItem] at h
    split_ifs at h with hname
    · rw [← Option.some.inj h, hname]
    · exact hs.keyed name ch' h
  · rw [hchannels, hrows, lookup_setItem, lookup_setItem]
    split_ifs
    · rfl
    · exact hs.rows name
  · rw [hchannels, lookup_setItem] at h
    split_ifs at h with hname
    exact (hothers name hname).trans (hs.empty name h)

theorem stored_concat (st : Store) (r : MessageRow) (name : Str) :
    ({ st with messages := st.messages ++ [r] } : Store).stored name =
      st.stored name ++ if r.channel = name then [r] else [] := by
  rw [Store.stored, List.filter_append, Store.stored]
  by_cases h : r.channel = name <;> simp [h]

theorem mirrored_post (hs : Mirrored s) (hname : m.channel = ch.name) (hid : m.id ≠ [])
    (hts : m.timestamp ≠ 0) (htaken : s.store.Accepts (m.row o)) (htimely : Timely s m) :
    Mirrored (s.post o ch m) := by
  have hmessages : (s.post o ch m).store.messages = s.store.messages ++ [m.row o] := by
    simp [State.post, State.persistChannel, State.persistMessage, Store.savePlazaChannel,
      Store.savePlazaMessage, htaken]
  have hget : ∀ name, (s.post o ch m).plaza.getMessages name =
      if name = ch.name then s.plaza.getMessages ch.name ++ [m] else s.plaza.getMessages name :=
    fun name => getMessages_append (s.plaza.setChannel ch) ch.name name m
  refine @mirrored_update s _ ch hs rfl ?_ (fun name => ?_) (fun name hne => ?_) ?_ ?_
  · simp only [State.post, State.persistChannel, State.persistMessage, Store.savePlazaChannel,
      Store.savePlazaMessage, htaken, if_true]
  · have hstored : (s.post o ch m).store.stored name =
        s.store.stored name ++ if m.channel = name then [m.row o] else [] := by
      rw [Store.stored, hmessages]
      exact stored_concat s.store (m.row o) name
    rw [hstored, hget, List.map_append, hs.log, hname]
    by_cases h : name = ch.name
    · subst h
      rw [if_pos rfl, if_pos rfl]
      rfl
    · rw [if_neg h, if_neg (Ne.symm h), List.map_nil, List.append_nil]
  · rw [hget, if_neg hne]
  · rw [hmessages]
    refine List.pairwise_append.mpr ⟨hs.times, List.pairwise_singleton _ _, fun a ha b hb hab => ?_⟩
    obtain rfl := List.mem_singleton.mp hb
    exact htimely a ha hab
  · rw [hmessages]
    intro r hr
    rcases mem_snoc.mp hr with hr | rfl
    · exact hs.solid r hr
    · exact ⟨hid, hts⟩

theorem mirrored_checkBreaker (hs : Mirrored s) : Mirrored (s.checkBreaker ch) := by
  rw [State.checkBreaker]
  split_ifs
  · exact @mirrored_update s _ { ch with isSuspended := true } hs rfl rfl hs.log
      (fun _ _ => rfl) hs.times hs.solid
  · exact hs

theorem mirrored_createChannel (hs : Mirrored s) (name : Str) (participants : List Str) :
    Mirrored (createChannel name participants s).2 := by
  rw [createChannel]
  cases hch : s.plaza.channels.lookup name with
  | some ch => exact hs
  | none =>
    have hget : ∀ name', (({ s.plaza with messages := setItem name [] s.plaza.messages } :
        Plaza).getMessages name') = s.plaza.getMessages name' := by
      intro name'
      rw [Plaza.getMessages, lookup_setItem]
      split_ifs with h
      · rw [h, hs.empty name hch]
        rfl
      · rfl
    exact @mirrored_update s _ ⟨name, participants, s.plaza.maxRounds, 0, [], false⟩ hs rfl rfl
      (fun name' => (hs.log name').trans (hget name').symm) (fun name' _ => hget name') hs.times
      hs.solid

theorem mirrored_deleteChannel (hs : Mirrored s) {name : Str}
    (hcleared : ∀ r ∈ s.store.messages, r.channel ≠ name) :
    Mirrored (deleteChannel name s).2 := by
  rw [deleteChannel]
  cases hch : s.plaza.channels.lookup name with
  | none => exact hs
  | some ch =>
    have hnone : s.plaza.getMessages name = [] := by
      rw [← hs.log, Store.stored, List.filter_eq_nil_iff.mpr fun r hr => by
        simpa using hcleared r hr, List.map_nil]
    have hget : ∀ name', (({ s.plaza with
          channels := pop name s.plaza.channels
          messages := pop name s.plaza.messages } : Plaza).getMessages name') =
        s.plaza.getMessages name' := by
      intro name'
      rw [Plaza.getMessages, lookup_pop]
      split_ifs with h
      · rw [h, hnone]
        rfl
      · rfl
    refine ⟨fun name' ch' h => ?_, fun name' => ?_, fun name' => (hs.log name').trans
      (hget name').symm, fun name' h => (hget name').trans ?_, hs.times, hs.solid⟩
    · rw [lookup_pop] at h
      split_ifs at h
      exact hs.keyed name' ch' h
    · rw [Store.deletePlazaChannel, lookup_pop, lookup_pop]
      split_ifs
      · rfl
      · exact hs.rows name'
    · rw [lookup_pop] at h
      split_ifs at h with hname
      · rw [hname, hnone]
      · exact hs.empty name' h

theorem postInit_solid (n : ℕ) (m : Message) :
    (m.postInit o n).id ≠ [] ∧ (m.postInit o n).timestamp ≠ 0 := by
  rw [Message.postInit]
  constructor
  · dsimp only
    split_ifs with h
    · exact o.draw_ne_nil n
    · exact h
  · dsimp only
    split_ifs with h
    · exact (o.clock_pos n).ne'
    · exact h

theorem step_of_posted {op : Op} (h : posted o s op = some m) :
    (m.id ≠ [] ∧ m.timestamp ≠ 0) ∧ ∃ ch : Channel, m.channel = ch.name ∧
      ((step o op s).2 = s.post o ch m ∨ (step o op s).2 = (s.post o ch m).checkBreaker ch) := by
  cases op with
  | createChannel | deleteChannel => cases h
  | broadcast channel sender content mentions =>
    obtain ⟨ch, hch, rfl⟩ := Option.map_eq_some_iff.mp h
    obtain ⟨hch, hsuspended⟩ := Option.filter_eq_some_iff.mp hch
    refine ⟨postInit_solid o _ _,
      ch.nextRound (broadcastMessage o ch sender content mentions s.used), rfl, .inr ?_⟩
    simp only [step, broadcast, hch]
    rw [if_neg (by simpa using hsuspended)]
    rfl
  | designateSpeaker channel agentId =>
    obtain ⟨ch, hch, rfl⟩ := Option.map_eq_some_iff.mp h
    obtain ⟨hch, hsuspended⟩ := Option.filter_eq_some_iff.mp hch
    refine ⟨postInit_solid o _ _, ch.nextRound (designateMessage o ch agentId s.used), rfl,
      .inr ?_⟩
    simp only [step, designateSpeaker, hch]
    rw [if_neg (by simpa using hsuspended)]
    rfl
  | humanBreakIn channel content =>
    obtain ⟨ch, hch, rfl⟩ := Option.map_eq_some_iff.mp h
    refine ⟨postInit_solid o _ _, ch.reopened, rfl, .inl ?_⟩
    simp only [step, humanBreakIn, hch]

theorem step_of_not_posted {op : Op} (h : posted o s op = none)
    (hcreate : ∀ name participants, op ≠ .createChannel name participants)
    (hdelete : ∀ name, op ≠ .deleteChannel name) : (step o op s).2 = s := by
  cases op with
  | createChannel name participants => exact absurd rfl (hcreate name participants)
  | deleteChannel name => exact absurd rfl (hdelete name)
  | broadcast channel sender content mentions =>
    simp only [step, broadcast]
    cases hch : s.plaza.channels.lookup channel with
    | none => rfl
    | some ch =>
      have hsuspended : ch.isSuspended = true := by simpa [posted, hch] using h
      simp only [hsuspended, if_true]
  | designateSpeaker channel agentId =>
    simp only [step, designateSpeaker]
    cases hch : s.plaza.channels.lookup channel with
    | none => rfl
    | some ch =>
      have hsuspended : ch.isSuspended = true := by simpa [posted, hch] using h
      simp only [hsuspended, if_true]
  | humanBreakIn channel content =>
    simp only [step, humanBreakIn]
    cases hch : s.plaza.channels.lookup channel with
    | none => rfl
    | some ch => simp [posted, hch] at h

/-- **One operation.** A sound operation keeps the store a mirror of the cache. -/
theorem step_mirrored {op : Op} (hs : Mirrored s) (hop : Sound o op s) :
    Mirrored (step o op s).2 := by
  by_cases hcreate : ∃ name participants, op = .createChannel name participants
  · obtain ⟨name, participants, rfl⟩ := hcreate
    exact mirrored_createChannel hs name participants
  by_cases hdelete : ∃ name, op = .deleteChannel name
  · obtain ⟨name, rfl⟩ := hdelete
    exact mirrored_deleteChannel hs (hop.cleared name rfl)
  cases hm : posted o s op with
  | none =>
    rw [step_of_not_posted o hm (fun name participants h => hcreate ⟨name, participants, h⟩)
      fun name h => hdelete ⟨name, h⟩]
    exact hs
  | some m =>
    obtain ⟨⟨hid, hts⟩, ch, hname, h⟩ := step_of_posted o hm
    have hpost := mirrored_post o hs hname hid hts (hop.taken m hm) (hop.timely m hm)
    rcases h with h | h
    · rw [h]
      exact hpost
    · rw [h]
      exact mirrored_checkBreaker hpost

/-! ### What goes wrong otherwise -/

variable {scan : List MessageRow → List MessageRow}

end Step

/-! ### Runs -/

theorem mirrored_init (maxRounds : ℤ) : Mirrored (State.init maxRounds) where
  keyed _ _ h := by cases h
  rows _ := rfl
  log _ := rfl
  empty _ _ := rfl
  times := List.Pairwise.nil
  solid _ h := absurd h List.not_mem_nil

/-- **A restart gives the plaza back** after every run of sound operations, with any setting of
the rounds and in whatever order the database scans rows. -/
theorem restart_agrees (maxRounds maxRounds' : ℤ) {ops : List Op}
    (hops : Machine.Along (step o) (Sound o) ops (State.init maxRounds))
    {scan : List MessageRow → List MessageRow} (hscan : ∀ rows, (scan rows).Perm rows) (n : ℕ) :
    Agrees (reached o maxRounds ops).plaza
      (load o scan maxRounds' n (reached o maxRounds ops).store) :=
  agrees_of_mirrored o (Machine.run_invariant (I := Mirrored)
    (fun _ _ hs hop => step_mirrored o hs hop) ops (mirrored_init maxRounds) hops) hscan

/-! ### A human who breaks in twice -/

/-- A clock that ticks once a reading, ids of growing length, and a hash without collisions. -/
def quietOutside : Outside where
  clock n := n + 1
  draw n := List.replicate (n + 1) 'a'
  sha256 := id
  listSet := List.dedup
  isWord c := c.isAlphanum || c == '_'
  clock_pos n := by omega
  draw_ne_nil n := by simp
  isWord_at := rfl

/-- A channel of a new plaza, in which a human breaks in with the given texts. -/
def breakIns (contents : List Str) : List Op :=
  .createChannel ['c'] [] :: contents.map (.humanBreakIn ['c'])

/-- A message that repeats one of the same round is lost. -/
theorem not_restart_agrees : ¬ ∀ (o : Outside) (maxRounds maxRounds' : ℤ) (ops : List Op)
    (scan : List MessageRow → List MessageRow), (∀ rows, (scan rows).Perm rows) → ∀ n,
    Agrees (reached o maxRounds ops).plaza
      (load o scan maxRounds' n (reached o maxRounds ops).store) := by
  intro h
  have hagrees := h quietOutside 3 3 (breakIns [['x'], ['x']]) id (fun _ => .refl _) 0
  exact absurd (hagrees.live ['c'] (by decide)) (by decide)

/-- `restart_agrees` for a human who breaks in with two different texts. -/
theorem restart_agrees_breakIns :
    Agrees (reached quietOutside 3 (breakIns [['x'], ['y']])).plaza
      (load quietOutside id 3 0 (reached quietOutside 3 (breakIns [['x'], ['y']])).store) := by
  refine restart_agrees quietOutside 3 3 ?_ (fun _ => .refl _) 0
  simp only [breakIns, List.map_cons, List.map_nil, Machine.Along, and_true]
  refine ⟨⟨?_, ?_, ?_⟩, ⟨?_, ?_, ?_⟩, ⟨?_, ?_, ?_⟩⟩
  all_goals
    rintro _ ⟨⟩
  all_goals decide

end AgentStudio.Plazas

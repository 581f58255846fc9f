import AgentStudio.Plazas.Restart

/-!
# Delivery to subscribers

`subscribe`, `unsubscribe` and `_notify_subscribers` of `agent_runtime/plaza.py`. A `Hub` is a plaza
with its subscriptions; a callback is known by the id of its subscription, and a call of it by this
id and the message.

A message that is accepted should be delivered once to every subscriber that it mentions, and none
should be accepted by a suspended channel (`Delivered`). But the message that reaches the last round
trips the circuit breaker, and `broadcast` and `designate_speaker` notify only if it does not trip.
So a run delivers what it accepts if and only if no message of a last round mentions a subscriber
(`RoundsLeft`, `delivered_iff`).
-/

namespace AgentStudio.Plazas

open PyText PyDict

/-! ### Subscriptions -/

structure Subscription where
  channel : Str
  agentId : Str
deriving DecidableEq

/-- The channels stand under their names. -/
def Plaza.Keyed (p : Plaza) : Prop :=
  ∀ name ch, p.channels.lookup name = some ch → ch.name = name

/-- A plaza with its subscriptions by their ids. -/
structure Hub where
  state : State
  subscriptions : List (Str × Subscription)
  keyed : state.plaza.Keyed
  nodup : (subscriptions.map Prod.fst).Nodup

/-- What is called on a plaza; the id of a subscription is drawn. -/
inductive Input where
  | plaza (op : Op)
  | subscribe (channel agentId subId : Str)
  | unsubscribe (subId : Str)

inductive Answer where
  | reply (r : Reply)
  | subscribed (subId : Str)
  | unsubscribed (found : Bool)

/-- `_notify_subscribers`: the calls of callbacks. -/
def notifySubscribers (subscriptions : List (Str × Subscription)) (channel : Str) (m : Message) :
    List (Str × Message) :=
  (subscriptions.filter fun s =>
    s.2.channel = channel ∧ (s.2.agentId ∈ m.mentions ∨ m.sender = "human")).map
      fun s => (s.1, m)

/-- `_check_circuit_breaker_unlocked`. -/
def Plaza.checkCircuitBreaker (p : Plaza) (channel : Str) : Bool :=
  (p.channels.lookup channel).any fun ch => decide (ch.maxRounds ≤ ch.currentRound)

variable (o : Outside)

/-- The calls of callbacks in an operation, from its answer and the plaza after it. -/
def called (subscriptions : List (Str × Subscription)) (p : Plaza) :
    Op → Reply → List (Str × Message)
  | .broadcast channel _ _ _, .message m =>
    if p.checkCircuitBreaker channel then [] else notifySubscribers subscriptions channel m
  | .designateSpeaker channel _, .message m =>
    if p.checkCircuitBreaker channel then [] else notifySubscribers subscriptions channel m
  | .humanBreakIn channel _, .message m => notifySubscribers subscriptions channel m
  | _, _ => []

def remaining (subscriptions : List (Str × Subscription)) :
    Op → Reply → List (Str × Subscription)
  | .deleteChannel name, .deleted true => subscriptions.filter fun s => s.2.channel ≠ name
  | _, _ => subscriptions

/-! ### Names -/

theorem Plaza.Keyed.setChannel {p : Plaza} (h : p.Keyed) (ch : Channel) :
    (p.setChannel ch).Keyed := by
  intro name ch' hlookup
  rw [Plaza.setChannel, lookup_setItem] at hlookup
  split_ifs at hlookup with hname
  · obtain rfl := Option.some.inj hlookup
    exact hname.symm
  · exact h name ch' hlookup

theorem Plaza.Keyed.pop {p : Plaza} (h : p.Keyed) (name : Str)
    (messages : List (Str × List Message)) :
    Plaza.Keyed { p with channels := pop name p.channels, messages } := by
  intro name' ch hlookup
  rw [lookup_pop] at hlookup
  split_ifs at hlookup
  exact h name' ch hlookup

theorem keyed_post {s : State} (h : s.plaza.Keyed) (ch : Channel) (m : Message) :
    (s.post o ch m).plaza.Keyed :=
  h.setChannel ch

theorem keyed_round {s : State} (h : s.plaza.Keyed) (ch : Channel) (m : Message) :
    (s.round o ch m).plaza.Keyed := by
  rw [State.round, State.checkBreaker]
  split_ifs
  · exact (keyed_post o h _ m).setChannel _
  · exact keyed_post o h _ m

theorem keyed_step {s : State} (h : s.plaza.Keyed) (op : Op) : (step o op s).2.plaza.Keyed := by
  cases op with
  | createChannel name participants =>
    rw [step, createChannel]
    cases s.plaza.channels.lookup name with
    | some ch => exact h
    | none => exact h.setChannel _
  | deleteChannel name =>
    rw [step, deleteChannel]
    cases s.plaza.channels.lookup name with
    | some ch => exact h.pop name _
    | none => exact h
  | broadcast channel sender content mentions =>
    rw [step, broadcast]
    cases s.plaza.channels.lookup channel with
    | none => exact h
    | some ch =>
      dsimp only
      split_ifs
      · exact h
      · exact keyed_round o h ch _
  | designateSpeaker channel agentId =>
    rw [step, designateSpeaker]
    cases s.plaza.channels.lookup channel with
    | none => exact h
    | some ch =>
      dsimp only
      split_ifs
      · exact h
      · exact keyed_round o h ch _
  | humanBreakIn channel content =>
    rw [step, humanBreakIn]
    cases s.plaza.channels.lookup channel with
    | none => exact h
    | some ch => exact keyed_post o h _ _

variable {subscriptions : List (Str × Subscription)}

theorem nodup_remaining (h : (subscriptions.map Prod.fst).Nodup) (op : Op) (r : Reply) :
    ((remaining subscriptions op r).map Prod.fst).Nodup := by
  unfold remaining
  split
  · exact h.sublist (List.filter_sublist.map Prod.fst)
  · exact h

theorem nodup_unsubscribe (h : (subscriptions.map Prod.fst).Nodup) (subId : Str) :
    ((pop subId subscriptions).map Prod.fst).Nodup :=
  h.sublist (List.filter_sublist.map Prod.fst)

/-! ### Runs -/

/-- One call: its answer, and the callbacks that are called. -/
def Hub.step : Input → Hub → (Answer × List (Str × Message)) × Hub
  | .plaza op, h =>
    let r := Plazas.step o op h.state
    ((.reply r.1, called h.subscriptions r.2.plaza op r.1),
      ⟨r.2, remaining h.subscriptions op r.1, keyed_step o h.keyed op,
        nodup_remaining h.nodup op r.1⟩)
  | .subscribe channel agentId subId, h =>
    if (h.state.plaza.channels.lookup channel).isSome then
      ((.subscribed subId, []),
        ⟨h.state, setItem subId ⟨channel, agentId⟩ h.subscriptions, h.keyed,
          nodup_setItem h.nodup⟩)
    else ((.reply (.valueError (channelNotFound channel)), []), h)
  | .unsubscribe subId, h =>
    if (h.subscriptions.lookup subId).isSome then
      ((.unsubscribed true, []),
        ⟨h.state, pop subId h.subscriptions, h.keyed, nodup_unsubscribe h.nodup subId⟩)
    else ((.unsubscribed false, []), h)

/-- The channel to which an operation posts, unless it is that of a human who breaks in. -/
def Op.channel : Op → Option Str
  | .broadcast channel _ _ _ => some channel
  | .designateSpeaker channel _ => some channel
  | _ => none

/-- What a channel accepts is delivered once to every subscriber that it mentions, and a suspended
channel accepts nothing. -/
structure Delivered (i : Input) (h : Hub) : Prop where
  open_ : ∀ op channel m, i = .plaza op → op.channel = some channel →
    (Plazas.step o op h.state).1 = .message m →
      ∃ ch, h.state.plaza.channels.lookup channel = some ch ∧ ch.isSuspended = false
  delivered : ∀ op channel m, i = .plaza op → op.channel = some channel →
    (Plazas.step o op h.state).1 = .message m →
      ∀ s ∈ h.subscriptions, s.2.channel = channel → s.2.agentId ∈ m.mentions →
        (h.step o i).1.2.count (s.1, m) = 1

/-- A message mentions subscribers of its channel only if a round is left after its own. -/
def RoundsLeft (i : Input) (h : Hub) : Prop :=
  ∀ op channel ch m, i = .plaza op → op.channel = some channel →
    h.state.plaza.channels.lookup channel = some ch → posted o h.state op = some m →
      (∃ s ∈ h.subscriptions, s.2.channel = channel ∧ s.2.agentId ∈ m.mentions) →
        ((ch.currentRound + 1 : ℕ) : ℤ) < ch.maxRounds

/-! ### One call -/

variable {o}

theorem lookup_round {s : State} {ch : Channel} {m : Message} :
    ∃ ch', (s.round o ch m).plaza.channels.lookup ch.name = some ch' ∧
      ch'.maxRounds = ch.maxRounds ∧ ch'.currentRound = ch.currentRound + 1 := by
  rw [State.round, State.checkBreaker]
  split_ifs
  · refine ⟨{ ch.nextRound m with isSuspended := true }, ?_, rfl, rfl⟩
    exact (lookup_setItem _ _ _ _).trans (if_pos rfl)
  · refine ⟨ch.nextRound m, ?_, rfl, rfl⟩
    exact (lookup_setItem _ _ _ _).trans (if_pos rfl)

theorem checkCircuitBreaker_round {s : State} {ch : Channel} {m : Message} :
    (s.round o ch m).plaza.checkCircuitBreaker ch.name =
      decide (ch.maxRounds ≤ ((ch.currentRound + 1 : ℕ) : ℤ)) := by
  obtain ⟨ch', hlookup, hmax, hround⟩ := @lookup_round o s ch m
  rw [Plaza.checkCircuitBreaker, hlookup, Option.any_some, hmax, hround]

theorem reply_iff_posted {s : State} {op : Op} {channel : Str} {m : Message}
    (hop : op.channel = some channel) :
    (Plazas.step o op s).1 = .message m ↔ posted o s op = some m := by
  cases op with
  | broadcast c sender content mentions =>
    rw [Plazas.step, broadcast, posted]
    cases s.plaza.channels.lookup c with
    | none => simp
    | some ch => cases hsuspended : ch.isSuspended <;> simp [hsuspended]
  | designateSpeaker c agentId =>
    rw [Plazas.step, designateSpeaker, posted]
    cases s.plaza.channels.lookup c with
    | none => simp
    | some ch => cases hsuspended : ch.isSuspended <;> simp [hsuspended]
  | createChannel | deleteChannel | humanBreakIn => cases hop

/-- A message is posted to a channel that is not suspended, and the breaker is checked for the next
round. -/
theorem breaker_of_posted {s : State} (hs : s.plaza.Keyed) {op : Op} {channel : Str} {m : Message}
    (hop : op.channel = some channel) (hposted : posted o s op = some m) :
    ∃ ch, s.plaza.channels.lookup channel = some ch ∧ ch.isSuspended = false ∧
      (Plazas.step o op s).2.plaza.checkCircuitBreaker channel =
        decide (ch.maxRounds ≤ ((ch.currentRound + 1 : ℕ) : ℤ)) := by
  have hround {ch : Channel} (hch : s.plaza.channels.lookup channel = some ch) (m : Message) :
      (s.round o ch m).plaza.checkCircuitBreaker channel =
        decide (ch.maxRounds ≤ ((ch.currentRound + 1 : ℕ) : ℤ)) := by
    rw [← hs channel ch hch]
    exact checkCircuitBreaker_round
  cases op with
  | broadcast c sender content mentions =>
    obtain rfl := Option.some.inj hop
    rw [posted] at hposted
    rw [Plazas.step, broadcast]
    cases hch : s.plaza.channels.lookup c with
    | none => simp [hch] at hposted
    | some ch =>
      cases hsuspended : ch.isSuspended with
      | true => simp [hch, hsuspended] at hposted
      | false => exact ⟨ch, rfl, hsuspended, by simp [hsuspended, hround hch]⟩
  | designateSpeaker c agentId =>
    obtain rfl := Option.some.inj hop
    rw [posted] at hposted
    rw [Plazas.step, designateSpeaker]
    cases hch : s.plaza.channels.lookup c with
    | none => simp [hch] at hposted
    | some ch =>
      cases hsuspended : ch.isSuspended with
      | true => simp [hch, hsuspended] at hposted
      | false => exact ⟨ch, rfl, hsuspended, by simp [hsuspended, hround hch]⟩
  | createChannel | deleteChannel | humanBreakIn => cases hop

theorem called_of_channel {subscriptions : List (Str × Subscription)} {p : Plaza} {op : Op}
    {channel : Str} (m : Message) (hop : op.channel = some channel) :
    called subscriptions p op (.message m) =
      if p.checkCircuitBreaker channel then [] else notifySubscribers subscriptions channel m := by
  cases op with
  | broadcast | designateSpeaker =>
    obtain rfl := Option.some.inj hop
    rfl
  | createChannel | deleteChannel | humanBreakIn => cases hop

theorem count_notifySubscribers (hnodup : (subscriptions.map Prod.fst).Nodup) {channel : Str}
    {m : Message} {s : Str × Subscription} (hs : s ∈ subscriptions)
    (hchannel : s.2.channel = channel) (hmentioned : s.2.agentId ∈ m.mentions) :
    (notifySubscribers subscriptions channel m).count (s.1, m) = 1 := by
  refine List.count_eq_one_of_mem ?_ (List.mem_map.mpr ⟨s, List.mem_filter.mpr ⟨hs, ?_⟩, rfl⟩)
  · have hkeys : ((subscriptions.filter fun s => decide (s.2.channel = channel ∧
        (s.2.agentId ∈ m.mentions ∨ m.sender = "human"))).map Prod.fst).Nodup :=
      hnodup.sublist (List.filter_sublist.map Prod.fst)
    have hpairs := hkeys.map (f := fun subId => (subId, m)) fun a a' h => (Prod.mk.inj h).1
    rwa [List.map_map] at hpairs
  · simp [hchannel, hmentioned]

theorem delivered_step_iff (i : Input) (h : Hub) : Delivered o i h ↔ RoundsLeft o i h := by
  constructor
  · rintro hd op channel ch m rfl hop hch hposted ⟨s, hs, hchannel, hmentioned⟩
    have hreply := (reply_iff_posted hop).mpr hposted
    have hcount := hd.delivered op channel m rfl hop hreply s hs hchannel hmentioned
    obtain ⟨ch', hch', -, hbreaker⟩ := breaker_of_posted h.keyed hop hposted
    obtain rfl := Option.some.inj (hch'.symm.trans hch)
    by_contra htripped
    rw [Hub.step] at hcount
    dsimp only at hcount
    rw [hreply, called_of_channel m hop, hbreaker, if_pos (by simpa using htripped)] at hcount
    exact absurd hcount (by simp)
  · intro hrounds
    refine ⟨?_, ?_⟩
    · rintro op channel m rfl hop hreply
      obtain ⟨ch, hch, hopen, -⟩ :=
        breaker_of_posted h.keyed hop ((reply_iff_posted hop).mp hreply)
      exact ⟨ch, hch, hopen⟩
    · rintro op channel m rfl hop hreply s hs hchannel hmentioned
      have hposted := (reply_iff_posted hop).mp hreply
      obtain ⟨ch, hch, -, hbreaker⟩ := breaker_of_posted h.keyed hop hposted
      have hlt := hrounds op channel ch m rfl hop hch hposted ⟨s, hs, hchannel, hmentioned⟩
      rw [Hub.step]
      dsimp only
      rw [hreply, called_of_channel m hop, hbreaker, if_neg (by simpa using hlt)]
      exact count_notifySubscribers h.nodup hs hchannel hmentioned

/-- **Delivery.** In a run of a plaza, every message that a broadcast or a designation posts is
delivered once to every subscriber of its channel that it mentions, and no channel accepts a message
while it is suspended, if and only if a round is left after every message that mentions a
subscriber. -/
theorem delivered_iff (h : Hub) (is : List Input) :
    Machine.Along (Hub.step o) (Delivered o) is h ↔
      Machine.Along (Hub.step o) (RoundsLeft o) is h := by
  induction is generalizing h with
  | nil => rfl
  | cons i is ih => exact and_congr (delivered_step_iff i h) (ih _)

/-! ### The last round -/

def Hub.init (maxRounds : ℤ) : Hub where
  state := State.init maxRounds
  subscriptions := []
  keyed := fun _ _ h => by cases h
  nodup := List.nodup_nil

/-- In a plaza with one round, the only message that a channel accepts is not delivered. -/
theorem not_delivered : ¬ ∀ (o : Outside) (h : Hub) (is : List Input),
    Machine.Along (Hub.step o) (Delivered o) is h := by
  intro hall
  have hrun := hall quietOutside (Hub.init 1)
    [.plaza (.createChannel ['c'] [['a']]), .subscribe ['c'] ['a'] ['s'],
      .plaza (.designateSpeaker ['c'] ['a'])]
  have hrounds := (delivered_step_iff _ _).mp hrun.2.2.1
  have hlt := hrounds _ ['c'] _ _ rfl rfl rfl rfl
    ⟨(['s'], ⟨['c'], ['a']⟩), by decide, rfl, by decide⟩
  exact absurd hlt (by decide)

end AgentStudio.Plazas

import Mathlib.Data.List.Induction
import AgentStudio.Api.ManagedRun

/-!
# The streams of a managed run

Every reader of a managed run should send the frames after its `last_seq` in order and each of them
once, whatever the task, the other readers and a cancellation do, and its stream should end when the
run is done (`State.Lawful`). `Act.Regular` is the condition on a step under which this is so, and
`lawful_of_regular` makes a run of it: the invariants are `ManagedRun.Inv` of the run and
`Reader.Inv` of each reader, and a rank that every turn of a reader makes smaller ends its stream.
`sent_twice` is the run of a single reader that gets its first frame from the queue and from the
buffer.
-/

namespace AgentStudio.ManagedRuns

open PyText PyJson

variable {run run' : ManagedRun} {x : Reader} {f : Frame} {s : State} {r : ℕ}

/-! ### The frames of a run -/

/-- What is kept about the frames of a run: they are numbered by their positions, the buffer is
their end, and the queue has none of its own. -/
structure ManagedRun.Inv (run : ManagedRun) : Prop where
  seq : ∀ (i : ℕ) (f : Frame), run.published[i]? = some f → f.seq = i
  nextSeq : run.nextSeq = run.published.length
  buffer : run.buffer <:+ run.published
  short : run.buffer.length ≤ maxBuffer
  queue : ∀ f ∈ run.queue, f ∈ run.published

theorem ManagedRun.Inv.publish (h : run.Inv) (type : FrameType) (fields : List (Str × Json)) :
    (run.publish type fields).Inv where
  seq i f hf := by
    rcases lt_trichotomy i run.published.length with hi | hi | hi
    · have hold : (run.published ++ [(⟨type, fields, run.nextSeq⟩ : Frame)])[i]? = some f := hf
      rw [List.getElem?_append_left hi] at hold
      exact h.seq i f hold
    · have hold : (run.published ++ [(⟨type, fields, run.nextSeq⟩ : Frame)])[i]? = some f := hf
      rw [hi, List.getElem?_concat_length] at hold
      rw [← Option.some.inj hold, hi]
      exact h.nextSeq
    · have hlen := (List.getElem?_eq_some_iff.mp hf).1
      have : (run.publish type fields).published.length = run.published.length + 1 :=
        List.length_append
      omega
  nextSeq := by
    have hlen : (run.publish type fields).published.length = run.published.length + 1 :=
      List.length_append
    rw [hlen]
    exact congrArg (· + 1) h.nextSeq
  buffer := by
    have hsuffix : run.buffer ++ [(⟨type, fields, run.nextSeq⟩ : Frame)] <:+
        run.published ++ [⟨type, fields, run.nextSeq⟩] := by
      obtain ⟨dropped, hdropped⟩ := h.buffer
      exact ⟨dropped, by rw [← List.append_assoc, hdropped]⟩
    rw [ManagedRun.publish]
    dsimp only
    split_ifs
    · exact (List.tail_suffix _).trans hsuffix
    · exact hsuffix
  short := by
    have hshort := h.short
    rw [ManagedRun.publish]
    dsimp only
    split_ifs with hlong
    · rw [List.length_tail, List.length_append]
      exact hshort
    · exact Nat.le_of_not_lt hlong
  queue g hg := by
    rcases List.mem_append.mp hg with hg | hg
    · exact List.mem_append_left _ (h.queue g hg)
    · exact List.mem_append_right _ hg

theorem ManagedRun.Inv.buffer_eq (h : run.Inv) (hlen : run.buffer.length = run.nextSeq) :
    run.buffer = run.published := h.buffer.eq_of_length (hlen.trans h.nextSeq)

theorem filter_seq_eq_drop {frames : List Frame} {k : ℤ} (hk : -1 ≤ k)
    (hseq : ∀ (i : ℕ) (f : Frame), frames[i]? = some f → f.seq = i) :
    frames.filter (fun f => k < f.seq) = frames.drop (k + 1).toNat := by
  induction frames using List.reverseRecOn with
  | nil => rw [List.drop_nil]; rfl
  | append_singleton frames f ih =>
    have hf : f.seq = frames.length := hseq frames.length f List.getElem?_concat_length
    have hold : ∀ (i : ℕ) (g : Frame), frames[i]? = some g → g.seq = i := by
      intro i g hg
      refine hseq i g ?_
      rw [List.getElem?_append_left (List.getElem?_eq_some_iff.mp hg).1, hg]
    rw [List.filter_append, ih hold]
    by_cases hlt : k < f.seq
    · have hle : (k + 1).toNat ≤ frames.length := by omega
      rw [List.drop_append_of_le_length hle]
      simp [hlt]
    · have hle : (frames ++ [f]).length ≤ (k + 1).toNat := by
        rw [List.length_append, List.length_singleton]
        omega
      have hle' : frames.length ≤ (k + 1).toNat := by
        rw [List.length_append] at hle
        omega
      rw [List.drop_eq_nil_of_le hle, List.drop_eq_nil_of_le hle']
      simp [hlt]

/-! ### The phases of a run -/

/-- A run that goes on has no `done` frame, and it was not cancelled before its start. -/
structure ManagedRun.Open (run : ManagedRun) : Prop where
  task : run.task ≠ .over
  done : run.done = false
  frames : ∀ f ∈ run.published, f.type ≠ .done
  started : run.task = .pending → run.cancelRequested = false

/-- A run that is over is done, and only its last frame is a `done` frame. -/
structure ManagedRun.Closed (run : ManagedRun) : Prop where
  task : run.task = .over
  done : run.done = true
  frames : ∀ f ∈ run.published, f.type = .done → f.seq + 1 = run.nextSeq

structure ManagedRun.Kept (run : ManagedRun) : Prop where
  inv : run.Inv
  phase : run.Open ∨ run.Closed

structure ManagedRun.Extends (run run' : ManagedRun) : Prop where
  published : run.published <+: run'.published
  closed : run.done = true → run'.done = true ∧ run'.published = run.published

theorem ManagedRun.Inv.finish (h : run.Inv) (hframes : ∀ f ∈ run.published, f.type ≠ .done) :
    run.finish.Kept ∧ run.published <+: run.finish.published := by
  have hlast : run.buffer.getLast?.map Frame.type ≠ some .done := by
    intro hdone
    obtain ⟨f, hf, htype⟩ := Option.map_eq_some_iff.mp hdone
    exact hframes f (h.buffer.subset (List.mem_of_getLast? hf)) htype
  have hfinish : run.finish = ManagedRun.publish
    { run with done := true, task := .over } .done [] :=
    if_neg hlast
  have hover : ManagedRun.Inv { run with done := true, task := .over } :=
    ⟨h.seq, h.nextSeq, h.buffer, h.short, h.queue⟩
  rw [hfinish]
  refine ⟨⟨hover.publish .done [], Or.inr ⟨rfl, rfl, fun f hf htype => ?_⟩⟩,
    List.prefix_append _ _⟩
  rcases mem_snoc.mp hf with hf | rfl
  · exact absurd htype (hframes f hf)
  · rfl

theorem ManagedRun.Open.publish (h : run.Open) {type : FrameType} (htype : type ≠ .done)
    (fields : List (Str × Json)) : (run.publish type fields).Open where
  task := h.task
  done := h.done
  frames f hf := by
    rcases mem_snoc.mp hf with hf | rfl
    · exact h.frames f hf
    · exact htype
  started := h.started

theorem ManagedRun.Open.turn (h : run.Open) (hinv : run.Inv) (hrunning : run.task = .running)
    (t : Turn) : (run.turn t).Kept ∧ run.published <+: (run.turn t).published := by
  cases t with
  | event e =>
    simp only [ManagedRun.turn, hrunning]
    split_ifs
    · exact hinv.finish h.frames
    · have hopen := h.publish (show FrameType.event e.type ≠ .done from nofun) e.fields
      have hfinish := (hinv.publish (.event e.type) e.fields).finish hopen.frames
      exact ⟨hfinish.1, (List.prefix_append _ _).trans hfinish.2⟩
    · have hopen := h.publish (show FrameType.event e.type ≠ .done from nofun) e.fields
      exact ⟨⟨hinv.publish _ e.fields, Or.inl hopen⟩, List.prefix_append _ _⟩
  | ended =>
    simp only [ManagedRun.turn, hrunning]
    exact hinv.finish h.frames
  | failed message =>
    simp only [ManagedRun.turn, hrunning]
    have hopen := h.publish (show FrameType.error ≠ .done from nofun)
      [("message", .str message)]
    have hfinish := (hinv.publish .error [("message", .str message)]).finish hopen.frames
    exact ⟨hfinish.1, (List.prefix_append _ _).trans hfinish.2⟩
  | interrupted =>
    simp only [ManagedRun.turn, hrunning]
    have hcancelled : ManagedRun.Inv { run with cancelled := true } :=
      ⟨hinv.seq, hinv.nextSeq, hinv.buffer, hinv.short, hinv.queue⟩
    have hopen : ManagedRun.Open { run with cancelled := true } :=
      ⟨h.task, h.done, h.frames, h.started⟩
    have hopen' := hopen.publish (show FrameType.cancelled ≠ .done from nofun)
      [("message", .str "run canceled")]
    have hfinish := (hcancelled.publish .cancelled
      [("message", .str "run canceled")]).finish hopen'.frames
    exact ⟨hfinish.1, (List.prefix_append _ _).trans hfinish.2⟩

theorem ManagedRun.Kept.turn (h : run.Kept) (t : Turn) :
    (run.turn t).Kept ∧ run.Extends (run.turn t) := by
  rcases h.phase with hopen | hclosed
  · have hdone : run.done = true → (run.turn t).done = true ∧
        (run.turn t).published = run.published := by
      rw [hopen.done]
      exact nofun
    rcases htask : run.task with - | - | -
    · have hstart : run.turn t = { run with task := .running } := by
        simp only [ManagedRun.turn, htask, hopen.started htask]
        rfl
      rw [hstart] at hdone ⊢
      refine ⟨⟨⟨h.inv.seq, h.inv.nextSeq, h.inv.buffer, h.inv.short, h.inv.queue⟩, Or.inl ?_⟩,
        List.prefix_rfl, hdone⟩
      exact ⟨nofun, hopen.done, hopen.frames, nofun⟩
    · obtain ⟨hkept, hprefix⟩ := hopen.turn h.inv htask t
      exact ⟨hkept, hprefix, hdone⟩
    · exact absurd htask hopen.task
  · have hsame : run.turn t = run := by simp only [ManagedRun.turn, hclosed.task]
    rw [hsame]
    exact ⟨h, List.prefix_rfl, fun hdone => ⟨hdone, rfl⟩⟩

theorem ManagedRun.Kept.cancel (h : run.Kept) (hstarted : run.task ≠ .pending) :
    run.cancel.Kept ∧ run.Extends run.cancel := by
  refine ⟨⟨⟨h.inv.seq, h.inv.nextSeq, h.inv.buffer, h.inv.short, h.inv.queue⟩, ?_⟩,
    List.prefix_rfl, fun hdone => ⟨hdone, rfl⟩⟩
  rcases h.phase with hopen | hclosed
  · exact Or.inl ⟨hopen.task, hopen.done, hopen.frames, fun hp => absurd hp hstarted⟩
  · exact Or.inr ⟨hclosed.task, hclosed.done, hclosed.frames⟩

theorem ManagedRun.Kept.take (h : run.Kept) {queue : List Frame} (hqueue : run.queue = f :: queue) :
    ManagedRun.Kept { run with queue } where
  inv := ⟨h.inv.seq, h.inv.nextSeq, h.inv.buffer, h.inv.short, fun g hg =>
    h.inv.queue g (by rw [hqueue]; exact List.mem_cons_of_mem f hg)⟩
  phase := h.phase.imp (fun ho => ⟨ho.task, ho.done, ho.frames, ho.started⟩)
    fun hc => ⟨hc.task, hc.done, hc.frames⟩

/-! ### The frames of a reader -/

/-- What is kept about a reader: it has the first of the frames it wants, and its position is that
of the next one, or it is beyond every buffer. -/
structure Reader.Inv (run : ManagedRun) (x : Reader) : Prop where
  skipBelow : -1 ≤ x.skipBelow
  order : x.frames <+: run.wanted x
  complete : x.phase = .ended → run.done = true ∧ x.frames = run.wanted x
  alive : x.phase ≠ .failed
  place : x.phase = .ended ∨ x.nextSeq = x.next ∨
    (maxBuffer : ℤ) ≤ x.nextSeq ∧ x.nextSeq ≤ x.next

theorem Reader.Inv.mono (h : x.Inv run) (hrun : run.Extends run') : x.Inv run' where
  skipBelow := h.skipBelow
  order := h.order.trans (hrun.published.filter _)
  complete hended := by
    obtain ⟨hdone, hframes⟩ := h.complete hended
    obtain ⟨hdone', hpublished⟩ := hrun.closed hdone
    refine ⟨hdone', ?_⟩
    rw [hframes, ManagedRun.wanted, ManagedRun.wanted, hpublished]
  alive := h.alive
  place := h.place

theorem ManagedRun.Inv.wanted_eq (h : run.Inv) (hskip : -1 ≤ x.skipBelow) :
    run.wanted x = run.published.drop (x.skipBelow + 1).toNat := filter_seq_eq_drop hskip h.seq

theorem ManagedRun.Inv.frames_eq (h : run.Inv) (hskip : -1 ≤ x.skipBelow)
    (horder : x.frames <+: run.wanted x) (hnext : (run.nextSeq : ℤ) ≤ x.next) :
    x.frames = run.wanted x := by
  refine horder.eq_of_length_le ?_
  rw [h.wanted_eq hskip, List.length_drop]
  have hlen := h.nextSeq
  rw [Reader.next] at hnext
  omega

theorem Reader.Inv.order_concat (h : x.Inv run) (hrun : run.Inv) (hf : f ∈ run.published)
    (hnext : (f.seq : ℤ) = x.next) : x.frames ++ [f] <+: run.wanted x := by
  have hskip := h.skipBelow
  have horder := h.order
  rw [hrun.wanted_eq hskip] at horder ⊢
  obtain ⟨i, hi⟩ := List.mem_iff_getElem?.mp hf
  have hseq := hrun.seq i f hi
  have hget : (run.published.drop (x.skipBelow + 1).toNat)[x.frames.length]? = some f := by
    rw [List.getElem?_drop, ← hi]
    congr 1
    rw [Reader.next] at hnext
    omega
  have htake := List.take_add_one (l := run.published.drop (x.skipBelow + 1).toNat)
    (i := x.frames.length)
  rw [hget, ← List.prefix_iff_eq_take.mp horder] at htake
  rw [show x.frames ++ [f] = _ from htake.symm]
  exact List.take_prefix _ _

/-! ### The steps of a reader -/

@[simp] theorem Reader.skipBelow_get (x : Reader) (f : Frame) :
    (x.get f).skipBelow = x.skipBelow := by
  rw [Reader.get]
  split_ifs <;> rfl

theorem Reader.nextSeq_get (x : Reader) (f : Frame) : (x.get f).nextSeq = x.nextSeq := by
  rw [Reader.get]
  split_ifs <;> rfl

theorem Reader.frames_get (hf : x.skipBelow < f.seq) : (x.get f).frames = x.frames ++ [f] := by
  rw [Reader.get, if_neg (not_le.mpr hf)]
  exact List.filterMap_append

theorem Reader.phase_get (x : Reader) (f : Frame) :
    (x.get f).phase = if x.skipBelow < f.seq ∧ f.type = .done then .ended else .reading := by
  rw [Reader.get]
  by_cases hf : (f.seq : ℤ) ≤ x.skipBelow
  · rw [if_pos hf, if_neg fun h => absurd h.1 (not_lt.mpr hf)]
  · rw [if_neg hf]
    by_cases hdone : f.type = .done
    · exact (if_pos hdone).trans (if_pos ⟨not_le.mp hf, hdone⟩).symm
    · exact (if_neg hdone).trans (if_neg fun h => hdone h.2).symm

theorem Reader.Inv.get (h : x.Inv run) (hrun : run.Kept) (hf : f ∈ run.published)
    (hnext : (f.seq : ℤ) = x.next) {y : Reader} (hy : y.skipBelow = x.skipBelow)
    (hframes : y.frames = x.frames)
    (hplace : f.type = .done ∨ y.nextSeq = x.next + 1 ∨
      (maxBuffer : ℤ) ≤ y.nextSeq ∧ y.nextSeq ≤ x.next + 1) :
    (y.get f).Inv run := by
  have hlt : y.skipBelow < f.seq := by
    have hx : x.next = x.skipBelow + 1 + x.frames.length := rfl
    omega
  have hget : (y.get f).frames = x.frames ++ [f] := by rw [Reader.frames_get hlt, hframes]
  have hskip : (y.get f).skipBelow = x.skipBelow := by rw [Reader.skipBelow_get, hy]
  have hwanted : run.wanted (y.get f) = run.wanted x := by
    rw [ManagedRun.wanted, ManagedRun.wanted, hskip]
  have horder : (y.get f).frames <+: run.wanted (y.get f) := by
    rw [hget, hwanted]
    exact h.order_concat hrun.inv hf hnext
  have hnext' : (y.get f).next = x.next + 1 := by
    have hy' : (y.get f).next = (y.get f).skipBelow + 1 + (y.get f).frames.length := rfl
    have hx : x.next = x.skipBelow + 1 + x.frames.length := rfl
    rw [hskip, hget, List.length_append, List.length_singleton] at hy'
    omega
  refine ⟨hskip ▸ h.skipBelow, horder, fun hended => ?_, ?_, ?_⟩
  · -- Only the last frame of a run is `done`.
    rw [Reader.phase_get] at hended
    have htype : f.type = .done := by
      by_contra hne
      rw [if_neg fun hand => hne hand.2] at hended
      exact absurd hended nofun
    rcases hrun.phase with hopen | hclosed
    · exact absurd htype (hopen.frames f hf)
    · refine ⟨hclosed.done, hrun.inv.frames_eq (hskip ▸ h.skipBelow) horder ?_⟩
      have hlast := hclosed.frames f hf htype
      omega
  · rw [Reader.phase_get]
    split_ifs <;> exact nofun
  · rw [hnext', Reader.nextSeq_get, Reader.phase_get]
    rcases hplace with htype | hplace
    · exact Or.inl (if_pos ⟨hlt, htype⟩)
    · exact Or.inr hplace

theorem frameAt_of_nonneg {buffer : List Frame} {i : ℤ} (hi : 0 ≤ i) :
    frameAt buffer i = buffer[i.toNat]? := by
  rw [frameAt]
  simp only [if_neg (not_lt.mpr hi)]

theorem Reader.Inv.read (h : x.Inv run) (hrun : run.Kept) (hreading : x.phase = .reading)
    (hwhole : x.nextSeq < run.buffer.length ∨ run.done = true → run.Whole x) :
    (run.read x).Inv run := by
  have hskip := h.skipBelow
  have hnext : x.next = x.skipBelow + 1 + x.frames.length := rfl
  have hplace : x.nextSeq = x.next ∨ (maxBuffer : ℤ) ≤ x.nextSeq ∧ x.nextSeq ≤ x.next := by
    rcases h.place with hended | hplace
    · rw [hreading] at hended
      exact absurd hended nofun
    · exact hplace
  have hshort := hrun.inv.short
  have hsuffix := hrun.inv.buffer.length_le
  have hlen := hrun.inv.nextSeq
  rw [ManagedRun.read]
  by_cases hlt : x.nextSeq < run.buffer.length
  · -- Nothing has been dropped, so the frame at the position is the next one.
    have hpos : x.nextSeq = x.next := by
      rcases hplace with hplace | hplace
      · exact hplace
      · omega
    have hbuffer := hrun.inv.buffer_eq (hwhole (Or.inl hlt) (by omega))
    have hi : x.nextSeq.toNat < run.published.length := by
      rw [← hbuffer]
      omega
    have hget : frameAt run.buffer x.nextSeq = some (run.published[x.nextSeq.toNat]) := by
      rw [frameAt_of_nonneg (by omega), hbuffer]
      exact List.getElem?_eq_getElem hi
    have hseq := hrun.inv.seq _ _ (List.getElem?_eq_getElem hi)
    rw [if_pos hlt, hget]
    exact h.get hrun (List.getElem_mem hi) (by omega) rfl rfl
      (Or.inr (Or.inl (by simp only; omega)))
  · rw [if_neg hlt]
    split_ifs with hex
    · have hframes : x.frames = run.wanted x := by
        refine hrun.inv.frames_eq hskip h.order ?_
        by_contra hmore
        have hfull := hwhole (Or.inr hex.1) (by omega)
        rcases hplace with hplace | hplace <;> omega
      exact ⟨hskip, h.order, fun _ => ⟨hex.1, hframes⟩, nofun, Or.inl rfl⟩
    · exact ⟨hskip, h.order, nofun, nofun, Or.inr hplace⟩

theorem Reader.Inv.timeout (h : x.Inv run) (hrun : run.Kept) (hwaiting : x.phase = .waiting)
    (hwhole : run.done = true → run.Whole x) : (run.timeout x).Inv run := by
  have hplace : x.nextSeq = x.next ∨ (maxBuffer : ℤ) ≤ x.nextSeq ∧ x.nextSeq ≤ x.next := by
    rcases h.place with hended | hplace
    · rw [hwaiting] at hended
      exact absurd hended nofun
    · exact hplace
  have hshort := hrun.inv.short
  rw [ManagedRun.timeout]
  split_ifs with hex
  · have hframes : x.frames = run.wanted x := by
      refine hrun.inv.frames_eq h.skipBelow h.order ?_
      by_contra hmore
      have hfull := hwhole hex.1 (by omega)
      have hend := hex.2
      rcases hplace with hplace | hplace <;> omega
    exact ⟨h.skipBelow, h.order, fun _ => ⟨hex.1, hframes⟩, nofun, Or.inl rfl⟩
  · have hframes : Reader.frames { x with phase := .reading, sent := x.sent ++ [.keepalive] } =
        x.frames := by
      rw [Reader.frames, List.filterMap_append]
      exact List.append_nil _
    have hnext : Reader.next { x with phase := .reading, sent := x.sent ++ [.keepalive] } =
        x.next := by
      rw [Reader.next, hframes]
      rfl
    refine ⟨h.skipBelow, ?_, nofun, nofun, Or.inr ?_⟩
    · rw [hframes]
      exact h.order
    · rw [hnext]
      exact hplace

theorem Reader.Inv.take (h : x.Inv run) (hrun : run.Kept) (hwaiting : x.phase = .waiting)
    {queue : List Frame} (hqueue : run.queue = f :: queue)
    (hnext : x.skipBelow < f.seq →
      f.seq = x.next ∧ (f.type = .done ∨ (maxBuffer : ℤ) ≤ x.nextSeq)) : (x.get f).Inv run := by
  have hplace : x.nextSeq = x.next ∨ (maxBuffer : ℤ) ≤ x.nextSeq ∧ x.nextSeq ≤ x.next := by
    rcases h.place with hended | hplace
    · rw [hwaiting] at hended
      exact absurd hended nofun
    · exact hplace
  by_cases hlt : x.skipBelow < f.seq
  · obtain ⟨hseq, hok⟩ := hnext hlt
    have hf : f ∈ run.published := hrun.inv.queue f (by rw [hqueue]; exact List.mem_cons_self)
    refine h.get hrun hf hseq rfl rfl (hok.imp_right fun hbeyond => Or.inr ⟨hbeyond, ?_⟩)
    rcases hplace with hplace | hplace <;> omega
  · have hget : x.get f = { x with phase := .reading } := if_pos (not_lt.mp hlt)
    rw [hget]
    exact ⟨h.skipBelow, h.order, nofun, nofun, Or.inr hplace⟩

/-! ### The end of a stream -/

/-- What a reader has still to go through. -/
def ManagedRun.rank (run : ManagedRun) (x : Reader) : ℕ :=
  2 * (run.buffer.length - x.nextSeq.toNat) + 2 * run.queue.length +
    if x.phase = .waiting then 1 else 0

def Reader.Goes (x : Reader) : Prop := 0 ≤ x.nextSeq ∧ x.phase ≠ .failed

/-- A reader of a run that is done has ended, or it goes on with less before it. -/
def ManagedRun.Nearer (run run' : ManagedRun) (x y : Reader) : Prop :=
  y.phase = .ended ∨ y.Goes ∧ run'.rank y < run.rank x

theorem nearer_get {n : ℕ} {y : Reader} (hy : 0 ≤ y.nextSeq)
    (hrank : 2 * (run'.buffer.length - y.nextSeq.toNat) + 2 * run'.queue.length < n)
    (hx : n = run.rank x) (f : Frame) : run.Nearer run' x (y.get f) := by
  have hphase := Reader.phase_get y f
  have hnext := Reader.nextSeq_get y f
  by_cases hend : y.skipBelow < f.seq ∧ f.type = .done
  · rw [if_pos hend] at hphase
    exact Or.inl hphase
  · rw [if_neg hend] at hphase
    refine Or.inr ⟨⟨hnext ▸ hy, hphase ▸ nofun⟩, ?_⟩
    rw [ManagedRun.rank, hnext, if_neg (by rw [hphase]; exact nofun), ← hx]
    exact hrank

theorem nearer_read (hdone : run.done = true) (hx : x.Goes) (hreading : x.phase = .reading) :
    run.Nearer run x (run.read x) := by
  have hrank : run.rank x = 2 * (run.buffer.length - x.nextSeq.toNat) + 2 * run.queue.length := by
    rw [ManagedRun.rank, if_neg (by rw [hreading]; exact nofun)]
    exact Nat.add_zero _
  have hpos := hx.1
  rw [ManagedRun.read]
  by_cases hlt : x.nextSeq < run.buffer.length
  · have hi : x.nextSeq.toNat < run.buffer.length := by omega
    rw [if_pos hlt, frameAt_of_nonneg hpos, List.getElem?_eq_getElem hi]
    refine nearer_get (by simp only; omega) ?_ hrank.symm _
    simp only
    omega
  · have hex : run.exhausted x := ⟨hdone, by omega⟩
    rw [if_neg hlt, if_pos hex]
    exact Or.inl rfl

theorem nearer_timeout (hx : x.Goes) (hwaiting : x.phase = .waiting) :
    run.Nearer run x (run.timeout x) := by
  rw [ManagedRun.timeout]
  split_ifs
  · exact Or.inl rfl
  · refine Or.inr ⟨⟨hx.1, nofun⟩, ?_⟩
    rw [ManagedRun.rank, ManagedRun.rank, if_pos hwaiting, if_neg nofun]
    exact Nat.lt_succ_self _

theorem nearer_take (hx : x.Goes) {queue : List Frame} (hqueue : run.queue = f :: queue) :
    run.Nearer { run with queue } x (x.get f) := by
  refine nearer_get hx.1 ?_ rfl f
  rw [ManagedRun.rank, hqueue, List.length_cons]
  simp only
  omega

/-- The task is over, and a reader has ended or goes on. -/
def State.Ending (s : State) (r : ℕ) : Prop :=
  s.run.task = .over ∧ s.run.done = true ∧
    ∃ x, s.readers r = some x ∧ (x.phase = .ended ∨ x.Goes)

def State.Ended (s : State) (r : ℕ) : Prop := ∃ x, s.readers r = some x ∧ x.phase = .ended

/-- What a reader has still to go through. -/
def State.rank (s : State) (r : ℕ) : ℕ := (s.readers r).elim 0 s.run.rank

/-- After a step a reader has ended, or it has not more before it, and less after a turn of its own.
-/
structure State.Closer (s s' : State) (r : ℕ) (own : Prop) : Prop where
  ending : s'.Ending r
  ended : s.Ended r → s'.Ended r
  rank : s'.Ended r ∨ s'.rank r ≤ s.rank r ∧ (own → s'.rank r < s.rank r)

theorem State.Ending.closer_of_readers {s' : State} (h : s.Ending r)
    (hreaders : s'.readers r = s.readers r) (htask : s'.run.task = s.run.task)
    (hdone : s'.run.done = s.run.done) (hbuffer : s'.run.buffer = s.run.buffer)
    (hqueue : s'.run.queue.length ≤ s.run.queue.length) {own : Prop} (hown : ¬ own ∨ s.Ended r) :
    s.Closer s' r own := by
  obtain ⟨hover, hsdone, x, hx, hgoes⟩ := h
  have hended : s.Ended r → s'.Ended r := by
    rintro ⟨y, hy, hphase⟩
    exact ⟨y, hreaders.trans hy, hphase⟩
  refine ⟨⟨htask.trans hover, hdone.trans hsdone, x, hreaders.trans hx, hgoes⟩, hended, ?_⟩
  rcases hown with hown | hown
  · refine Or.inr ⟨?_, fun h => absurd h hown⟩
    rw [State.rank, State.rank, hreaders, hx]
    simp only [Option.elim_some, ManagedRun.rank, hbuffer]
    omega
  · exact Or.inl (hended hown)

theorem State.Ending.closer_of_nearer {s' : State} (h : s.Ending r) {y : Reader}
    (hx : s.readers r = some x) (hphase : x.phase ≠ .ended) (hy : s'.readers r = some y)
    (hnearer : s.run.Nearer s'.run x y) (htask : s'.run.task = s.run.task)
    (hdone : s'.run.done = s.run.done) (own : Prop) : s.Closer s' r own := by
  obtain ⟨hover, hsdone, -⟩ := h
  refine ⟨⟨htask.trans hover, hdone.trans hsdone, y, hy, hnearer.imp_right And.left⟩, ?_, ?_⟩
  · rintro ⟨z, hz, hended⟩
    obtain rfl := Option.some.inj (hx.symm.trans hz)
    exact absurd hended hphase
  · rcases hnearer with hended | ⟨-, hlt⟩
    · exact Or.inl ⟨y, hy, hended⟩
    · have hrank : s'.rank r < s.rank r := by
        rw [State.rank, State.rank, hx, hy]
        exact hlt
      exact Or.inr ⟨hrank.le, fun _ => hrank⟩

@[simp] theorem State.readers_set (s : State) (r : ℕ) (x : Option Reader) :
    (s.set r x).readers r = x := Function.update_self ..

theorem State.readers_set_of_ne (s : State) {r r' : ℕ} (x : Option Reader) (hr : r ≠ r') :
    (s.set r' x).readers r = s.readers r := Function.update_of_ne hr ..

theorem State.Ending.go (h : s.Ending r) (hx : s.readers r = some x) (own : Prop) :
    s.Closer (s.go r x) r own := by
  obtain ⟨hover, hdone, z, hz, hgoes⟩ := id h
  obtain rfl := Option.some.inj (hx.symm.trans hz)
  rw [State.go]
  rcases hphase : x.phase with - | - | - | -
  · have hnot : x.phase ≠ .ended := by rw [hphase]; exact nofun
    exact h.closer_of_nearer hx hnot (s.readers_set r _)
      (nearer_read hdone (hgoes.resolve_left hnot) hphase) rfl rfl own
  · have hnot : x.phase ≠ .ended := by rw [hphase]; exact nofun
    have hgo := hgoes.resolve_left hnot
    rcases hqueue : s.run.queue with - | ⟨f, queue⟩
    · exact h.closer_of_nearer hx hnot (s.readers_set r _) (nearer_timeout hgo hphase) rfl rfl own
    · have hnearer := nearer_take hgo hqueue
      exact h.closer_of_nearer hx hnot (State.readers_set { s with
        run := { s.run with queue } } r (some (x.get f))) hnearer rfl rfl own
  · exact h.closer_of_readers rfl rfl rfl rfl le_rfl (Or.inr ⟨x, hx, hphase⟩)
  · rcases hgoes with hended | hgo
    · exact h.closer_of_readers rfl rfl rfl rfl le_rfl (Or.inr ⟨x, hx, hended⟩)
    · exact absurd hphase hgo.2

theorem State.Ending.go_other (h : s.Ending r) {r' : ℕ} (hr : r ≠ r') (y : Reader) :
    s.Closer (s.go r' y) r False := by
  have hnot : ¬ False ∨ s.Ended r := Or.inl not_false
  rw [State.go]
  split
  · exact h.closer_of_readers (s.readers_set_of_ne _ hr) rfl rfl rfl le_rfl hnot
  · split
    · exact h.closer_of_readers (s.readers_set_of_ne _ hr) rfl rfl rfl le_rfl hnot
    · rename_i f queue hqueue
      have hreaders := State.readers_set_of_ne { s with run := { s.run with queue } }
        (some (y.get f)) hr
      have hle : queue.length ≤ s.run.queue.length := by
        rw [hqueue]
        exact Nat.le_succ _
      exact State.Ending.closer_of_readers h hreaders rfl rfl rfl hle hnot
  · exact h.closer_of_readers rfl rfl rfl rfl le_rfl hnot

theorem State.Closer.of_not {s' : State} {own : Prop} (h : s.Closer s' r False) (hown : ¬ own) :
    s.Closer s' r own :=
  ⟨h.ending, h.ended, h.rank.imp_right fun hle => ⟨hle.1, fun ho => absurd ho hown⟩⟩

theorem State.Ending.act (h : s.Ending r) {a : Act} (hstays : a ≠ .disconnect r) :
    s.Closer (act a s).2 r (a.isTurn r = true) := by
  have hnot : ¬ False ∨ s.Ended r := Or.inl not_false
  have hsame : s.Closer s r False := h.closer_of_readers rfl rfl rfl rfl le_rfl hnot
  obtain ⟨hover, -, x, hx, hgoes⟩ := id h
  cases a with
  | connect r' resume =>
    rw [ManagedRuns.act]
    refine State.Closer.of_not ?_ nofun
    split_ifs with hr'
    · exact hsame
    · have hr : r ≠ r' := by
        rintro rfl
        rw [hx] at hr'
        exact hr' rfl
      exact h.closer_of_readers (s.readers_set_of_ne _ hr) rfl rfl rfl le_rfl hnot
  | turn r' =>
    rw [ManagedRuns.act]
    by_cases hr : r = r'
    · subst hr
      rw [hx]
      exact h.go hx _
    · refine State.Closer.of_not ?_ fun hown => hr (of_decide_eq_true hown).symm
      rcases s.readers r' with - | y
      · exact hsame
      · exact h.go_other hr y
  | timeout r' =>
    rw [ManagedRuns.act]
    refine State.Closer.of_not ?_ nofun
    by_cases hr : r = r'
    · subst hr
      rw [hx]
      by_cases hwaiting : x.phase = .waiting
      · have hended : x.phase ≠ .ended := by rw [hwaiting]; exact nofun
        simp only [Option.elim_some, if_pos hwaiting]
        exact h.closer_of_nearer hx hended (s.readers_set r _)
          (nearer_timeout (hgoes.resolve_left hended) hwaiting) rfl rfl False
      · simp only [Option.elim_some, if_neg hwaiting]
        exact hsame
    · rcases s.readers r' with - | y
      · exact hsame
      · simp only [Option.elim_some]
        split_ifs
        · exact h.closer_of_readers (s.readers_set_of_ne _ hr) rfl rfl rfl le_rfl hnot
        · exact hsame
  | disconnect r' =>
    have hr : r ≠ r' := by
      rintro rfl
      exact hstays rfl
    exact (h.closer_of_readers (s.readers_set_of_ne none hr) rfl rfl rfl le_rfl hnot).of_not nofun
  | task t =>
    have hrun : s.run.turn t = s.run := by simp only [ManagedRun.turn, hover]
    rw [ManagedRuns.act, hrun]
    exact hsame.of_not nofun
  | cancel =>
    refine State.Closer.of_not (h.closer_of_readers ?_ ?_ ?_ ?_ ?_ hnot) nofun
    · rfl
    · rfl
    · rfl
    · rfl
    · exact le_rfl

/-- Once the task is over, a reader ends after as many turns as it has frames before it. -/
theorem State.Ending.ends (h : s.Ending r) (acts : List Act)
    (hstays : Machine.Along ManagedRuns.act (Act.Stays r) acts s)
    (hturns : s.rank r + 1 ≤ acts.countP (Act.isTurn r)) :
    ((Machine.run ManagedRuns.act acts s).2).Ended r :=
  Machine.run_reaches (I := fun s => s.Ending r) (E := fun s => s.Ended r) (fun s => s.rank r)
    (fun _ _ hs hstay => (hs.act hstay).ending) (fun _ _ hs hstay => (hs.act hstay).ended)
    (fun _ _ hs hstay => (hs.act hstay).rank.imp_right And.left)
    (fun _ _ hs hstay hown => (hs.act hstay).rank.imp_right fun hle => hle.2 hown)
    acts h hstays (Or.inr hturns)

/-! ### Runs -/

/-- What is kept about a run and its readers. -/
structure State.Inv (s : State) : Prop where
  run : s.run.Kept
  readers : ∀ r x, s.readers r = some x → x.Inv s.run

theorem State.Inv.lawful (h : s.Inv) : s.Lawful := by
  intro r x hx
  have hreader := h.readers r x hx
  refine ⟨hreader.order, hreader.complete, hreader.alive, fun hover => ?_⟩
  rcases h.run.phase with hopen | hclosed
  · exact absurd hover hopen.task
  · refine ⟨s.rank r + 1, fun acts hstays hturns => ?_⟩
    refine State.Ending.ends ⟨hover, hclosed.done, x, hx, ?_⟩ acts hstays hturns
    have hskip := hreader.skipBelow
    have hnext : x.next = x.skipBelow + 1 + x.frames.length := rfl
    rcases hreader.place with hended | hplace
    · exact Or.inl hended
    · refine Or.inr ⟨?_, hreader.alive⟩
      rcases hplace with hplace | hplace <;> omega

theorem State.inv_start : State.Inv {} where
  run := ⟨⟨nofun, rfl, List.suffix_rfl, Nat.zero_le _, nofun⟩,
    Or.inl ⟨nofun, rfl, nofun, fun _ => rfl⟩⟩
  readers := nofun

theorem Reader.inv_start {resume : Option ℤ} (hresume : ∀ k, resume = some k → -1 ≤ k) :
    (Reader.start resume).Inv run := by
  have hframes : (Reader.start resume).frames = [] := by cases resume <;> rfl
  have hskip : -1 ≤ (Reader.start resume).skipBelow := by
    rcases resume with - | k
    · exact le_rfl
    · exact hresume k rfl
  have hplace : (Reader.start resume).nextSeq = (Reader.start resume).next := by
    rw [Reader.next, hframes]
    rcases resume with - | k
    · rfl
    · exact (add_zero (k + 1)).symm
  refine ⟨hskip, ?_, nofun, nofun, Or.inr (Or.inl hplace)⟩
  rw [hframes]
  exact List.nil_prefix

theorem State.Inv.set (h : s.Inv) {x : Option Reader} (hx : ∀ y, x = some y → y.Inv s.run) :
    (s.set r x).Inv where
  run := h.run
  readers r' y hy := by
    by_cases hr : r' = r
    · subst hr
      rw [State.readers_set] at hy
      exact hx y hy
    · rw [State.readers_set_of_ne s x hr] at hy
      exact h.readers r' y hy

theorem State.Inv.extend (h : s.Inv) (hrun : run.Kept) (hext : s.run.Extends run) :
    State.Inv { s with run } where
  run := hrun
  readers r x hx := (h.readers r x hx).mono hext

theorem State.Inv.go (h : s.Inv) (hx : s.readers r = some x) (hok : Act.Regular (.turn r) s) :
    (s.go r x).Inv := by
  have hreader := h.readers r x hx
  obtain ⟨hread, htimeout, htake⟩ := hok x hx
  rw [State.go]
  split
  · rename_i hphase
    refine h.set fun y hy => ?_
    rw [← Option.some.inj hy]
    exact hreader.read h.run hphase (hread hphase)
  · rename_i hphase
    split
    · rename_i hqueue
      refine h.set fun y hy => ?_
      rw [← Option.some.inj hy]
      exact hreader.timeout h.run hphase (htimeout hphase hqueue)
    · rename_i f queue hqueue
      have hext : s.run.Extends { s.run with queue } :=
        ⟨List.prefix_rfl, fun hdone => ⟨hdone, rfl⟩⟩
      refine State.Inv.set (h.extend (h.run.take hqueue) hext) fun y hy => ?_
      have hnext := htake hphase f (by rw [hqueue, List.head?_cons])
      rw [← Option.some.inj hy]
      exact (hreader.take h.run hphase hqueue hnext).mono hext
  · exact h

theorem State.Inv.act (a : Act) (h : s.Inv) (hok : a.Regular s) : (act a s).2.Inv := by
  cases a with
  | connect r resume =>
    rw [ManagedRuns.act]
    split_ifs
    · exact h
    · refine h.set fun y hy => ?_
      rw [← Option.some.inj hy]
      exact Reader.inv_start hok
  | turn r =>
    rw [ManagedRuns.act]
    rcases hx : s.readers r with - | x
    · exact h
    · exact h.go hx hok
  | timeout r =>
    rw [ManagedRuns.act]
    rcases hx : s.readers r with - | x
    · exact h
    · simp only [Option.elim_some]
      split_ifs with hwaiting
      · refine h.set fun y hy => ?_
        rw [← Option.some.inj hy]
        exact (h.readers r x hx).timeout h.run hwaiting (hok x hx)
      · exact h
  | disconnect r => exact h.set nofun
  | task t =>
    obtain ⟨hkept, hext⟩ := h.run.turn t
    exact h.extend hkept hext
  | cancel =>
    obtain ⟨hkept, hext⟩ := h.run.cancel hok
    exact h.extend hkept hext

/-- Where every step is regular, every reader sends the frames after its `last_seq` in order and
each of them once, and its stream ends after the last one. -/
theorem lawful_of_regular (acts : List Act) (hacts : Machine.Along act Act.Regular acts {}) :
    (Machine.run act acts {}).2.Lawful :=
  (Machine.run_invariant (fun a _ => State.Inv.act a) acts State.inv_start hacts).lawful

/-! ### Examples -/

/-- A single reader waits for the first frame. -/
def waiting : List Act :=
  [.connect 0 none, .task .ended, .turn 0, .task (.event ⟨"start", [], []⟩), .turn 0, .turn 0]

/-- The reader takes the frame from the queue, and then it reads it in the buffer. -/
theorem sent_twice : ¬ ∀ acts : List Act, (Machine.run act acts {}).2.run.nextSeq ≤ maxBuffer →
    (Machine.run act acts {}).2.Lawful := by
  intro h
  have hlaw := h waiting (by decide) 0 _ rfl
  have hlen := hlaw.order.length_le
  exact absurd hlen (by decide)

/-- A run that is done before its readers look at the buffer. -/
def replayed : List Act :=
  [.connect 0 none, .task .ended, .task (.event ⟨"start", [], []⟩), .task .ended,
    .connect 1 (some 0), .turn 0, .turn 1, .turn 0]

theorem replayed_lawful : (Machine.run act replayed {}).2.Lawful := by
  refine lawful_of_regular replayed ?_
  refine ⟨nofun, trivial, trivial, trivial, ?_, ?_, ?_, ?_, trivial⟩
  · intro k hk
    obtain rfl := Option.some.inj hk
    decide
  all_goals
    intro x hx
    obtain rfl := Option.some.inj hx
    exact ⟨fun _ _ _ => rfl, nofun, nofun⟩

end AgentStudio.ManagedRuns

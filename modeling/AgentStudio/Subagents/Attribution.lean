import AgentStudio.Library.Machine
import AgentStudio.Subagents.Runner

/-!
# Whose messages a transcript holds

The transcript of an agent should hold what it held at the start and then the messages that the
runs of this agent have produced (`Attributed`). What `run` appends comes from `last_ctx` and
`last_seeded_count`, which belong to the run that wrote them last. `KeepsOwn` says when this is as
good as the run's own context: a run that ends after an execution needs the seed count to be its
own, as far as its messages go, and a run that ends otherwise needs the fields to yield what it
has produced, mostly nothing.

`attributed_iff_keepsOwn` is the equivalence over all interleavings, and `not_attributed` is a
run that misses a tool and gets the messages of the run before it.
-/

namespace AgentStudio.Subagents

open PyText Rows Coroutines Machine

/-- The messages that a transcript holds at the start. -/
def initialMessages (init : Transcripts) (agentId : Str) : List Message :=
  ((init.find agentId).map Transcript.messages).getD []

/-- The messages that the ended runs of an agent have produced. -/
def producedBy (agentId : Str) (ended : List (Str × List Message)) : List Message :=
  ((ended.filter (·.1 = agentId)).map Prod.snd).flatten

/-- Every transcript holds the messages of its agent, and no others. -/
def Attributed (init : Transcripts) (s : RunnerState) : Prop :=
  ∀ r ∈ s.rows, r.messages = initialMessages init r.agentId ++ producedBy r.agentId s.ended

/-- What a run appends when it ends is what it has produced. -/
def SubRun.KeepsOwn (p : SubRun) (a : Answer) (w : Runner) : Prop :=
  match p.phase, a with
  | .starting, .started env => p.call.rejection env = none ∨ w.appended = []
  | .streaming seededCount, .finished o =>
    min w.lastSeededCount o.messages.length = min seededCount o.messages.length
  | .streaming seededCount, .raised messages _ => w.appended = messages.drop seededCount
  | _, _ => True

/-- The condition of an event: a run with a transcript that it ends keeps its own messages. -/
def RunnerEvent.KeepsOwn : RunnerEvent → RunnerState → Prop
  | .run _ _, _ => True
  | .resume n a, s => ∀ p, s.pool.members[n]? = some p → s.HasTranscript p.call.agentId →
    p.KeepsOwn a s.pool.world

/-- The agents of the record and of the transcripts at the start have transcripts. -/
structure Recorded (init : Transcripts) (s : RunnerState) : Prop where
  ended : ∀ e ∈ s.ended, s.HasTranscript e.1
  init : ∀ agentId ∈ init.rows.map Transcript.agentId, s.HasTranscript agentId

variable {init t : Transcripts} {s : RunnerState} {p : SubRun} {a : Answer} {w : Runner} {n : ℕ}
  {agentId : Str}

/-! ### What a turn does to the transcripts -/

theorem rows_appendMessages (t : Transcripts) (agentId : Str) (messages : List Message) :
    (appendMessages t agentId messages).rows = t.rows.map (Rows.update Transcript.agentId agentId
      fun r => { r with messages := r.messages ++ messages }) := by
  unfold appendMessages
  split_ifs with h
  · refine ((List.map_congr_left fun r _ => ?_).trans (List.map_id _)).symm
    unfold Rows.update
    split_ifs
    · dsimp only
      rw [h, List.append_nil]
      rfl
    · rfl
  · rfl

/-- The row of an agent after a run of it has ended. -/
def SubRun.finishedRow (w : Runner) (report : Report) (r : Transcript) : Transcript :=
  report.finished { r with messages := r.messages ++ w.appended }

theorem SubRun.finishedRow_agentId (w : Runner) (report : Report) (r : Transcript) :
    (SubRun.finishedRow w report r).agentId = r.agentId := rfl

theorem rows_finishRun (w : Runner) (agentId : Str) (report : Report) :
    (w.finishRun agentId report).transcripts.rows =
      w.transcripts.rows.map (Rows.update Transcript.agentId agentId
        (SubRun.finishedRow w report)) := by
  have hfinish : (w.finishRun agentId report).transcripts.rows =
      (appendMessages w.transcripts agentId w.appended).rows.map
        (Rows.update Transcript.agentId agentId report.finished) := rfl
  rw [hfinish, rows_appendMessages, List.map_map]
  refine List.map_congr_left fun r _ => ?_
  by_cases hr : r.agentId = agentId
  · simp [Rows.update, hr, SubRun.finishedRow]
  · simp [Rows.update, hr]

theorem SubRun.turn_of_produced {messages : List Message} (h : p.produced a = some messages) :
    ∃ (w' : Runner) (report : Report), (p.turn a w).world = w'.finishRun p.call.agentId report ∧
      w'.transcripts = w.transcripts ∧ (w'.appended = messages ↔ p.KeepsOwn a w) := by
  obtain ⟨call, phase⟩ := p
  cases phase with
  | starting =>
    cases a with
    | started env =>
      obtain ⟨report, hreport, rfl⟩ := Option.map_eq_some_iff.mp h
      unfold SubRun.turn SubRun.KeepsOwn
      dsimp only at hreport ⊢
      rw [hreport]
      exact ⟨w, report, rfl, rfl, (or_iff_right (Option.some_ne_none report)).symm⟩
    | _ => cases h
  | streaming seededCount =>
    cases a with
    | finished o =>
      cases h
      exact ⟨{ w with lastCtx := some o.messages }, _, rfl, rfl, List.drop_eq_drop_iff⟩
    | raised messages error =>
      cases h
      exact ⟨w, _, rfl, rfl, Iff.rfl⟩
    | _ => cases h
  | stopping => cases h
  | done => cases h

theorem SubRun.turn_of_not_produced (h : p.produced a = none) :
    (p.turn a w).world.transcripts = w.transcripts ∧ p.KeepsOwn a w := by
  obtain ⟨call, phase⟩ := p
  cases phase with
  | starting =>
    cases a with
    | started env =>
      have hno : call.rejection env = none := Option.map_eq_none_iff.mp h
      unfold SubRun.turn SubRun.KeepsOwn
      dsimp only
      rw [hno]
      exact ⟨rfl, Or.inl rfl⟩
    | _ => exact ⟨rfl, trivial⟩
  | streaming seededCount =>
    cases a with
    | finished | raised => cases h
    | _ => exact ⟨rfl, trivial⟩
  | stopping | done => cases a <;> exact ⟨rfl, trivial⟩

theorem producedBy_append (agentId other : Str) (ended : List (Str × List Message))
    (messages : List Message) :
    producedBy agentId (ended ++ [(other, messages)]) =
      producedBy agentId ended ++ if other = agentId then messages else [] := by
  unfold producedBy
  rw [List.filter_append, List.map_append, List.flatten_append]
  split_ifs with h
  · simp [h]
  · simp [h]

/-! ### Steps -/

/-- Where the transcripts were right, a run that ends leaves them right exactly if it appends what
it has produced. -/
theorem attributed_finishRun {rows : List Transcript} {ended : List (Str × List Message)}
    {report : Report} {messages : List Message}
    (hrows : ∀ r ∈ rows, r.messages = initialMessages init r.agentId ++ producedBy r.agentId ended)
    (hmem : agentId ∈ rows.map Transcript.agentId) :
    (∀ r ∈ rows.map (Rows.update Transcript.agentId agentId (SubRun.finishedRow w report)),
        r.messages = initialMessages init r.agentId ++
          producedBy r.agentId (ended ++ [(agentId, messages)])) ↔ w.appended = messages := by
  have hrow : ∀ r ∈ rows, (Rows.update Transcript.agentId agentId
      (SubRun.finishedRow w report) r).messages = initialMessages init r.agentId ++
        producedBy r.agentId (ended ++ [(agentId, messages)]) ↔
      (r.agentId = agentId → w.appended = messages) := by
    intro r hr
    rw [producedBy_append, ← List.append_assoc, ← hrows r hr]
    by_cases hid : r.agentId = agentId
    · rw [Rows.update, if_pos hid, if_pos hid.symm]
      exact (List.append_right_inj r.messages).trans (imp_iff_right hid).symm
    · rw [update_of_ne hid, if_neg (Ne.symm hid), List.append_nil]
      exact iff_of_true rfl fun h => absurd h hid
  have hid : ∀ r, (Rows.update Transcript.agentId agentId (SubRun.finishedRow w report) r).agentId =
      r.agentId := key_update agentId (SubRun.finishedRow_agentId w report)
  constructor
  · intro h
    obtain ⟨r, hr, rfl⟩ := List.mem_map.mp hmem
    have hnext := h _ (List.mem_map_of_mem hr)
    rw [hid] at hnext
    exact (hrow r hr).mp hnext rfl
  · intro h r' hr'
    obtain ⟨r, hr, rfl⟩ := List.mem_map.mp hr'
    rw [hid]
    exact (hrow r hr).mpr fun _ => h

theorem rows_resume (hp : s.pool.members[n]? = some p) :
    (runnerStep (.resume n a) s).2.rows = (p.turn a s.pool.world).world.transcripts.rows := by
  unfold RunnerState.rows runnerStep
  dsimp only
  rw [Pool.resume_of_some hp]

/-- An answer keeps the transcripts right exactly if the run that it ends keeps its own. -/
theorem attributed_resume (hs : Attributed init s) :
    Attributed init (runnerStep (.resume n a) s).2 ↔ (RunnerEvent.resume n a).KeepsOwn s := by
  rcases hp : s.pool.members[n]? with _ | p
  · have hstay : (runnerStep (.resume n a) s).2 = s := by
      unfold runnerStep RunnerState.endedBy
      dsimp only
      rw [Pool.resume_of_none hp, hp]
      exact congrArg (RunnerState.mk s.pool) (List.append_nil _)
    rw [hstay]
    refine iff_of_true hs fun p' hp' => ?_
    exact absurd (hp.symm.trans hp').symm (Option.some_ne_none p')
  · have hkeeps : (RunnerEvent.resume n a).KeepsOwn s ↔
        (s.HasTranscript p.call.agentId → p.KeepsOwn a s.pool.world) := by
      constructor
      · exact fun h => h p hp
      · intro h p' hp'
        obtain rfl := Option.some.inj (hp.symm.trans hp')
        exact h
    have hended : (runnerStep (.resume n a) s).2.ended = s.ended ++ s.endedBy n a := rfl
    unfold RunnerState.endedBy at hended
    rw [hp] at hended
    dsimp only at hended
    rw [hkeeps]
    unfold Attributed
    rw [rows_resume hp]
    rcases hproduced : p.produced a with _ | messages
    · obtain ⟨hsame, hown⟩ := SubRun.turn_of_not_produced (w := s.pool.world) hproduced
      rw [hproduced, List.append_nil] at hended
      rw [hsame, hended]
      exact iff_of_true hs fun _ => hown
    · obtain ⟨w', report, hworld, hsame, hown⟩ :=
        SubRun.turn_of_produced (w := s.pool.world) hproduced
      rw [hproduced] at hended
      rw [hworld, rows_finishRun, hsame, hended]
      dsimp only
      by_cases hrow : s.HasTranscript p.call.agentId
      · rw [if_pos hrow, imp_iff_right hrow, ← hown]
        exact attributed_finishRun hs hrow
      · have hrows : s.pool.world.transcripts.rows.map (Rows.update Transcript.agentId
            p.call.agentId (SubRun.finishedRow w' report)) = s.pool.world.transcripts.rows :=
          map_update_of_notMem hrow
        rw [if_neg hrow, List.append_nil, hrows]
        exact iff_of_true hs fun h => absurd h hrow

theorem hasTranscript_resume :
    (runnerStep (.resume n a) s).2.HasTranscript agentId ↔ s.HasTranscript agentId := by
  have hpool : (runnerStep (.resume n a) s).2.pool = s.pool.resume (fun a p w => p.turn a w) n a :=
    rfl
  unfold RunnerState.HasTranscript
  rcases hp : s.pool.members[n]? with _ | p
  · unfold RunnerState.rows
    rw [hpool, Pool.resume_of_none hp]
  · rw [rows_resume hp]
    rcases hproduced : p.produced a with _ | messages
    · rw [(SubRun.turn_of_not_produced hproduced).1]
      exact Iff.rfl
    · obtain ⟨w', report, hworld, hsame, -⟩ :=
        SubRun.turn_of_produced (w := s.pool.world) hproduced
      rw [hworld, rows_finishRun, map_key_update _ (SubRun.finishedRow_agentId w' report), hsame]
      exact Iff.rfl

theorem hasTranscript_of_mem_endedBy {e : Str × List Message} (h : e ∈ s.endedBy n a) :
    s.HasTranscript e.1 := by
  unfold RunnerState.endedBy at h
  split at h
  · exact absurd h List.not_mem_nil
  · split at h
    · split_ifs at h with hrow
      · exact List.mem_singleton.mp h ▸ hrow
      · exact absurd h List.not_mem_nil
    · exact absurd h List.not_mem_nil

theorem Recorded.resume (h : Recorded init s) : Recorded init (runnerStep (.resume n a) s).2 := by
  refine ⟨fun e he => hasTranscript_resume.mpr ?_,
    fun agentId hid => hasTranscript_resume.mpr (h.init agentId hid)⟩
  rcases List.mem_append.mp he with he | he
  · exact h.ended e he
  · exact hasTranscript_of_mem_endedBy he

theorem Recorded.nothing (h : Recorded init s) (hrow : ¬s.HasTranscript agentId) :
    initialMessages init agentId ++ producedBy agentId s.ended = [] := by
  have hinit : init.find agentId = none :=
    Table.find_eq_none_iff.mpr fun hid => hrow (h.init agentId hid)
  have hended : s.ended.filter (·.1 = agentId) = [] :=
    List.filter_eq_nil_iff.mpr fun e he hid => hrow (of_decide_eq_true hid ▸ h.ended e he)
  rw [initialMessages, hinit, producedBy, hended]
  rfl

theorem rows_call (s : RunnerState) (c : RunCall) (hex : Str) :
    (s.call c hex).ended = s.ended ∧ ((s.call c hex).rows = s.rows ∨
      ∃ agentId, ¬s.HasTranscript agentId ∧
        (s.call c hex).rows = s.rows ++ [newTranscript agentId]) := by
  unfold RunnerState.call
  dsimp only
  split_ifs with hid hrow
  · exact ⟨rfl, Or.inl rfl⟩
  · exact ⟨rfl, Or.inl rfl⟩
  · exact ⟨rfl, Or.inr ⟨_, hrow, Table.rows_put hrow⟩⟩

theorem Recorded.call (h : Recorded init s) (c : RunCall) (hex : Str) :
    Recorded init (s.call c hex) := by
  obtain ⟨hended, hrows⟩ := rows_call s c hex
  have hmem : ∀ i, s.HasTranscript i → (s.call c hex).HasTranscript i := fun i hi => by
    unfold RunnerState.HasTranscript at hi ⊢
    rcases hrows with hrows | ⟨agentId, -, hrows⟩
    · rwa [hrows]
    · rw [hrows, List.map_append]
      exact List.mem_append_left _ hi
  exact ⟨fun e he => hmem _ (h.ended e (hended ▸ he)), fun i hi => hmem i (h.init i hi)⟩

theorem attributed_call (h : Recorded init s) (hs : Attributed init s) (c : RunCall) (hex : Str) :
    Attributed init (s.call c hex) := by
  obtain ⟨hended, hrows⟩ := rows_call s c hex
  unfold Attributed
  rw [hended]
  rcases hrows with hrows | ⟨agentId, hnew, hrows⟩
  · rw [hrows]
    exact hs
  · intro r hr
    rw [hrows] at hr
    rcases mem_snoc.mp hr with hr | rfl
    · exact hs r hr
    · exact (h.nothing hnew).symm

/-! ### Runs of the runner -/

theorem recorded_step (e : RunnerEvent) (s : RunnerState) (h : Recorded init s) :
    Recorded init (runnerStep e s).2 := by
  cases e with
  | run c hex => exact h.call c hex
  | resume n a => exact h.resume

theorem attributed_step (e : RunnerEvent) (s : RunnerState) (h : Recorded init s)
    (hs : Attributed init s) : Attributed init (runnerStep e s).2 ↔ e.KeepsOwn s := by
  cases e with
  | run c hex => exact iff_of_true (attributed_call h hs c hex) trivial
  | resume n a => exact attributed_resume hs

theorem recorded_start (init : Transcripts) : Recorded init (.start init) :=
  ⟨List.forall_mem_nil _, fun _ h => h⟩

theorem attributed_start (init : Transcripts) : Attributed init (.start init) := by
  intro r hr
  have hfind : init.find r.agentId = some r := Table.find_eq_some_iff.mpr ⟨hr, rfl⟩
  rw [initialMessages, hfind]
  exact (List.append_nil r.messages).symm

/-- In every interleaving of runs, the transcripts hold the messages of their own agents throughout
exactly if every run that ends keeps its own messages. -/
theorem attributed_iff_keepsOwn (init : Transcripts) (events : List RunnerEvent) :
    (∀ n, Attributed init (run runnerStep (events.take n) (.start init)).2) ↔
      Along runnerStep RunnerEvent.KeepsOwn events (.start init) := by
  rw [run_throughout_iff recorded_step attributed_step events (recorded_start init)]
  exact and_iff_right (attributed_start init)

/-! ### A run that gets the messages of another -/

def newCall (name : String) (tools : List Str) : RunCall :=
  ⟨⟨name.toList, tools, 8, false⟩, none, [], []⟩

def noTools : Surroundings := ⟨[], 0, none, none⟩

/-- The first run ends with an answer, the second one misses a tool. -/
def missingTool : List RunnerEvent :=
  [.run (newCall "a" []) "1", .resume 0 (.started noTools),
    .resume 0 (.finished ⟨[⟨"assistant", "done"⟩], [], 0, false, false⟩),
    .run (newCall "b" ["web"]) "2", .resume 1 (.started noTools)]

/-- The answer of the first agent is in the transcript of the second. -/
theorem not_attributed :
    ¬∀ (init : Transcripts) (events : List RunnerEvent) (n : ℕ),
      Attributed init (run runnerStep (events.take n) (.start init)).2 := by
  intro h
  have hwrong := h Table.empty missingTool 5 ⟨"b-2", .failed, 0, 0, [],
    "missing tools not in parent registry: web",
    [⟨"assistant", "done"⟩]⟩ (by decide)
  exact absurd hwrong (by decide)

end AgentStudio.Subagents

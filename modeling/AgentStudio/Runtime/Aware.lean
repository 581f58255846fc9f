import AgentStudio.Library.Dict
import AgentStudio.Library.Machine
import AgentStudio.Library.Text
import Mathlib.Data.List.Dedup
import Mathlib.Data.Rat.Defs

/-!
# The aware engine

`AwareEngine` of `agent_runtime/aware_engine.py` without a model client. An event passes through
three layers: `debounce` holds back what comes too soon after the last event of its path, `astDiff`
stops a content whose syntax tree is the one it has in its cache, and the heuristic gate compares
the content with the one that the engine has in its own cache.

`judge` is what the layers are for: the content of an event, compared with that of the event of its
path that passed before it. The three memories are written at different points, the contents before
the debounce, so the engine judges so only if its memories are those of that event, or differ from
it without effect (`Remembers`, `judged_iff_remembers`).
-/

namespace AgentStudio.Aware

open PyText PyDict Machine

/-- `FileEvent`. -/
structure FileEvent where
  path : Str
  eventType : Str := "modified"
  contentHash : Str := []
  timestamp : ℚ := 0
  eventId : Str := []
deriving DecidableEq

/-- `AwareResult`. -/
structure AwareResult where
  path : Str
  tier : ℕ
  significant : Bool
  reason : Str
  event : FileEvent
deriving DecidableEq

/-- The settings of an engine, and the hash of a content: of its syntax tree, or of the content
itself if it cannot be parsed. A hash is no empty text. -/
structure Settings where
  debounceSeconds : ℚ := 5
  cacheSize : ℕ := 200
  astHash : Str → Str
  astHash_ne_nil : ∀ content, astHash content ≠ []

structure AwareEngine where
  lastEvent : List (Str × ℚ) := []
  pending : List (Str × FileEvent) := []
  astCache : List (Str × Str) := []
  contentCache : List (Str × Str) := []

/-! ### The layers -/

/-- The characters at which `splitlines` ends a line. -/
def isLineBreak (c : Char) : Bool :=
  c ∈ ['\n', '\r', '\x0b', '\x0c', '\x1c', '\x1d', '\x1e', '\u0085', '\u2028', '\u2029']

/-- `splitlines`, with the line that has been begun. -/
def splitlinesFrom (line : Str) : Str → List Str
  | [] => if line = [] then [] else [line]
  | '\r' :: '\n' :: s => line :: splitlinesFrom [] s
  | c :: s => if isLineBreak c then line :: splitlinesFrom [] s else splitlinesFrom (line ++ [c]) s

/-- `_heuristic_gate`: more than one in twenty of the lines are not in both contents. -/
def heuristicGate (old new : Str) : Bool :=
  if old = [] ∧ new ≠ [] then true
  else if new = [] then true
  else
    let oldLines := (splitlinesFrom [] old).dedup
    let newLines := (splitlinesFrom [] new).dedup
    let diff := oldLines.filter (· ∉ newLines) ++ newLines.filter (· ∉ oldLines)
    max (max oldLines.length newLines.length) 1 < 20 * diff.length

/-- `ModelGateLayer.process` without a client. -/
def gate (event : FileEvent) (old new : Str) : AwareResult :=
  let significant := heuristicGate old new
  ⟨event.path, 3, significant,
    if significant then "Heuristic gate: significant" else "Heuristic gate (no model)", event⟩

variable (cfg : Settings)

/-- An event of a path comes too soon after the last one that passed. -/
def AwareEngine.Debounces (s : AwareEngine) (now : ℚ) (path : Str) : Prop :=
  now - (s.lastEvent.lookup path).getD 0 < cfg.debounceSeconds

instance (s : AwareEngine) (now : ℚ) (path : Str) : Decidable (s.Debounces cfg now path) :=
  inferInstanceAs (Decidable (_ < _))

/-- `DebounceLayer.process`. -/
def debounce (now : ℚ) (event : FileEvent) (s : AwareEngine) : Option AwareResult × AwareEngine :=
  if s.Debounces cfg now event.path then
    (none, { s with pending := setItem event.path event s.pending })
  else
    (some ⟨event.path, 1, true, "Passed debounce window", event⟩,
      { s with
        lastEvent := setItem event.path now s.lastEvent
        pending := pop event.path s.pending })

/-- The result of an event whose content has the syntax tree of another one. -/
def unchanged (event : FileEvent) : AwareResult :=
  ⟨event.path, 2, false, "No AST change detected", event⟩

/-- `ASTDiffLayer.process`. -/
def astDiff (event : FileEvent) (content : Str) (s : AwareEngine) : AwareResult × AwareEngine :=
  let cached := s.astCache.lookup event.path
  let cache := setItem event.path (cfg.astHash content) s.astCache
  let cache := if cfg.cacheSize < cache.length then cache.tail else cache
  (if cached.getD [] ≠ [] ∧ cached = some (cfg.astHash content) then unchanged event
    else ⟨event.path, 2, true, "AST change detected", event⟩, { s with astCache := cache })

/-- `process_event`. -/
def processEvent (now : ℚ) (event : FileEvent) (content : Str) (s : AwareEngine) :
    AwareResult × AwareEngine :=
  let old := (s.contentCache.lookup event.path).getD []
  let s := if content ≠ [] then
    { s with contentCache := setItem event.path content s.contentCache } else s
  match debounce cfg now event s with
  | (none, s) => (⟨event.path, 0, false, "Debounced", event⟩, s)
  | (some _, s) =>
    if content ≠ [] then
      let (result, s) := astDiff cfg event content s
      if result.significant then (gate event old content, s) else (result, s)
    else (gate event old content, s)

/-! ### What the engine is for -/

/-- The content of an event, judged against that of the event that passed before it. -/
def judge (before : Option Str) (event : FileEvent) (content : Str) : AwareResult :=
  if before.map cfg.astHash = some (cfg.astHash content) then unchanged event
  else gate event (before.getD []) content

/-- An event with its content and the time at which it is processed. -/
structure Input where
  now : ℚ
  event : FileEvent
  content : Str

/-- An engine and, for each path, the content of the last event that passed. -/
structure Watched where
  engine : AwareEngine := {}
  passed : List (Str × Str) := []

/-- One call of `process_event`. -/
def watch (i : Input) (w : Watched) : AwareResult × Watched :=
  let (result, engine) := processEvent cfg i.now i.event i.content w.engine
  (result, ⟨engine, if w.engine.Debounces cfg i.now i.event.path then w.passed
    else setItem i.event.path i.content w.passed⟩)

/-- An event that passes with a content is judged against the one that passed before it. -/
def Judged (i : Input) (w : Watched) : Prop :=
  ¬ w.engine.Debounces cfg i.now i.event.path → i.content ≠ [] →
    (watch cfg i w).1 = judge cfg (w.passed.lookup i.event.path) i.event i.content

/-- The memories of the engine are those of the event that passed before this one, or the
difference has no effect: neither hash is that of the content, and the content is stopped as
unchanged or the gate says the same of both contents. -/
def Remembers (i : Input) (w : Watched) : Prop :=
  ¬ w.engine.Debounces cfg i.now i.event.path → i.content ≠ [] →
    let cached := w.engine.astCache.lookup i.event.path
    let before := w.passed.lookup i.event.path
    let old := (w.engine.contentCache.lookup i.event.path).getD []
    (cached = before.map cfg.astHash ∨
        cached ≠ some (cfg.astHash i.content) ∧
          before.map cfg.astHash ≠ some (cfg.astHash i.content)) ∧
      (old = before.getD [] ∨ cached = some (cfg.astHash i.content) ∨
        heuristicGate old i.content = heuristicGate (before.getD []) i.content)

variable {cfg}

/-- What the engine says of an event that passes with a content. -/
theorem fst_watch {i : Input} {w : Watched}
    (hpass : ¬ w.engine.Debounces cfg i.now i.event.path) (hcontent : i.content ≠ []) :
    (watch cfg i w).1 =
      if w.engine.astCache.lookup i.event.path = some (cfg.astHash i.content) then unchanged i.event
      else gate i.event ((w.engine.contentCache.lookup i.event.path).getD []) i.content := by
  have hpass' : ¬ AwareEngine.Debounces cfg { w.engine with
      contentCache := setItem i.event.path i.content w.engine.contentCache } i.now i.event.path :=
    hpass
  simp only [watch, processEvent, if_pos hcontent, debounce, if_neg hpass', astDiff]
  by_cases hcached : w.engine.astCache.lookup i.event.path = some (cfg.astHash i.content)
  · simp [hcached, cfg.astHash_ne_nil, unchanged]
  · simp [hcached]

theorem gate_eq_iff {event : FileEvent} {old old' new : Str} :
    gate event old new = gate event old' new ↔
      heuristicGate old new = heuristicGate old' new := by
  constructor
  · intro h
    exact congrArg AwareResult.significant h
  · intro h
    rw [gate, gate, h]

theorem gate_ne_unchanged {event : FileEvent} {old new : Str} :
    gate event old new ≠ unchanged event := by
  intro h
  have htier : 3 = 2 := congrArg AwareResult.tier h
  omega

theorem judged_iff (i : Input) (w : Watched) : Judged cfg i w ↔ Remembers cfg i w := by
  refine forall_congr' fun hpass => forall_congr' fun hcontent => ?_
  rw [fst_watch hpass hcontent, judge]
  dsimp only
  generalize w.engine.astCache.lookup i.event.path = cached
  generalize w.passed.lookup i.event.path = before
  generalize (w.engine.contentCache.lookup i.event.path).getD [] = old
  by_cases hcached : cached = some (cfg.astHash i.content) <;>
    by_cases hbefore : before.map cfg.astHash = some (cfg.astHash i.content)
  · simp [hcached, hbefore]
  · simp [hcached, hbefore, gate_ne_unchanged.symm, eq_comm]
  · simp [hcached, hbefore, gate_ne_unchanged]
  · rw [if_neg hcached, if_neg hbefore, gate_eq_iff]
    constructor
    · intro hsame
      exact ⟨Or.inr ⟨hcached, hbefore⟩, Or.inr (Or.inr hsame)⟩
    · rintro ⟨-, rfl | habsurd | hsame⟩
      · rfl
      · exact absurd habsurd hcached
      · exact hsame

/-- **The cascade.** In every run, every event that passes with a content is judged against the one
that passed before it exactly if the engine remembers that one, or as much of it as matters. -/
theorem judged_iff_remembers (is : List Input) :
    Along (watch cfg) (Judged cfg) is {} ↔ Along (watch cfg) (Remembers cfg) is {} :=
  along_congr (J := fun _ => True) (fun _ _ _ => trivial) (fun i w _ => judged_iff i w) is trivial

/-- Settings for contents that cannot be parsed. -/
def plain : Settings where
  astHash content := 'h' :: content
  astHash_ne_nil _ := List.cons_ne_nil _ _

/-- A content, another one too soon after it, and that one again later. -/
def revised : List Input :=
  [⟨10, { path := "f" }, "a"⟩, ⟨11, { path := "f" }, "b"⟩, ⟨20, { path := "f" }, "b"⟩]

/-- The change that was held back is not reported any more. -/
theorem not_judged : ¬ ∀ (cfg : Settings) (is : List Input),
    is.Pairwise (·.now ≤ ·.now) → Along (watch cfg) (Judged cfg) is {} := by
  intro h
  have hlast := (h plain revised (by decide +kernel)).2.2.1 (by decide +kernel) (by decide)
  exact absurd (congrArg AwareResult.significant hlast) (by decide +kernel)

end AgentStudio.Aware

import Mathlib.Data.List.Induction
import AgentStudio.Library.Json

/-!
# Streamed answers

The two ways in which an LLM node gets an answer (`_execute_llm_node` of
`agent_runtime/_runtime_nodes.py`): from a stream of chunks, as `chat_stream` of
`server/fusion_mlx_client.py` yields them, or at once, as `chat` returns it. `streamNode` puts the
answer together from the deltas, and calls the model again for each tool call whose arguments are no
JSON; `chatNode` takes it as it is. What a node makes of an answer is `NodeResult`: the message of
the assistant, the tool calls, and the metadata of its `THINK` event.

`Cuts r chunks` says that a server may cut the answer `r` into these chunks: content and arguments
are split anywhere, the fragments of parallel calls are interleaved, and chunks without a choice may
bring the usage. `streamNode_eq_iff` gives the condition under which both ways agree.
-/

namespace AgentStudio.Streaming

open PyText PyJson PyDict

/-! ### Answers of the server -/

abbrev UsageDict := List (Str × Json)

structure WireCall where
  id : Str
  name : Str
  arguments : Str
deriving DecidableEq

/-- The answer of a server to a call without a stream. -/
structure Completion where
  content : Str
  calls : List WireCall := []
  finishReason : Option Str := none
  usage : UsageDict := []

structure CallDelta where
  index : ℕ
  id : Option Str := none
  name : Str := []
  arguments : Str := []

/-- What a chunk says about the answer. -/
structure Choice where
  content : Str := []
  calls : List CallDelta := []
  finishReason : Option Str := none

/-- A chunk on the wire; one that has the usage only comes without a choice. -/
structure StreamData where
  choice : Option Choice := none
  usage : UsageDict := []

/-! ### The client -/

def truthyAt (d : List (Str × Json)) (key : String) : Bool :=
  ((d.lookup key.toList).map Json.truthy).getD false

/-- `_normalize_usage`. -/
def normalizeUsage (usage : UsageDict) : UsageDict :=
  if truthyAt usage "reasoning_tokens" then usage
  else
    match usage.lookup "completion_tokens_details".toList with
    | some (.obj details) =>
      if truthyAt details "reasoning_tokens" then
        setItem "reasoning_tokens".toList
          ((details.lookup "reasoning_tokens".toList).getD .null) usage
      else usage
    | _ => usage

/-- `LLMResponse`, and the `GatewayResponse` that the gateway makes of it. -/
structure ChatResponse where
  content : Str
  calls : List WireCall := []
  finishReason : Str := "stop"
  usage : UsageDict := []

/-- `chat` of the client. -/
def clientChat (r : Completion) : ChatResponse where
  content := r.content
  calls := r.calls
  finishReason := if r.finishReason.getD [] = [] then "stop" else r.finishReason.getD []
  usage := normalizeUsage r.usage

/-- `StreamChunk`; the gateway adds chunks with an error when a stream fails. -/
structure StreamChunk where
  deltaContent : Str := []
  deltaToolCalls : List CallDelta := []
  finishReason : Option Str := none
  usage : UsageDict := []
  error : Option Str := none

/-- `chat_stream` of the client on a chunk. -/
def clientChunk (data : StreamData) : StreamChunk :=
  let choice := data.choice.getD {}
  { deltaContent := choice.content
    deltaToolCalls := choice.calls
    finishReason := choice.finishReason
    usage := normalizeUsage data.usage }

/-! ### Putting a stream together -/

def CallDelta.opened (δ : CallDelta) : WireCall where
  id := δ.id.getD ("call_" ++ Nat.toDigits 10 δ.index)
  name := []
  arguments := []

def WireCall.add (call : WireCall) (δ : CallDelta) : WireCall where
  id := if δ.id.getD [] = [] then call.id else δ.id.getD []
  name := call.name ++ δ.name
  arguments := call.arguments ++ δ.arguments

/-- A fragment is added to `current_tool_calls`. -/
def addDelta (calls : List (ℕ × WireCall)) (δ : CallDelta) : List (ℕ × WireCall) :=
  setItem δ.index (((calls.lookup δ.index).getD δ.opened).add δ) calls

structure StreamState where
  content : Str := []
  calls : List (ℕ × WireCall) := []
  usage : UsageDict := []
  finishReason : Option Str := none

def StreamState.add (s : StreamState) (chunk : StreamChunk) : StreamState where
  content := s.content ++ chunk.deltaContent
  calls := chunk.deltaToolCalls.foldl addDelta s.calls
  usage := if chunk.usage = [] then s.usage else chunk.usage
  finishReason := chunk.finishReason

/-- The chunks of a stream are read, as far as an error. -/
def receive : List StreamChunk → StreamState → Except Json StreamState
  | [], s => .ok s
  | chunk :: chunks, s =>
    match chunk.error with
    | some (c :: error) => .error (.str ("chat_stream error: " ++ c :: error))
    | _ => receive chunks (s.add chunk)

/-- The arguments of a call are there, and they are no JSON. -/
def WireCall.broken (call : WireCall) : Bool :=
  call.arguments ≠ [] && (loads call.arguments).isNone

/-- Content, tool calls and usage of an answer. -/
structure Answer where
  content : Str
  calls : List WireCall
  usage : UsageDict

/-- The answer is replaced by that of another call of the model. -/
def Answer.replaced (a : Answer) (r : ChatResponse) : Answer where
  content := r.content
  calls := r.calls
  usage := if r.usage = [] then a.usage else r.usage

/-- The answers of the calls of the model for broken tool calls: `answers i` is the one for the call
at position `i`, if it does not fail. -/
def substitutes (answers : ℕ → Option ChatResponse) (calls : List WireCall) : List ChatResponse :=
  calls.zipIdx.filterMap fun c => if c.1.broken then answers c.2 else none

/-! ### The node -/

/-- `stop_reason`. -/
inductive StopReason
  | toolUse
  | maxTokens
  | endTurn
deriving DecidableEq

structure AssistantMessage where
  content : Str
  toolCalls : List WireCall
  usage : UsageDict

structure NodeResult where
  message : AssistantMessage
  toolCalls : List WireCall
  usage : UsageDict
  stopReason : StopReason

/-- The stop reason of an answer with these tool calls. -/
def stopReason (calls : List WireCall) (finish : Str) : StopReason :=
  if calls ≠ [] then .toolUse
  else if finish = "length" then .maxTokens
  else .endTurn

/-- The end of the node; `structured` is what its schema makes of a content. -/
def finishNode (structured : Str → Str) (a : Answer) (finish : Str) : NodeResult where
  message := ⟨structured a.content, a.calls, a.usage⟩
  toolCalls := a.calls
  usage := a.usage
  stopReason := stopReason a.calls finish

def streamNode (structured : Str → Str) (answers : ℕ → Option ChatResponse)
    (chunks : List StreamChunk) : Except Json NodeResult :=
  match receive chunks {} with
  | .error e => .error e
  | .ok s =>
    let calls := values s.calls
    let a := (substitutes answers calls).foldl Answer.replaced ⟨s.content, calls, s.usage⟩
    .ok (finishNode structured a (s.finishReason.getD []))

def chatNode (structured : Str → Str) (r : ChatResponse) : Except Json NodeResult :=
  if r.finishReason = "error" ∧ truthyAt r.usage "error" then
    .error ((r.usage.lookup "error".toList).getD .null)
  else .ok (finishNode structured ⟨r.content, r.calls, r.usage⟩ r.finishReason)

/-! ### Cutting an answer -/

def StreamData.said (d : StreamData) : Choice := d.choice.getD {}

/-- The fragments of tool calls in a stream. -/
def deltas (chunks : List StreamData) : List CallDelta := chunks.flatMap fun d => d.said.calls

def lastUsage (chunks : List StreamData) : UsageDict :=
  chunks.foldl (fun usage d => if d.usage = [] then usage else d.usage) []

/-- The fragments carry a call: the first one has its id, and name and arguments are split. -/
structure Carries (call : WireCall) (ds : List CallDelta) : Prop where
  first : ∃ δ rest, ds = δ :: rest ∧ δ.id = some call.id
  id : ∀ δ ∈ ds, δ.id = none ∨ δ.id = some call.id
  name : ds.flatMap CallDelta.name = call.name
  arguments : ds.flatMap CallDelta.arguments = call.arguments

/-- A server may cut an answer into these chunks. -/
structure Cuts (r : Completion) (chunks : List StreamData) : Prop where
  content : chunks.flatMap (fun d => d.said.content) = r.content
  index : ∀ δ ∈ deltas chunks, δ.index < r.calls.length
  calls : ∀ i call, r.calls[i]? = some call →
    Carries call ((deltas chunks).filter fun δ => δ.index = i)
  finish : chunks.filterMap (fun d => d.said.finishReason) = r.finishReason.toList
  usage : lastUsage chunks = r.usage

/-! ### The condition -/

/-- The numbers of a list in the order in which they come first. -/
def firsts (is : List ℕ) : List ℕ :=
  is.foldl (fun seen i => if i ∈ seen then seen else seen ++ [i]) []

/-- The tool calls of an answer in the order in which their first fragments arrive. -/
def arrived (r : Completion) (chunks : List StreamData) : List WireCall :=
  (firsts ((deltas chunks).map CallDelta.index)).filterMap fun i => r.calls[i]?

/-- The last usage of some answers, or the one there was. -/
def usageAfter (usage : UsageDict) (answers : List ChatResponse) : UsageDict :=
  answers.foldl (fun usage r => if r.usage = [] then usage else r.usage) usage

/-- Both ways agree on an answer: it is not an error, the last chunk has the reason if the answer is
cut off by its length, and its tool calls arrive in order with arguments that are JSON, or the model
answers the same when it is called again. -/
structure Faithful (structured : Str → Str) (answers : ℕ → Option ChatResponse) (r : Completion)
    (chunks : List StreamData) : Prop where
  sound : ¬ (r.finishReason = some "error".toList ∧
    truthyAt (normalizeUsage r.usage) "error" = true)
  order : substitutes answers (arrived r chunks) = [] → arrived r chunks = r.calls
  again : ∀ x ∈ (substitutes answers (arrived r chunks)).getLast?,
    structured x.content = structured r.content ∧ x.calls = r.calls
  usage : usageAfter (normalizeUsage r.usage) (substitutes answers (arrived r chunks)) =
    normalizeUsage r.usage
  finish : r.calls = [] → r.finishReason = some "length".toList →
    chunks.getLast?.bind (fun d => d.said.finishReason) = some "length".toList

/-! ### Reading a stream -/

theorem normalizeUsage_eq_nil_iff {usage : UsageDict} : normalizeUsage usage = [] ↔ usage = [] := by
  constructor
  · intro h
    rw [normalizeUsage] at h
    split_ifs at h with hr
    · exact h
    · split at h
      · split_ifs at h
        · cases usage with
          | nil => rfl
          | cons m ms =>
            rw [setItem] at h
            split_ifs at h
        · exact h
      · exact h
  · rintro rfl
    rfl

theorem receive_clientChunk (chunks : List StreamData) (s : StreamState) :
    receive (chunks.map clientChunk) s =
      .ok ((chunks.map clientChunk).foldl StreamState.add s) := by
  induction chunks generalizing s with
  | nil => rfl
  | cons d chunks ih => exact ih (s.add (clientChunk d))

/-- What has been read of a stream after some chunks. -/
def StreamState.after (s : StreamState) (chunks : List StreamData) : StreamState :=
  (chunks.map clientChunk).foldl StreamState.add s

@[simp] theorem StreamState.after_nil (s : StreamState) : s.after [] = s := rfl

@[simp] theorem StreamState.after_cons (s : StreamState) (d : StreamData)
    (chunks : List StreamData) : s.after (d :: chunks) = (s.add (clientChunk d)).after chunks := rfl

theorem StreamState.after_content (s : StreamState) (chunks : List StreamData) :
    (s.after chunks).content = s.content ++ chunks.flatMap fun d => d.said.content := by
  induction chunks generalizing s with
  | nil => simp
  | cons d chunks ih =>
    rw [StreamState.after_cons, ih, List.flatMap_cons, ← List.append_assoc]
    rfl

theorem StreamState.after_calls (s : StreamState) (chunks : List StreamData) :
    (s.after chunks).calls = (deltas chunks).foldl addDelta s.calls := by
  induction chunks generalizing s with
  | nil => rfl
  | cons d chunks ih =>
    have hcons : deltas (d :: chunks) = d.said.calls ++ deltas chunks := List.flatMap_cons
    rw [StreamState.after_cons, ih, hcons, List.foldl_append]
    rfl

theorem StreamState.after_usage (s : StreamState) (chunks : List StreamData) (usage : UsageDict)
    (hs : s.usage = normalizeUsage usage) :
    (s.after chunks).usage = normalizeUsage
      (chunks.foldl (fun usage d => if d.usage = [] then usage else d.usage) usage) := by
  induction chunks generalizing s usage with
  | nil => exact hs
  | cons d chunks ih =>
    rw [StreamState.after_cons, List.foldl_cons]
    refine ih _ _ ?_
    by_cases hd : d.usage = []
    · rw [if_pos hd]
      exact (if_pos (normalizeUsage_eq_nil_iff.mpr hd)).trans hs
    · rw [if_neg hd]
      exact if_neg fun h => hd (normalizeUsage_eq_nil_iff.mp h)

theorem StreamState.after_finishReason (s : StreamState) (chunks : List StreamData) :
    (s.after chunks).finishReason =
      chunks.getLast?.elim s.finishReason fun d => d.said.finishReason := by
  induction chunks generalizing s with
  | nil => rfl
  | cons d chunks ih =>
    rw [StreamState.after_cons, ih, List.getLast?_cons]
    cases chunks.getLast? <;> rfl

/-! ### The fragments of the calls -/

theorem lookup_addDelta (calls : List (ℕ × WireCall)) (δ : CallDelta) (i : ℕ) :
    (addDelta calls δ).lookup i =
      if i = δ.index then some (((calls.lookup i).getD δ.opened).add δ) else calls.lookup i := by
  rw [addDelta, lookup_setItem]
  by_cases hi : i = δ.index
  · rw [if_pos hi, if_pos hi, hi]
  · rw [if_neg hi, if_neg hi]

theorem firsts_concat (is : List ℕ) (i : ℕ) :
    firsts (is ++ [i]) = if i ∈ firsts is then firsts is else firsts is ++ [i] :=
  List.foldl_append

theorem keys_foldl_addDelta (ds : List CallDelta) :
    (ds.foldl addDelta []).map Prod.fst = firsts (ds.map CallDelta.index) := by
  induction ds using List.reverseRecOn with
  | nil => rfl
  | append_singleton ds δ ih =>
    rw [List.foldl_append, List.foldl_cons, List.foldl_nil, addDelta, keys_setItem, ih,
      List.map_append, List.map_cons, List.map_nil, firsts_concat]

def joined : List CallDelta → Option WireCall
  | [] => none
  | δ :: ds => some (ds.foldl WireCall.add (δ.opened.add δ))

theorem joined_concat (ds : List CallDelta) (δ : CallDelta) :
    joined (ds ++ [δ]) = some (((joined ds).getD δ.opened).add δ) := by
  cases ds with
  | nil => rfl
  | cons ε ds => simp [joined]

theorem lookup_foldl_addDelta (ds : List CallDelta) (i : ℕ) :
    (ds.foldl addDelta []).lookup i = joined (ds.filter fun δ => δ.index = i) := by
  induction ds using List.reverseRecOn with
  | nil => rfl
  | append_singleton ds δ ih =>
    rw [List.foldl_append, List.foldl_cons, List.foldl_nil, lookup_addDelta, ih,
      List.filter_append]
    by_cases hi : δ.index = i
    · have hδ : [δ].filter (fun δ => δ.index = i) = [δ] := by simp [hi]
      rw [if_pos hi.symm, hδ, joined_concat]
    · have hδ : [δ].filter (fun δ => δ.index = i) = [] := by simp [hi]
      rw [if_neg (Ne.symm hi), hδ, List.append_nil]

/-- Fragments are added to a call whose id they repeat or leave out. -/
theorem foldl_add {ds : List CallDelta} (call : WireCall)
    (hid : ∀ δ ∈ ds, δ.id = none ∨ δ.id = some call.id) :
    ds.foldl WireCall.add call =
      ⟨call.id, call.name ++ ds.flatMap CallDelta.name,
        call.arguments ++ ds.flatMap CallDelta.arguments⟩ := by
  induction ds generalizing call with
  | nil => simp
  | cons δ ds ih =>
    have hsame : (call.add δ).id = call.id := by
      rcases hid δ List.mem_cons_self with h | h
      · simp [WireCall.add, h]
      · simp only [WireCall.add, h, Option.getD_some]
        split_ifs <;> rfl
    rw [List.foldl_cons, ih (call.add δ) fun ε hε => by
      rw [hsame]
      exact hid ε (List.mem_cons_of_mem δ hε), hsame]
    simp [WireCall.add]

theorem Carries.joined {call : WireCall} {ds : List CallDelta} (h : Carries call ds) :
    joined ds = some call := by
  obtain ⟨δ, rest, rfl, hδ⟩ := h.first
  have hopened : δ.opened = ⟨call.id, [], []⟩ := by simp [CallDelta.opened, hδ]
  have hfold : (δ :: rest).foldl WireCall.add ⟨call.id, [], []⟩ = call := by
    rw [foldl_add ⟨call.id, [], []⟩ h.id, h.name, h.arguments]
    rfl
  rw [Streaming.joined, hopened]
  exact congrArg some hfold

variable {chunks : List StreamData} {r : Completion}

theorem Cuts.lookup (h : Cuts r chunks) (i : ℕ) :
    ((deltas chunks).foldl addDelta []).lookup i = r.calls[i]? := by
  rw [lookup_foldl_addDelta]
  cases hi : r.calls[i]? with
  | some call => exact (h.calls i call hi).joined
  | none =>
    have hnil : (deltas chunks).filter (fun δ => δ.index = i) = [] := by
      refine List.filter_eq_nil_iff.mpr fun δ hδ hδi => ?_
      have hlt := h.index δ hδ
      have hle := List.getElem?_eq_none_iff.mp hi
      have := of_decide_eq_true hδi
      omega
    rw [hnil]
    rfl

/-- The calls that are put together are those of the answer, in the order of their first fragments.
-/
theorem Cuts.values_calls (h : Cuts r chunks) :
    values ((deltas chunks).foldl addDelta []) = arrived r chunks := by
  rw [values_eq, keys_foldl_addDelta, arrived]
  exact List.filterMap_congr fun i _ => h.lookup i

/-! ### The nodes agree -/

theorem foldl_replaced (answers : List ChatResponse) (a : Answer) :
    answers.foldl Answer.replaced a =
      ⟨answers.getLast?.elim a.content ChatResponse.content,
        answers.getLast?.elim a.calls ChatResponse.calls, usageAfter a.usage answers⟩ := by
  induction answers generalizing a with
  | nil => rfl
  | cons r answers ih =>
    rw [List.foldl_cons, ih, List.getLast?_cons]
    cases answers.getLast? <;> rfl

theorem Cuts.finish_of_getLast? (h : Cuts r chunks) {reason : Str}
    (hlast : chunks.getLast?.bind (fun d => d.said.finishReason) = some reason) :
    r.finishReason = some reason := by
  obtain ⟨d, hd, hreason⟩ := Option.bind_eq_some_iff.mp hlast
  have hmem : reason ∈ chunks.filterMap fun d => d.said.finishReason :=
    List.mem_filterMap.mpr ⟨d, List.mem_of_getLast? hd, hreason⟩
  rw [h.finish] at hmem
  exact Option.mem_toList.mp hmem

theorem streamNode_eq (structured : Str → Str) (answers : ℕ → Option ChatResponse)
    (h : Cuts r chunks) :
    streamNode structured answers (chunks.map clientChunk) =
      .ok (finishNode structured
        ⟨(substitutes answers (arrived r chunks)).getLast?.elim r.content ChatResponse.content,
          (substitutes answers (arrived r chunks)).getLast?.elim (arrived r chunks)
            ChatResponse.calls,
          usageAfter (normalizeUsage r.usage) (substitutes answers (arrived r chunks))⟩
        ((chunks.getLast?.bind fun d => d.said.finishReason).getD [])) := by
  have hcontent : (StreamState.after {} chunks).content = r.content := by
    rw [StreamState.after_content, h.content]
    rfl
  have hcalls : values (StreamState.after {} chunks).calls = arrived r chunks := by
    rw [StreamState.after_calls]
    exact h.values_calls
  have husage : (StreamState.after {} chunks).usage = normalizeUsage r.usage := by
    rw [StreamState.after_usage {} chunks [] rfl]
    exact congrArg normalizeUsage h.usage
  have hfinish : (StreamState.after {} chunks).finishReason =
      chunks.getLast?.bind fun d => d.said.finishReason := by
    rw [StreamState.after_finishReason]
    cases chunks.getLast? <;> rfl
  rw [streamNode, receive_clientChunk, ← StreamState.after]
  dsimp only
  rw [hcontent, hcalls, husage, hfinish, foldl_replaced]

theorem stopReason_eq_iff (calls : List WireCall) (finish finish' : Str) :
    stopReason calls finish = stopReason calls finish' ↔
      (calls = [] → (finish = "length" ↔ finish' = "length")) := by
  by_cases hcalls : calls = []
  · rw [stopReason, stopReason, if_neg (not_not_intro hcalls), if_neg (not_not_intro hcalls),
      imp_iff_right hcalls]
    split_ifs with hf hf' hf'
    · exact iff_of_true rfl (iff_of_true hf hf')
    · exact iff_of_false not_false fun h => hf' (h.mp hf)
    · exact iff_of_false not_false fun h => hf (h.mpr hf')
    · exact iff_of_true rfl (iff_of_false hf hf')
  · rw [stopReason, stopReason, if_pos hcalls, if_pos hcalls]
    exact iff_of_true rfl fun h => absurd h hcalls

theorem finishNode_eq_iff (structured : Str → Str) (a b : Answer) (finish finish' : Str) :
    finishNode structured a finish = finishNode structured b finish' ↔
      structured a.content = structured b.content ∧ a.calls = b.calls ∧ a.usage = b.usage ∧
        (b.calls = [] → (finish = "length" ↔ finish' = "length")) := by
  constructor
  · intro h
    have hcalls : a.calls = b.calls := congrArg NodeResult.toolCalls h
    have hstop : stopReason a.calls finish = stopReason b.calls finish' :=
      congrArg NodeResult.stopReason h
    rw [hcalls] at hstop
    exact ⟨congrArg (fun n => n.message.content) h, hcalls, congrArg NodeResult.usage h,
      (stopReason_eq_iff b.calls finish finish').mp hstop⟩
  · rintro ⟨hcontent, hcalls, husage, hfinish⟩
    rw [finishNode, finishNode, hcontent, hcalls, husage,
      (stopReason_eq_iff b.calls finish finish').mpr hfinish]

theorem clientChat_finishReason_eq_iff (r : Completion) (reason : Str) (hne : reason ≠ [])
    (hstop : reason ≠ "stop") :
    (clientChat r).finishReason = reason ↔ r.finishReason = some reason := by
  obtain ⟨content, calls, finishReason, usage⟩ := r
  rcases finishReason with - | - | ⟨c, cs⟩
  · exact iff_of_false (fun h => hstop h.symm) nofun
  · exact iff_of_false (fun h => hstop h.symm) fun h => hne (Option.some.inj h).symm
  · exact ⟨congrArg some, Option.some.inj⟩

theorem eq_chatNode_iff (structured : Str → Str) (r : Completion) (n : NodeResult) :
    Except.ok n = chatNode structured (clientChat r) ↔
      ¬ (r.finishReason = some "error".toList ∧
        truthyAt (normalizeUsage r.usage) "error" = true) ∧
      n = finishNode structured ⟨r.content, r.calls, normalizeUsage r.usage⟩
        (clientChat r).finishReason := by
  have herror := clientChat_finishReason_eq_iff r "error" (by decide) (by decide)
  by_cases h : r.finishReason = some "error".toList ∧
      truthyAt (normalizeUsage r.usage) "error" = true
  · rw [chatNode, if_pos ⟨herror.mpr h.1, h.2⟩]
    exact iff_of_false nofun fun hn => hn.1 h
  · rw [chatNode, if_neg fun hf => h ⟨herror.mp hf.1, hf.2⟩, Except.ok.injEq]
    exact (and_iff_right h).symm

/-- The last chunk has the reason of an answer that is cut off, or else the answer is none. -/
theorem Cuts.length_iff (h : Cuts r chunks) :
    ((chunks.getLast?.bind fun d => d.said.finishReason).getD [] = "length" ↔
        (clientChat r).finishReason = "length") ↔
      (r.finishReason = some "length".toList →
        chunks.getLast?.bind (fun d => d.said.finishReason) = some "length".toList) := by
  have hlast : (chunks.getLast?.bind fun d => d.said.finishReason).getD [] = "length" ↔
      chunks.getLast?.bind (fun d => d.said.finishReason) = some "length".toList := by
    constructor
    · intro hf
      rcases ho : chunks.getLast?.bind fun d => d.said.finishReason with - | reason
      · rw [ho] at hf
        exact absurd hf nofun
      · rw [ho] at hf
        exact congrArg some hf
    · intro hf
      rw [hf]
      rfl
  rw [hlast, clientChat_finishReason_eq_iff r "length" (by decide) (by decide)]
  exact ⟨Iff.mpr, fun hf => ⟨h.finish_of_getLast?, hf⟩⟩

/-- The streamed node and the node without a stream make the same of an answer exactly when it is
not an error, its tool calls arrive in order with arguments that are JSON (or the model answers the
same when it is called again), and the last chunk has the reason of an answer that is cut off. -/
theorem streamNode_eq_iff (structured : Str → Str) (answers : ℕ → Option ChatResponse)
    (r : Completion) (chunks : List StreamData) (h : Cuts r chunks) :
    streamNode structured answers (chunks.map clientChunk) = chatNode structured (clientChat r) ↔
      Faithful structured answers r chunks := by
  rw [streamNode_eq structured answers h, eq_chatNode_iff, finishNode_eq_iff, h.length_iff]
  rcases hlast : (substitutes answers (arrived r chunks)).getLast? with - | x
  · -- No tool call is broken, so the answer is what has been put together.
    have hnil := List.getLast?_eq_none_iff.mp hlast
    constructor
    · rintro ⟨hsound, -, hcalls, husage, hfinish⟩
      refine ⟨hsound, fun _ => hcalls, fun x hx => ?_, husage, hfinish⟩
      rw [hlast] at hx
      exact absurd hx nofun
    · intro hf
      exact ⟨hf.sound, rfl, hf.order hnil, hf.usage, hf.finish⟩
  · -- The last call of the model gives the answer.
    have hne : substitutes answers (arrived r chunks) ≠ [] := by
      intro hnil
      rw [hnil] at hlast
      exact absurd hlast nofun
    constructor
    · rintro ⟨hsound, hcontent, hcalls, husage, hfinish⟩
      refine ⟨hsound, fun hnil => absurd hnil hne, fun y hy => ?_, husage, hfinish⟩
      rw [hlast] at hy
      obtain rfl := Option.some.inj hy
      exact ⟨hcontent, hcalls⟩
    · intro hf
      have hx := hf.again x hlast
      exact ⟨hf.sound, hx.1, hx.2, hf.usage, hf.finish⟩

/-! ### Examples -/

def cutOff : Completion where
  content := "ab"
  finishReason := some "length".toList

/-- The reason comes before the last chunk, which has the usage only. -/
def cutOffChunks : List StreamData :=
  [{ choice := some { content := "a" } },
    { choice := some { content := "b".toList, finishReason := some "length".toList } },
    { choice := none }]

theorem cuts_cutOff : Cuts cutOff cutOffChunks where
  content := rfl
  index := nofun
  calls := nofun
  finish := rfl
  usage := rfl

/-- The trailing chunk hides the reason of a stream. -/
theorem streams_disagree : ¬ ∀ (structured : Str → Str) (answers : ℕ → Option ChatResponse)
    (r : Completion) (chunks : List StreamData), Cuts r chunks →
      streamNode structured answers (chunks.map clientChunk) =
        chatNode structured (clientChat r) := by
  intro h
  have hsame := h id (fun _ => none) cutOff cutOffChunks cuts_cutOff
  have hstop : StopReason.endTurn = StopReason.maxTokens :=
    congrArg NodeResult.stopReason (Except.ok.inj hsame)
  exact absurd hstop nofun

/-- Two parallel calls whose fragments are interleaved. -/
def twoCalls : Completion where
  content := []
  calls := [⟨"x", "f", "1"⟩, ⟨"y", "g", []⟩]
  finishReason := some "tool_calls".toList

/-- The fragments of the first call enclose that of the second one. -/
def twoCallsChunks : List StreamData :=
  [{ choice := some { calls := [{ index := 0, id := some "x".toList, name := "f".toList }] } },
    { choice := some { calls := [{ index := 1, id := some "y".toList, name := "g".toList },
        { index := 0, arguments := "1" }] } },
    { choice := some { finishReason := some "tool_calls".toList } }]

theorem cuts_twoCalls : Cuts twoCalls twoCallsChunks where
  content := rfl
  index := by decide
  calls i call hcall := by
    rcases i with - | - | i
    · obtain rfl := Option.some.inj hcall
      exact ⟨⟨_, _, rfl, rfl⟩, by decide, rfl, rfl⟩
    · obtain rfl := Option.some.inj hcall
      exact ⟨⟨_, _, rfl, rfl⟩, by decide, rfl, rfl⟩
    · exact absurd hcall nofun
  finish := rfl
  usage := rfl

/-- Interleaved fragments are put together. -/
theorem twoCalls_agree :
    streamNode id (fun _ => none) (twoCallsChunks.map clientChunk) =
      chatNode id (clientChat twoCalls) :=
  (streamNode_eq_iff id (fun _ => none) twoCalls twoCallsChunks cuts_twoCalls).mpr
    { sound := by decide
      order := fun _ => rfl
      again := by decide
      usage := rfl
      finish := by decide }

end AgentStudio.Streaming

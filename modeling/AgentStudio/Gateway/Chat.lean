import AgentStudio.Gateway.Breaker
import AgentStudio.Library.Machine
import AgentStudio.Runtime.Policy
import Mathlib.Data.Char
import Mathlib.Data.List.Lex
import Mathlib.Data.List.Sort

/-!
# The LLM gateway

`LLMGateway` of `agent_runtime/llm_gateway.py`: the registry of models, the statistics, the
circuit breaker, the default model and the default client. `route`, `getFallbackChain` and
`resolveTarget` select a model; they ask the breaker, so they also change it.

Several calls of `chat` and `chat_stream` can be under way at once. A call stops where the source
awaits: at the semaphore that bounds the requests in flight, and at a request. Between two stops
it runs alone. So a `State` holds the calls under way, each at its `Stage`, the calls that wait
at the semaphore in the order of their arrival, and what was sent and answered; an `Event` is
what makes a call go on. The clock is read once between two stops. A call to a model without a
client library (`Outside.installed`) returns a stub and sends nothing.

What a request carries besides the model and the messages (tools, temperature, token limits) goes
through `chat` unchanged and is left out, as are the tool calls and the usage of an answer.
-/

namespace AgentStudio.Gateway

open PyText PyDict

/-! ### Data -/

/-- `ModelConfig`. -/
structure ModelConfig where
  name : Str
  provider : Str := "local"
  baseUrl : Str
  apiKey : Str := []
  priority : ℤ := 0
  contextLength : ℤ := 4096
  capabilities : List Str := ["chat"]
deriving DecidableEq

/-- `ModelStats`. -/
structure ModelStats where
  requests : ℕ := 0
  successes : ℕ := 0
  failures : ℕ := 0
  totalLatency : ℚ := 0
  lastRequestAt : ℚ := 0
deriving DecidableEq

/-- A message of a conversation: role, content and the ids of its tool calls. -/
structure Message where
  role : Str
  content : Str
  toolCalls : List Str
deriving DecidableEq

structure Client where
  baseUrl : Str
  apiKey : Str
deriving DecidableEq

structure LLMResponse where
  content : Str
  finishReason : Str
deriving DecidableEq

/-- `GatewayResponse`; `error` is the member of that name in `usage`. -/
structure GatewayResponse where
  content : Str := []
  finishReason : Str := "stop"
  model : Str := []
  fallbackFrom : Str := []
  error : Option Str := none
deriving DecidableEq

def errorResponse (model error : Str) : GatewayResponse :=
  { finishReason := "error", model, error := some error }

/-- What the gateway gets from outside: the digest of a text, and whether the client library can
be imported. -/
structure Outside where
  sha256 : Str → Str
  installed : Bool

/-- `LLMGateway`. -/
structure LLMGateway where
  models : List (Str × ModelConfig) := []
  stats : List (Str × ModelStats) := []
  cb : ModelCircuitBreaker := {}
  defaultModel : Str := []
  defaultClient : Option Client := none
  /-- `compactor.reactive_strip`. -/
  compactor : Option (List Message → List Message) := none
  compactGeneration : ℕ := 0
  /-- The bound of the semaphore. -/
  llmConcurrencyLimit : Option ℕ := some 8

/-- The words by which an error says that the context is too long. -/
def contextMarkers : List Str :=
  ["context_length", "context length", "maximum context",
    "too long", "too many tokens", "prompt is too long"]

/-- `_is_context_too_long`. -/
def isContextTooLong (exc : Str) : Bool :=
  contextMarkers.any fun m => m <:+: Runtime.lowerAll exc

/-- `_surface_generation`. -/
def surfaceGeneration (o : Outside) (messages : List Message) : ℕ × Str :=
  (messages.length,
    o.sha256 (messages.flatMap fun m => m.role ++ m.content ++ m.toolCalls.flatten))

/-- The order in which `route` prefers models: high priority first, then by name. -/
def Preferred (a b : ModelConfig) : Prop :=
  b.priority < a.priority ∨ b.priority = a.priority ∧ a.name ≤ b.name

instance : DecidableRel Preferred := fun _ _ => inferInstanceAs (Decidable (_ ∨ _))

namespace LLMGateway

/-! ### Registration -/

/-- `register_model`. -/
def registerModel (config : ModelConfig) (g : LLMGateway) : LLMGateway :=
  { g with
    models := setItem config.name config g.models
    stats := if (g.stats.lookup config.name).isNone then setItem config.name {} g.stats
      else g.stats }

/-- `register_default_local`. -/
def registerDefaultLocal (name baseUrl : Str) (priority : ℤ) (g : LLMGateway) : LLMGateway :=
  { g.registerModel ⟨name, "local", baseUrl, [], priority, 4096,
      ["chat", "completion"]⟩ with defaultModel := name }

/-- `unregister_model`. -/
def unregisterModel (name : Str) (g : LLMGateway) : LLMGateway :=
  { g with models := pop name g.models }

/-- `_record_success`. -/
def recordSuccess (model : Str) (latency now : ℚ) (g : LLMGateway) : LLMGateway :=
  { g with
    cb := g.cb.recordSuccess model
    stats := match g.stats.lookup model with
      | none => g.stats
      | some s => setItem model { s with
          requests := s.requests + 1
          successes := s.successes + 1
          totalLatency := s.totalLatency + latency
          lastRequestAt := now } g.stats }

/-- `_record_failure`. -/
def recordFailure (model : Str) (latency now : ℚ) (g : LLMGateway) : LLMGateway :=
  { g with
    cb := g.cb.recordFailure model now
    stats := match g.stats.lookup model with
      | none => g.stats
      | some s => setItem model { s with
          requests := s.requests + 1
          failures := s.failures + 1
          totalLatency := s.totalLatency + latency
          lastRequestAt := now } g.stats }

/-! ### Selection -/

/-- What `route` asks of a model besides that its circuit is closed. -/
def wants (capability : Str) (minContext : ℤ) (exclude : List Str) (m : ModelConfig) : Bool :=
  (capability = [] ∨ capability ∈ m.capabilities) ∧ minContext ≤ m.contextLength ∧
    m.name ∉ exclude

/-- The candidates of `route` among some models, and the breaker that was asked for each. -/
def candidates (now : ℚ) (want : ModelConfig → Bool) :
    List ModelConfig → ModelCircuitBreaker → List ModelConfig × ModelCircuitBreaker
  | [], cb => ([], cb)
  | m :: ms, cb =>
    let (isOpen, cb) := cb.isOpen m.name now
    let (rest, cb) := candidates now want ms cb
    (if !isOpen && want m then m :: rest else rest, cb)

/-- The model that `route` makes up from the default model. -/
def defaultConfig (g : LLMGateway) : ModelConfig where
  name := g.defaultModel
  baseUrl := (g.defaultClient.map Client.baseUrl).getD []
  apiKey := (g.defaultClient.map Client.apiKey).getD []
  contextLength := 8192
  capabilities := []

/-- `route`. -/
def route (capability : Str) (minContext : ℤ) (exclude : List Str) (now : ℚ) (g : LLMGateway) :
    Option ModelConfig × LLMGateway :=
  let (found, cb) :=
    candidates now (wants capability minContext exclude) (g.models.map Prod.snd) g.cb
  let g := { g with cb }
  match found.insertionSort Preferred with
  | m :: _ => (some m, g)
  | [] =>
    if g.defaultModel ≠ [] ∧ g.defaultModel ∉ exclude then (some g.defaultConfig, g)
    else (none, g)

/-- The loop of `get_fallback_chain`, with the number of models that may still be added. -/
def extendChain (capability : Str) (minContext : ℤ) (now : ℚ) :
    ℕ → List Str → LLMGateway → List ModelConfig × LLMGateway
  | 0, _, g => ([], g)
  | n + 1, exclude, g =>
    match g.route capability minContext exclude now with
    | (none, g) => ([], g)
    | (some m, g) =>
      let (chain, g) := extendChain capability minContext now n (m.name :: exclude) g
      (m :: chain, g)

/-- `get_fallback_chain`. -/
def getFallbackChain (capability : Str) (minContext : ℤ) (now : ℚ) (g : LLMGateway) :
    List ModelConfig × LLMGateway :=
  extendChain capability minContext now (max g.models.length 1 + 1) [] g

def named (model : Str) (g : LLMGateway) : Option ModelConfig :=
  if model = [] then none else g.models.lookup model

/-- `_resolve_target`. -/
def resolveTarget (model capability : Str) (now : ℚ) (g : LLMGateway) :
    Option ModelConfig × LLMGateway :=
  let passOn (g : LLMGateway) : Option ModelConfig × LLMGateway :=
    if model ≠ [] ∧ model ≠ "default" ∧ g.defaultClient.isSome then (none, g)
    else g.route capability 0 [] now
  match g.named model with
  | none => passOn g
  | some config =>
    let (isOpen, cb) := g.cb.isOpen config.name now
    let g := { g with cb }
    if isOpen then passOn g else (some config, g)

/-- The name under which the default client is asked. -/
def resolvedModel (g : LLMGateway) (model : Str) : Str :=
  if model = [] ∨ model = "default" then g.defaultModel else model

/-- The messages of the retry after a context that was too long: only if stripping them changed
their surface. -/
def reactiveRetry (o : Outside) (exc : Str) (messages : List Message) (g : LLMGateway) :
    Option (List Message) :=
  match g.compactor with
  | none => none
  | some reactiveStrip =>
    let retryMessages := reactiveStrip messages
    if isContextTooLong exc ∧ surfaceGeneration o retryMessages ≠ surfaceGeneration o messages
    then some retryMessages else none

/-! ### The synchronous wrapper -/

/-- The loop of `execute` over the fallback chain. The `n`-th call of a model returns or fails
at a time, as `calls n` says. -/
def executeFallbacks (target : Str) (calls : ℕ → Bool × ℚ) :
    List ModelConfig → ℕ → ℚ → LLMGateway → LLMGateway
  | [], _, _, g => g
  | f :: rest, n, now, g =>
    if f.name = target then executeFallbacks target calls rest n now g
    else
      let (returned, time) := calls n
      if returned then g.recordSuccess f.name (time - now) time
      else executeFallbacks target calls rest (n + 1) time
        (g.recordFailure f.name (time - now) time)

/-- `execute`: its effect on the gateway. -/
def execute (model capability : Str) (calls : ℕ → Bool × ℚ) (now : ℚ) (g : LLMGateway) :
    LLMGateway :=
  let (target, g) := match g.named model with
    | some config => (some config, g)
    | none => g.route capability 0 [] now
  match target with
  | none => g
  | some target =>
    let (returned, time) := calls 0
    if returned then g.recordSuccess target.name (time - now) time
    else
      let (chain, g) :=
        (g.recordFailure target.name (time - now) time).getFallbackChain capability 0 time
      executeFallbacks target.name calls chain 1 time g

end LLMGateway

/-! ### Calls under way -/

/-- Where a call of `chat` stands. -/
inductive Stage
  /-- At the model that was selected. -/
  | primary (target : ModelConfig) (start : ℚ)
  /-- At the same model again, with stripped messages. -/
  | retry (target : ModelConfig) (start : ℚ) (exc : Str) (retryMessages : List Message)
  /-- At a model of the fallback chain, before the rest of the chain. -/
  | fallback (target : ModelConfig) (exc : Str) (fallback : ModelConfig)
      (rest : List ModelConfig) (fbStart : ℚ)
  /-- At the default client; the model is resolved when the request is sent. -/
  | direct (resolved : Str)
  /-- A call of `chat_stream`, which shares the semaphore. -/
  | stream
deriving DecidableEq

/-- A call of `chat` or `chat_stream`. -/
structure Chat where
  messages : List Message
  model : Str
  capability : Str
  stage : Stage
deriving DecidableEq

/-- A request that `chat` sent, with the breaker at that moment. -/
structure Request where
  chat : ℕ
  stage : Stage
  model : Str
  messages : List Message
  time : ℚ
  circuit : ModelCircuitBreaker
deriving DecidableEq

/-- The gateway, the calls under way, and what was sent and answered. -/
structure State where
  gateway : LLMGateway
  chats : List (ℕ × Chat) := []
  waiters : List ℕ := []
  active : ℕ := 0
  nextId : ℕ := 0
  requests : List Request := []
  responses : List (ℕ × GatewayResponse) := []

inductive Event
  | chat (messages : List Message) (model capability : Str)
  | chatStream (messages : List Message) (model capability : Str)
  /-- A request returns or raises. -/
  | reply (id : ℕ) (result : Except Str LLMResponse)
  /-- The first waiter gets the slot that is free. -/
  | dispatch
  | cancel (id : ℕ)
  | route (capability : Str) (minContext : ℤ) (exclude : List Str)
  | getFallbackChain (capability : Str) (minContext : ℤ)
  | execute (model capability : Str) (calls : ℕ → Bool × ℚ)
  | registerModel (config : ModelConfig)
  | registerDefaultLocal (name baseUrl : Str) (priority : ℤ)
  | unregisterModel (name : Str)
  | setDefaultClient (client : Option Client)
  | setDefaultModel (name : Str)
  | setCompactor (compactor : Option (List Message → List Message))

namespace State

def respond (id : ℕ) (response : GatewayResponse) (s : State) : State :=
  { s with chats := pop id s.chats, responses := s.responses ++ [(id, response)] }

/-- A slot of the semaphore is free for a call that arrives. -/
def FreeSlot (s : State) : Prop :=
  match s.gateway.llmConcurrencyLimit with
  | none => True
  | some limit => s.waiters = [] ∧ s.active < limit

instance (s : State) : Decidable s.FreeSlot := by
  unfold FreeSlot
  split <;> infer_instance

/-- A call to a model reaches it, through the default client or through one of its own. -/
def Reaches (o : Outside) (s : State) (config : ModelConfig) : Prop :=
  s.gateway.defaultClient.isSome ∧ config.provider = "local" ∨ o.installed

instance (o : Outside) (s : State) (config : ModelConfig) : Decidable (s.Reaches o config) :=
  inferInstanceAs (Decidable (_ ∨ _))

/-- A call that holds a slot sends a request and waits for the answer. -/
def send (id : ℕ) (c : Chat) (model : Str) (messages : List Message) (now : ℚ) (s : State) :
    State :=
  { s with
    chats := setItem id c s.chats
    active := s.active + 1
    requests := s.requests ++ [⟨id, c.stage, model, messages, now, s.gateway.cb⟩] }

def succeeded (id : ℕ) (c : Chat) (r : LLMResponse) (now : ℚ) (s : State) : State :=
  match c.stage with
  | .primary target start | .retry target start _ _ =>
    { s with gateway := s.gateway.recordSuccess target.name (now - start) now }.respond id
      ⟨r.content, r.finishReason, target.name, [], none⟩
  | .fallback target _ fallback _ fbStart =>
    { s with gateway := s.gateway.recordSuccess fallback.name (now - fbStart) now }.respond id
      ⟨r.content, r.finishReason, fallback.name, target.name, none⟩
  | .direct resolved => s.respond id ⟨r.content, r.finishReason, resolved, [], none⟩
  | .stream => { s with chats := pop id s.chats }

/-- The answer of a model that cannot be called. -/
def stub (config : ModelConfig) : LLMResponse :=
  ⟨"[stub response from " ++ config.name ++ "]", "stop"⟩

/-- `_call_model_async_inner`, up to the request. -/
def callModel (o : Outside) (id : ℕ) (c : Chat) (config : ModelConfig) (messages : List Message)
    (now : ℚ) (s : State) : State :=
  if s.Reaches o config then s.send id c config.name messages now
  else s.succeeded id c (stub config) now

/-- A call that holds a slot goes on to its request. -/
def acquired (o : Outside) (id : ℕ) (c : Chat) (now : ℚ) (s : State) : State :=
  match c.stage with
  | .primary target _ => s.callModel o id c target c.messages now
  | .retry target _ _ retryMessages => s.callModel o id c target retryMessages now
  | .fallback _ _ fallback _ _ => s.callModel o id c fallback c.messages now
  | .direct _ =>
    let resolved := s.gateway.resolvedModel c.model
    if s.gateway.defaultClient.isSome then
      s.send id { c with stage := .direct resolved } resolved c.messages now
    else s.respond id
      (errorResponse resolved "'NoneType' object has no attribute 'chat'")
  | .stream => { s with chats := setItem id c s.chats, active := s.active + 1 }

/-- `sem.acquire()`: the call goes on at once or waits for a slot. -/
def acquire (o : Outside) (id : ℕ) (c : Chat) (now : ℚ) (s : State) : State :=
  if s.FreeSlot then s.acquired o id c now
  else { s with chats := setItem id c s.chats, waiters := s.waiters ++ [id] }

/-- The end of `chat` when the chain is exhausted: the default client, or the error. -/
def exhausted (o : Outside) (id : ℕ) (c : Chat) (target : ModelConfig) (exc : Str) (now : ℚ)
    (s : State) : State :=
  if s.gateway.defaultClient.isSome then s.acquire o id { c with stage := .direct [] } now
  else s.respond id (errorResponse target.name exc)

/-- The loop of `chat` over the fallback chain, up to the next call. -/
def nextFallback (o : Outside) (id : ℕ) (c : Chat) (target : ModelConfig) (exc : Str) (now : ℚ) :
    List ModelConfig → State → State
  | [], s => s.exhausted o id c target exc now
  | f :: rest, s =>
    if f.name = target.name then nextFallback o id c target exc now rest s
    else s.acquire o id { c with stage := .fallback target exc f rest now } now

def enterChain (o : Outside) (id : ℕ) (c : Chat) (target : ModelConfig) (exc : Str) (now : ℚ)
    (s : State) : State :=
  let (chain, g) := s.gateway.getFallbackChain c.capability 0 now
  { s with gateway := g }.nextFallback o id c target exc now chain

def failed (o : Outside) (id : ℕ) (c : Chat) (exc : Str) (now : ℚ) (s : State) : State :=
  match c.stage with
  | .primary target start =>
    let s := { s with gateway := s.gateway.recordFailure target.name (now - start) now }
    match s.gateway.reactiveRetry o exc c.messages with
    | some retryMessages =>
      { s with gateway := { s.gateway with
          compactGeneration := s.gateway.compactGeneration + 1 } }.acquire o id
        { c with stage := .retry target start exc retryMessages } now
    | none => s.enterChain o id c target exc now
  | .retry target _ exc _ => s.enterChain o id c target exc now
  | .fallback target exc fallback rest fbStart =>
    { s with gateway := s.gateway.recordFailure fallback.name (now - fbStart) now }.nextFallback
      o id c target exc now rest
  | .direct resolved => s.respond id (errorResponse resolved exc)
  | .stream => { s with chats := pop id s.chats }

/-- `chat`, up to its first stop. -/
def chat (o : Outside) (messages : List Message) (model capability : Str) (now : ℚ)
    (s : State) : State :=
  let id := s.nextId
  let (target, g) := s.gateway.resolveTarget model capability now
  let s := { s with gateway := g, nextId := id + 1 }
  match target with
  | some target => s.acquire o id ⟨messages, model, capability, .primary target now⟩ now
  | none =>
    if g.defaultClient.isSome then s.acquire o id ⟨messages, model, capability, .direct []⟩ now
    else s.respond id (errorResponse [] "No available model")

/-- `chat_stream`, up to its first stop. Without a client it ends at once. -/
def chatStream (o : Outside) (messages : List Message) (model capability : Str) (now : ℚ)
    (s : State) : State :=
  let id := s.nextId
  let (target, g) := s.gateway.resolveTarget model capability now
  let s := { s with gateway := g, nextId := id + 1 }
  let ready : Bool := match target with
    | some target => s.Reaches o target
    | none => g.defaultClient.isSome
  if ready then s.acquire o id ⟨messages, model, capability, .stream⟩ now else s

/-- The slot of a request that ended is given back. -/
def release (s : State) : State := { s with active := s.active - 1 }

def inFlight (s : State) (id : ℕ) : Option Chat :=
  if id ∈ s.waiters then none else s.chats.lookup id

/-- The call that waits first, if a slot is free for it. -/
def nextWaiter (s : State) : Option (ℕ × Chat) :=
  match s.waiters.head?, s.gateway.llmConcurrencyLimit with
  | some id, some limit => if s.active < limit then (s.chats.lookup id).map (id, ·) else none
  | _, _ => none

/-- A call is cancelled, at the semaphore or at its request. -/
def cancel (id : ℕ) (s : State) : State :=
  match s.chats.lookup id with
  | none => s
  | some _ =>
    let s := if id ∈ s.waiters then { s with waiters := s.waiters.erase id } else s.release
    { s with chats := pop id s.chats }

/-- One step at a time. An event that cannot happen changes nothing. -/
def step (o : Outside) (now : ℚ) (e : Event) (s : State) : State :=
  match e with
  | .chat messages model capability => s.chat o messages model capability now
  | .chatStream messages model capability => s.chatStream o messages model capability now
  | .reply id result =>
    match s.inFlight id, result with
    | none, _ => s
    | some c, .ok r => s.release.succeeded id c r now
    | some c, .error exc => s.release.failed o id c exc now
  | .dispatch =>
    match s.nextWaiter with
    | none => s
    | some (id, c) => { s with waiters := s.waiters.tail }.acquired o id c now
  | .cancel id => s.cancel id
  | .route capability minContext exclude =>
    { s with gateway := (s.gateway.route capability minContext exclude now).2 }
  | .getFallbackChain capability minContext =>
    { s with gateway := (s.gateway.getFallbackChain capability minContext now).2 }
  | .execute model capability calls =>
    { s with gateway := s.gateway.execute model capability calls now }
  | .registerModel config => { s with gateway := s.gateway.registerModel config }
  | .registerDefaultLocal name baseUrl priority =>
    { s with gateway := s.gateway.registerDefaultLocal name baseUrl priority }
  | .unregisterModel name => { s with gateway := s.gateway.unregisterModel name }
  | .setDefaultClient client => { s with gateway := { s.gateway with defaultClient := client } }
  | .setDefaultModel name => { s with gateway := { s.gateway with defaultModel := name } }
  | .setCompactor compactor => { s with gateway := { s.gateway with compactor } }

def machine (o : Outside) (i : ℚ × Event) (s : State) : Unit × State := ((), s.step o i.1 i.2)

/-- A gateway that was just made. -/
def start (defaultModel : Str) (compactor : Option (List Message → List Message))
    (limit : Option ℕ) : State where
  gateway := { defaultModel, compactor, llmConcurrencyLimit := limit }

end State

end AgentStudio.Gateway

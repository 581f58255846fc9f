import AgentStudio.Library.Json

/-!
# The toolset of a subagent run

What `SubAgentRunner` of `agent_runtime/subagent.py` gives a run: `buildRegistry` is the registry
that `_build_registry` fills from the parent's, by the list of tools in the `SubAgentSpec`, the
patterns of `disallowed_tools` and the servers of `mcp_servers`. `Daemon.run` is the run as far as
its limits go; it does not begin if a tool is missing, if the runner is itself inside a subagent, or
if an exception is raised on the way.

The lists of a specification hold JSON values, as the request has them. Where a value that cannot be
a key meets a dictionary, and where a pattern is no text, Python raises a `TypeError`.
-/

namespace AgentStudio.Api

open PyText PyJson PyDict

abbrev Members := List (Str × Json)

/-! ### Patterns -/

/-- A part of a pattern of `fnmatch`. -/
inductive Glob
  | star
  | one (test : Char → Bool)

/-- A character is in a set: ranges and single characters. -/
def inSet (c : Char) : Str → Bool
  | x :: '-' :: y :: set => (x ≤ c && c ≤ y) || inSet c set
  | x :: set => c = x || inSet c set
  | [] => false

def inBrackets (set : Str) (c : Char) : Bool :=
  match set with
  | '!' :: set => !inSet c set
  | set => inSet c set

/-- The set that a bracket opens, and what follows it. A closing bracket that comes first is a
member of the set. -/
def closeSet (p : Str) : Option (Str × Str) :=
  let neg := if p.head? = some '!' then 1 else 0
  let begun := if (p.drop neg).head? = some ']' then neg + 1 else neg
  let rest := p.drop begun
  if ']' ∈ rest then
    some (p.take begun ++ rest.takeWhile (· ≠ ']'), (rest.dropWhile (· ≠ ']')).drop 1)
  else none

/-- The parts of a pattern, read with some fuel. -/
def globs : ℕ → Str → List Glob
  | 0, _ => []
  | _ + 1, [] => []
  | n + 1, c :: p =>
    if c = '*' then .star :: globs n p
    else if c = '?' then .one (fun _ => true) :: globs n p
    else if c = '[' then
      match closeSet p with
      | none => .one (· = '[') :: globs n p
      | some (set, rest) => .one (inBrackets set) :: globs n rest
    else .one (· = c) :: globs n p

def globMatch : List Glob → Str → Bool
  | [], s => s.isEmpty
  | .star :: ps, s => s.tails.any (globMatch ps)
  | .one _ :: _, [] => false
  | .one test :: ps, c :: s => test c && globMatch ps s

/-- `fnmatch.fnmatch`. -/
def fnmatch (name pattern : Str) : Bool := globMatch (globs pattern.length pattern) name

/-- `text.split("__", 1)[0]`. -/
def beforeDunder : Str → Str
  | '_' :: '_' :: _ => []
  | c :: s => c :: beforeDunder s
  | [] => []

/-- `"mcp__"`. -/
def mcpPrefix : Str := "mcp__"

/-- A tool of the parent; the server is empty if it has none. -/
structure Tool where
  name : Str
  mcpServer : Str := []
deriving DecidableEq

/-- What `_denied_by_patterns` does with a pattern that is not empty. -/
def Tool.deniedBy (t : Tool) (pattern : Str) : Bool :=
  pattern = t.name || fnmatch t.name pattern ||
    (mcpPrefix.isPrefixOf pattern &&
      let server := beforeDunder (pattern.drop mcpPrefix.length)
      (t.mcpServer ≠ [] && t.mcpServer = server) ||
        (mcpPrefix ++ server ++ "__").isPrefixOf t.name ||
        (server ++ ":").isPrefixOf t.name)

/-- `_denied_by_patterns`: a pattern that is no text raises a `TypeError` when its turn comes. -/
def Tool.deniedByPatterns (t : Tool) : List Json → Option Bool
  | [] => some false
  | p :: ps =>
    if p.truthy = false then t.deniedByPatterns ps
    else
      match p with
      | .str pattern => if t.deniedBy pattern then some true else t.deniedByPatterns ps
      | _ => none

/-- `_server_allowed`, where servers are given. -/
def Tool.serverAllowed (t : Tool) (servers : List Json) : Bool :=
  servers.isEmpty || t.mcpServer = [] || servers.any fun s => decodeStr s = some t.mcpServer

/-! ### Specifications -/

/-- The fields of a `SubAgentSpec` on which the tools and the limits of a run depend. -/
structure SubAgentSpec where
  tools : List Json
  maxTurns : ℤ
  budgetTokens : ℤ
  disallowedTools : List Json
  mcpServers : List Json

/-- `list(value or [])`, where it raises no error. -/
def listOf (value : Json) : Option (List Json) :=
  if value.truthy then
    match value with
    | .arr items => some items
    | .str s => some (s.map fun c => .str [c])
    | .obj ms => some (ms.map fun m => .str m.1)
    | _ => none
  else some []

/-- `data.get(key, default)`. -/
def getD (data : Members) (key : String) (default : Json) : Json :=
  (data.lookup key.toList).getD default

/-- `SubAgentSpec.from_dict`, where it raises no error. -/
def SubAgentSpec.fromDict (data : Members) : Option SubAgentSpec := do
  let tools ← listOf (getD data "tools" .null)
  let maxTurns ← pyInt (getD data "max_turns" (.num 8))
  let budgetTokens ← pyInt (getD data "budget_tokens" (.num 0))
  let disallowedTools ← listOf (getD data "disallowed_tools" (getD data "disallowedTools" .null))
  let mcpServers ← listOf (getD data "mcp_servers" (getD data "mcpServers" .null))
  let _ ← listOf (getD data "skills" .null)
  some { tools, maxTurns, budgetTokens, disallowedTools, mcpServers }

/-! ### The registry -/

/-- `_CONTROL_FLOW_TOOL_NAMES`. -/
def controlFlowToolNames : List Str := ["register_tool", "unregister_tool"]

/-- The value can be a key of a dictionary. -/
def hashable : Json → Bool
  | .arr _ => false
  | .obj _ => false
  | _ => true

/-- What `_build_registry` does with a value of the list. -/
inductive Verdict
  | skipped
  | registered (name : Str)
  | missing

/-- What `_build_registry` does with a tool of the parent. -/
def SubAgentSpec.verdictOn (spec : SubAgentSpec) (tool : Tool) : Option Verdict := do
  let denied ← tool.deniedByPatterns spec.disallowedTools
  if denied then some .skipped
  else if tool.serverAllowed spec.mcpServers then some (.registered tool.name)
  else some .skipped

/-- One round of `_build_registry`, where it raises no exception. -/
def SubAgentSpec.verdict (spec : SubAgentSpec) (parent : List Tool) : Json → Option Verdict
  | .str name =>
    if name ∈ controlFlowToolNames then some .skipped
    else
      match parent.find? (·.name = name) with
      | none => some .missing
      | some tool => spec.verdictOn tool
  | value => if hashable value then some .missing else none

/-- `_build_registry` on a list of values: the names that are registered and the values that are
missing, where no exception is raised. -/
def buildRegistry (parent : List Tool) (spec : SubAgentSpec) :
    List Json → Option (List Str × List Json)
  | [] => some ([], [])
  | value :: values => do
    let verdict ← spec.verdict parent value
    let (names, missing) ← buildRegistry parent spec values
    match verdict with
    | .skipped => some (names, missing)
    | .registered name => some (names.insert name, missing)
    | .missing => some (names, value :: missing)

/-! ### Runs -/

/-- A run of a subagent: the tools in its registry, the cap on its turns, and its token budget. -/
structure SubRun where
  tools : List Str
  maxTurns : ℤ
  budget : Option ℤ

/-- The manifest of an agent: its tools are names or whole definitions. -/
structure AgentManifest where
  tools : List Json
  maxIterations : ℤ := 0

/-- What a request finds in the daemon: whether there is a runtime, its tools and how deep it is
inside subagents, the agents, and those whose manifest cannot be read. `str` is what `str(value)`
gives for a value that is no text. -/
structure Daemon where
  hasRuntime : Bool
  tools : List Tool
  subGraphDepth : ℕ
  agents : Str → Option AgentManifest
  unreadable : Str → Bool
  str : Json → Str

/-- `_run_inner` up to the run: it begins only if no tool is missing and the runner is not inside a
subagent. -/
def Daemon.run (d : Daemon) (spec : SubAgentSpec) : Option SubRun := do
  let (names, missing) ← buildRegistry d.tools spec spec.tools
  if missing ≠ [] ∨ 1 ≤ d.subGraphDepth then none
  else
    some {
      tools := names
      maxTurns := max 1 spec.maxTurns
      budget := if 0 < spec.budgetTokens then some spec.budgetTokens else none }

end AgentStudio.Api

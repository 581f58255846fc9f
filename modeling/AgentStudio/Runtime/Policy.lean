import AgentStudio.Library.Json
import Mathlib.Data.List.Infix

/-!
# Confirmation policies

`agent_runtime/confirmation_policy.py`: the policy of a graph that decides whether an action
waits for a confirmation, and the risk of a tool call. The risk is read off the text of the
call: `Token` and `search` are the part of regular expressions that the patterns use.

What Python knows about characters outside ASCII is a parameter, `isAlnum`.
-/

namespace AgentStudio.Runtime

open PyText PyJson

/-! ### Patterns -/

/-- A piece of a pattern: `\b`, `\s+`, or one of some texts. -/
inductive Token where
  | boundary
  | spaces
  | text (alternatives : List Str)

section Matching

variable (isAlnum : Char → Bool)

/-- `\w`. -/
def isWord (c : Char) : Bool := c.isAlphanum || c = '_' || (128 ≤ c.toNat && isAlnum c)

/-- The pattern matches at the start of a text that follows `prev`. No text of a pattern starts
with a space, so that `\s+` takes all spaces. -/
def matchAt (prev : Option Char) : List Token → Str → Bool
  | [], _ => true
  | .boundary :: tokens, s =>
    (prev.any (isWord isAlnum) != s.head?.any (isWord isAlnum)) && matchAt prev tokens s
  | .spaces :: tokens, s =>
    s.head?.any isSpace && matchAt (some ' ') tokens (s.dropWhile isSpace)
  | .text alternatives :: tokens, s =>
    alternatives.any fun t =>
      t.isPrefixOf s && matchAt (t.getLast?.or prev) tokens (s.drop t.length)

/-- `re.search`: the pattern matches somewhere in the rest of a text. -/
def search (tokens : List Token) (prev : Option Char) : Str → Bool
  | [] => matchAt isAlnum prev tokens []
  | c :: s => matchAt isAlnum prev tokens (c :: s) || search tokens (some c) s

end Matching

/-- `s.lower()`, as far as it makes ASCII letters: two other characters do. -/
def lowerAll (s : Str) : Str :=
  s.flatMap fun c =>
    if c.toNat = 0x130 then ['i', Char.ofNat 0x307]
    else if c.toNat = 0x212A then ['k']
    else [c.toLower]

/-! ### Risk -/

/-- `_DESTRUCTIVE_PATTERNS`. -/
def destructivePatterns : List (List Token) :=
  [[.boundary, .text ["rm"], .spaces, .text ["-rf"], .boundary],
    [.boundary, .text ["drop"], .spaces, .text ["table", "database"],
      .boundary],
    [.boundary, .text ["truncate"], .spaces, .text ["table"], .boundary],
    [.boundary, .text ["mkfs"], .boundary],
    [.boundary, .text ["dd"], .spaces, .text ["if="]],
    [.boundary, .text ["git"], .spaces, .text ["push"], .spaces,
      .text ["--force"], .boundary],
    [.boundary, .text ["shutdown"], .boundary],
    [.boundary, .text ["kill"], .spaces, .text ["-9"], .boundary]]

/-- `_NETWORK_HINTS`. -/
def networkHints : List Str :=
  ["http://", "https://", "ftp://", "ws://"]

/-- `_WRITE_TOOLS_HINTS`. -/
def writeToolsHints : List Str :=
  ["write", "create", "update", "delete", "remove",
    "exec", "terminal", "shell"]

inductive Risk where
  | readonly
  | write
  | network
  | destructive
deriving DecidableEq

namespace Risk

def score : Risk → Number
  | readonly => 0
  | write => Number.ofScaled 3 1
  | network => Number.ofScaled 6 1
  | destructive => Number.ofScaled 9 1

def text : Risk → Str
  | readonly => "0.00"
  | write => "0.30"
  | network => "0.60"
  | destructive => "0.90"

end Risk

/-- `str(v)` for the parameters that the scorer reads: texts, numbers and truth values. -/
def paramText : Json → Option Str
  | .str s => some s
  | .num n => some n.toStr
  | .bool b => some (if b then "True" else "False")
  | _ => none

/-- `score_tool_risk`. -/
def scoreToolRisk (isAlnum : Char → Bool) (toolName : Str) (params : Dict)
    (readonly : Option Bool) : Risk :=
  let text := [' '].intercalate (params.members.filterMap fun m => paramText m.2)
  let lowered := lowerAll (toolName ++ ' ' :: text)
  if destructivePatterns.any fun p => search isAlnum p none lowered then .destructive
  else if networkHints.any fun hint => hint <:+: text then .network
  else if readonly = some true then .readonly
  else if writeToolsHints.any fun hint => hint <:+: lowerAll toolName then .write
  else if readonly = some false then .write
  else .readonly

/-! ### Policies -/

/-- `TIERS`. -/
inductive Tier where
  | always
  | never
  | risk
deriving DecidableEq

def Tier.toStr : Tier → Str
  | always => "always"
  | never => "never"
  | risk => "risk"

/-- `ConfirmationPolicy`. -/
structure ConfirmationPolicy where
  tier : Tier := .risk
  riskThreshold : Number := Number.ofScaled 5 1
  toolOverrides : List (Str × Tier) := []

inductive Decision where
  | confirm
  | auto
deriving DecidableEq

def Decision.toStr : Decision → Str
  | confirm => "confirm"
  | auto => "auto"

def atLeast (score threshold : Number) : Bool :=
  threshold.mantissa * 10 ^ score.scale ≤ score.mantissa * 10 ^ threshold.scale

/-- `effective_tier`. -/
def ConfirmationPolicy.effectiveTier (p : ConfirmationPolicy) (toolName : Str) : Tier :=
  if toolName = [] then p.tier else (p.toolOverrides.lookup toolName).getD p.tier

/-- `decide`. It does not look at `requires_approval`. -/
def ConfirmationPolicy.decision (p : ConfirmationPolicy) (risk : Risk) (toolName : Str) :
    Decision :=
  match p.effectiveTier toolName with
  | .always => .confirm
  | .never => .auto
  | .risk => if atLeast risk.score p.riskThreshold then .confirm else .auto

end AgentStudio.Runtime

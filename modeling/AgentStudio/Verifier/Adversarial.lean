import AgentStudio.Library.Json

/-!
# Adversarial verification

`adversarial_verify` of `agent_runtime/verifier.py`: skeptics are asked to refute a claim, and the
claim passes if enough of them do not. The prompt asks for an object with a truth value under
`refuted`; the reply goes through `_call_llm` (`callLlm`), which reads `passed` and `score`, the
entries that the prompts of `verify` ask for.

`Reply.upholds` is an answer `refuted = false`, `Reply.vouches` is what counts as a survival: a
truthy `passed` with a `score` that is not below a half. `TalliedAs` is what the tally should be.
`tallied_iff` says when it is: when the two counts lie on the same side of the threshold. Replies
without `passed` vouch for nothing, so with them no claim passes a positive threshold.

Floats are `Float`, whose operations are those of IEEE 754. What `float` makes of a string is the
parameter `parseFloat`. The literals `NaN` and `Infinity`, which `json.loads` accepts, are not JSON
values here.
-/

namespace AgentStudio.Verifier

open PyText PyJson

/-! ### Replies -/

/-- What comes of a call of the gateway: an exception, a response, or a dictionary, of which the
content is read. -/
inductive Reply where
  | raised (error : Str)
  | response (finishReason content : Str)
  | mapping (content : Str)

/-- The content of a reply; a response that ends with `error` raises. -/
def Reply.content : Reply → Option Str
  | .raised _ => none
  | .response finishReason content => if finishReason = "error" then none else some content
  | .mapping content => some content

def fence : Str := "```"

/-- A content without blanks around it and without a fence around that: the first line goes, and the
last one if it closes the fence. -/
def unfenced (content : Str) : Str :=
  let content := strip content
  if fence.isPrefixOf content then
    let lines := content.splitOn '\n'
    let lines := if (lines.getLast?.map strip) = some fence then lines.tail.dropLast else lines.tail
    "\n".toList.intercalate lines
  else content

def Reply.data (r : Reply) : Option (List (Str × Json)) :=
  (r.content.bind fun content => loads (unfenced content)).bind decodeObj

/-! ### Results -/

/-- `VerificationResult`, without its id and its time. -/
structure VerificationResult where
  passed : Bool
  score : Float
  issues : Json
  suggestion : Json
  attempt : ℕ
  maxAttempts : ℕ
  rawResponse : Option Str

variable (parseFloat : Str → Option Float)

/-- `float` of a JSON value, where it does not raise. -/
def pyFloat : Json → Option Float
  | .num n =>
    let magnitude := Float.ofScientific n.mantissa.natAbs true n.scale
    some (if n.mantissa < 0 then -magnitude else magnitude)
  | .bool b => some (if b then 1 else 0)
  | .str s => parseFloat s
  | _ => none

/-- `data.get("passed", False)`, as a truth value. -/
def passedOf (data : List (Str × Json)) : Bool :=
  ((data.lookup "passed".toList).map Json.truthy).getD false

/-- `float(data.get("score", 0.0))`. -/
def scoreOf (data : List (Str × Json)) : Option Float :=
  match data.lookup "score".toList with
  | some v => pyFloat parseFloat v
  | none => some 0

/-- `_call_llm` for a reply of the gateway; whatever it raises is caught. -/
def callLlm (reply : Reply) (attempt maxAttempts : ℕ) : Option VerificationResult :=
  match reply.data with
  | none => none
  | some data =>
    (scoreOf parseFloat data).map fun score =>
      { passed := passedOf data
        score := score
        issues := (data.lookup "issues".toList).getD (.arr [])
        suggestion := (data.lookup "suggestion".toList).getD (.str [])
        attempt := attempt
        maxAttempts := maxAttempts
        rawResponse := reply.content.map fun content => (unfenced content).take 500 }

/-- What `_call_llm` returns without a gateway. -/
def noGateway (attempt maxAttempts : ℕ) : VerificationResult where
  passed := false
  score := 0
  issues := .arr [.str "No LLM gateway configured"]
  suggestion := .str []
  attempt := attempt
  maxAttempts := maxAttempts
  rawResponse := none

/-! ### The vote -/

inductive Verdict
  | error
  | refuted
  | survived
deriving DecidableEq

/-- An entry of `votes`. -/
structure Vote where
  voter : ℕ
  verdict : Verdict
  reason : Json

/-- What `adversarial_verify` returns. -/
structure Report where
  passes : Bool
  survived : ℕ
  refuted : ℕ
  threshold : Float
  votes : List Vote

def skepticPrompt (claim context : Str) (i : ℕ) : Str :=
  "You are skeptic #" ++ Nat.toDigits 10 (i + 1) ++
    (". Your job is to TRY TO REFUTE the following claim. Be thorough and look for flaws, " ++
      "unsupported assertions, logical errors.\n\nClaim: ").toList ++ claim ++
    "\nContext: " ++ context ++
    ("\n\nRespond with JSON: \x7b\"refuted\": true/false, " ++
      "\"reason\": \"why it is or is not refuted\"\x7d").toList

/-- `a or b` for a text as the second. -/
def orText (v : Json) (text : String) : Json := if v.truthy then v else .str text.toList

def voteOf (voter : ℕ) : Option VerificationResult → Vote
  | none => ⟨voter, .error, .str "LLM returned None"⟩
  | some r =>
    if !r.passed || decide (r.score < 0.5) then
      ⟨voter, .refuted, orText r.suggestion "Score too low"⟩
    else ⟨voter, .survived, orText r.issues "No issues found"⟩

/-- A vote counts as a survival; an error counts as a refutation. -/
def Vote.survives (v : Vote) : Bool := v.verdict = .survived

/-- The quotient of two numbers as floats, with at least one in the denominator. -/
def quotient (k n : ℕ) : Float := Float.ofNat k / Float.ofNat (max n 1)

/-- The gateway, if there is one: its reply to the prompt of each voter. -/
abbrev Gateway := Option (ℕ → Str → Reply)

def Gateway.reply (gateway : Gateway) (claim context : Str) (i : ℕ) : Option Reply :=
  gateway.map fun chat => chat i (skepticPrompt claim context i)

def Gateway.result (gateway : Gateway) (claim context : Str) (voterCount i : ℕ) :
    Option VerificationResult :=
  match gateway.reply claim context i with
  | none => some (noGateway (i + 1) voterCount)
  | some reply => callLlm parseFloat reply (i + 1) voterCount

/-- `adversarial_verify`. -/
def adversarialVerify (gateway : Gateway) (claim context : Str) (voterCount : ℕ)
    (threshold : Float) : Report :=
  let votes := (List.range voterCount).map fun i =>
    voteOf i (gateway.result parseFloat claim context voterCount i)
  let survived := votes.countP Vote.survives
  { passes := decide (threshold ≤ quotient survived voterCount)
    survived := survived
    refuted := votes.countP fun v => !v.survives
    threshold := threshold
    votes := votes }

/-! ### What is counted -/

/-- The reply answers `refuted = false`. -/
def Reply.upholds (r : Reply) : Bool :=
  (r.data.bind fun data => (data.lookup "refuted".toList).bind decodeBool) = some false

/-- The reply has a truthy `passed` and a `score` that is not below a half. -/
def Reply.vouches (r : Reply) : Bool :=
  r.data.any fun data =>
    passedOf data && (scoreOf parseFloat data).any fun score => !decide (score < 0.5)

/-- The reply holds no entry `passed`: it is in the form that the prompt asks for, or it cannot be
used. -/
def Reply.Unprompted (r : Reply) : Prop :=
  ∀ data, r.data = some data → data.lookup "passed".toList = none

/-- The number of voters whose reply has a property. -/
def Gateway.count (gateway : Gateway) (claim context : Str) (voterCount : ℕ) (p : Reply → Bool) :
    ℕ :=
  (List.range voterCount).countP fun i => (gateway.reply claim context i).any p

/-- What the report should say if `upheld` of `n` voters answered that the claim is not refuted. -/
structure TalliedAs (upheld n : ℕ) (r : Report) : Prop where
  passes : r.passes = true ↔ r.threshold ≤ quotient upheld n
  total : r.survived + r.refuted = n

variable {parseFloat} {gateway : Gateway} {claim context : Str} {voterCount : ℕ}

theorem survives_voteOf (i : ℕ) :
    (voteOf i (gateway.result parseFloat claim context voterCount i)).survives =
      (gateway.reply claim context i).any (Reply.vouches parseFloat) := by
  unfold Gateway.result
  rcases gateway.reply claim context i with _ | reply
  · rfl
  · rw [Option.any_some, Reply.vouches]
    dsimp only
    unfold callLlm
    rcases reply.data with _ | data
    · rfl
    · rw [Option.any_some]
      dsimp only
      rcases scoreOf parseFloat data with _ | score
      · simp [voteOf, Vote.survives]
      · rw [Option.map_some, Option.any_some, voteOf]
        dsimp only
        by_cases hlow : score < 0.5 <;> cases passedOf data <;> simp [hlow, Vote.survives]

theorem survived_adversarialVerify (threshold : Float) :
    (adversarialVerify parseFloat gateway claim context voterCount threshold).survived =
      gateway.count claim context voterCount (Reply.vouches parseFloat) := by
  unfold adversarialVerify Gateway.count
  dsimp only
  rw [List.countP_map]
  exact List.countP_congr fun i _ => by simp [survives_voteOf]

theorem survived_add_refuted (threshold : Float) :
    (adversarialVerify parseFloat gateway claim context voterCount threshold).survived +
      (adversarialVerify parseFloat gateway claim context voterCount threshold).refuted =
        voterCount := by
  have hsplit := List.length_eq_countP_add_countP Vote.survives
    (l := (List.range voterCount).map fun i =>
      voteOf i (gateway.result parseFloat claim context voterCount i))
  rw [List.length_map, List.length_range] at hsplit
  simpa [adversarialVerify] using hsplit.symm

theorem count_vouches (h : ∀ i < voterCount, ∀ reply, gateway.reply claim context i = some reply →
    reply.Unprompted) :
    gateway.count claim context voterCount (Reply.vouches parseFloat) = 0 := by
  refine List.countP_eq_zero.mpr fun i hi hany => ?_
  obtain ⟨reply, hreply, hvouches⟩ := (Option.any_eq_true _ _).mp hany
  obtain ⟨data, hdata, hdec⟩ := (Option.any_eq_true _ _).mp hvouches
  rw [passedOf, h i (List.mem_range.mp hi) reply hreply data hdata] at hdec
  cases hdec

/-- The report is as it should be exactly if the two counts lie on the same side of the
threshold. -/
theorem talliedAs_iff (upheld : ℕ) (threshold : Float) :
    TalliedAs upheld voterCount
        (adversarialVerify parseFloat gateway claim context voterCount threshold) ↔
      (threshold ≤ quotient (gateway.count claim context voterCount (Reply.vouches parseFloat))
          voterCount ↔ threshold ≤ quotient upheld voterCount) := by
  have hpasses : (adversarialVerify parseFloat gateway claim context voterCount
      threshold).passes = true ↔ threshold ≤ quotient
        (gateway.count claim context voterCount (Reply.vouches parseFloat)) voterCount := by
    rw [← survived_adversarialVerify threshold]
    exact decide_eq_true_iff
  constructor
  · intro h
    exact hpasses.symm.trans h.passes
  · intro h
    exact ⟨hpasses.trans h, survived_add_refuted threshold⟩

/-- **The tally.** A report is as it should be exactly if the voters whose replies vouch for the
claim and those that answer `refuted = false` are on the same side of the threshold; where no reply
holds `passed`, exactly if no voter and those that answer `refuted = false` are. -/
theorem tallied_iff (parseFloat : Str → Option Float) (gateway : Gateway) (claim context : Str)
    (voterCount : ℕ) (threshold : Float) :
    (TalliedAs (gateway.count claim context voterCount Reply.upholds) voterCount
        (adversarialVerify parseFloat gateway claim context voterCount threshold) ↔
      (threshold ≤ quotient (gateway.count claim context voterCount (Reply.vouches parseFloat))
          voterCount ↔
        threshold ≤ quotient (gateway.count claim context voterCount Reply.upholds) voterCount)) ∧
    ((∀ i < voterCount, ∀ reply, gateway.reply claim context i = some reply →
        reply.Unprompted) →
      (TalliedAs (gateway.count claim context voterCount Reply.upholds) voterCount
          (adversarialVerify parseFloat gateway claim context voterCount threshold) ↔
        (threshold ≤ quotient 0 voterCount ↔
          threshold ≤ quotient (gateway.count claim context voterCount Reply.upholds)
            voterCount))) := by
  refine ⟨talliedAs_iff _ threshold, fun hform => ?_⟩
  rw [talliedAs_iff, count_vouches hform]

/-! ### Three voters -/

/-- A gateway whose replies all have the same content. -/
def unanimous (content : String) : Gateway := some fun _ _ => .response [] content.toList

/-- Three voters refute a claim, and the report says so. -/
theorem tallied_refuted : TalliedAs ((unanimous "\x7b\"refuted\": true\x7d").count [] [] 3
    Reply.upholds) 3 (adversarialVerify (fun _ => none) (unanimous "\x7b\"refuted\": true\x7d")
      [] [] 3 0.6) := by
  refine ((tallied_iff (fun _ => none) (unanimous "\x7b\"refuted\": true\x7d") [] [] 3 0.6).2
    ?_).mpr (by decide +kernel)
  rintro i - reply hreply data hdata
  have hplain : (Reply.response [] "\x7b\"refuted\": true\x7d".toList).data.all (fun data =>
      (data.lookup "passed".toList).isNone) = true := by decide +kernel
  have hsame : Reply.response [] "\x7b\"refuted\": true\x7d".toList = reply :=
    Option.some.inj hreply
  rw [hsame, hdata] at hplain
  exact Option.isNone_iff_eq_none.mp hplain

/-- Three voters answer that a claim is not refuted, and it does not pass. -/
theorem not_tallied : ¬ TalliedAs ((unanimous "\x7b\"refuted\": false\x7d").count [] [] 3
    Reply.upholds) 3 (adversarialVerify (fun _ => none) (unanimous "\x7b\"refuted\": false\x7d")
      [] [] 3 0.6) := by
  rw [talliedAs_iff]
  decide +kernel

end AgentStudio.Verifier

import AgentStudio.Library.Dict
import AgentStudio.Library.Text
import AgentStudio.Library.TokenBucket

/-!
# Rate limits

The two rate limiters. `WebhookManager.check_rate_limit` of `agent_runtime/triggers.py` makes the
bucket of a webhook at its first call, without the token of this call. `RateLimiter` of
`agent_runtime/rate_limiter.py` makes the bucket of a key full, and drops the buckets that have not
been used for an hour; these are full if an hour fills a bucket. A call reads the clock once. Both
are metered by the bucket of a webhook, or of a key (`metered_checkRateLimit`,
`metered_rateLimiter`), and so bounded in every window of time (`rates_limited`).
-/

namespace AgentStudio.RateLimits

open PyText PyDict Machine TokenBucket

/-! ### Webhooks -/

/-- The calls that a webhook with this `rate_limit_per_min` may make, per minute and at once. -/
def perMinute (limit : ℤ) : ℚ := (max 1 limit : ℤ)

structure WebhookCall where
  now : ℚ
  id : Str
  rateLimitPerMin : ℤ

/-- `check_rate_limit`. -/
def checkRateLimit (call : WebhookCall) (buckets : List (Str × Bucket)) :
    Bool × List (Str × Bucket) :=
  let rate := perMinute call.rateLimitPerMin
  match buckets.lookup call.id with
  | none => (true, setItem call.id ⟨rate - 1, call.now⟩ buckets)
  | some bucket =>
    let tokens := min rate (bucket.tokens + (call.now - bucket.last) * (rate / 60))
    if tokens < 1 then (false, setItem call.id ⟨tokens, call.now⟩ buckets)
    else (true, setItem call.id ⟨tokens - 1, call.now⟩ buckets)

theorem one_le_perMinute (limit : ℤ) : 1 ≤ perMinute limit :=
  Int.cast_one.symm.trans_le (Int.cast_le.mpr (le_max_left 1 limit))

theorem checkRateLimit_eq (call : WebhookCall) (buckets : List (Str × Bucket)) :
    checkRateLimit call buckets =
      let rate := perMinute call.rateLimitPerMin
      let taken := take (rate / 60) rate call.now (buckets.lookup call.id)
      (taken.1, setItem call.id taken.2 buckets) := by
  rw [checkRateLimit]
  rcases buckets.lookup call.id with - | bucket
  · simp [take, level, one_le_perMinute]
  · simp only [take, level, Option.elim, ← not_lt, ite_not]
    split_ifs <;> rfl

theorem metered_checkRateLimit (id : Str) (limit : ℤ) :
    Metered (perMinute limit / 60) (perMinute limit) checkRateLimit WebhookCall.now (·.id = id)
      (fun call => call.id = id → call.rateLimitPerMin = limit) (List.lookup id)
      (fun t buckets => Sound (perMinute limit) (buckets.lookup id) t) where
  rate_nonneg := div_nonneg (zero_le_one.trans (one_le_perMinute limit)) (by norm_num)
  capacity_nonneg := zero_le_one.trans (one_le_perMinute limit)
  mono := Sound.mono
  sound h := h
  keeps {call buckets} hok h := by
    have hcapacity := zero_le_one.trans (one_le_perMinute limit)
    rw [checkRateLimit_eq, lookup_setItem]
    split_ifs with hid
    · obtain rfl := hok hid.symm
      exact hid ▸ sound_take (div_nonneg hcapacity (by norm_num)) hcapacity h
    · exact h
  pays {call buckets} hok h := by
    rw [checkRateLimit_eq, lookup_setItem]
    by_cases hid : call.id = id
    · obtain rfl := hok hid
      simp only [hid, if_true, true_and]
      exact (level_take ..).le
    · simp [hid, Ne.symm hid]

/-! ### Keys -/

/-- `TokenBucket`. -/
structure KeyBucket where
  rate : ℚ
  capacity : ℚ
  tokens : ℚ
  lastRefill : ℚ
  lastUsed : ℚ

/-- `_refill`. -/
def KeyBucket.refill (now : ℚ) (b : KeyBucket) : KeyBucket :=
  { b with
    tokens := min b.capacity (b.tokens + (now - b.lastRefill) * b.rate)
    lastRefill := now }

/-- `consume`. -/
def KeyBucket.consume (now : ℚ) (b : KeyBucket) : Bool × KeyBucket :=
  let b := { b.refill now with lastUsed := now }
  if 1 ≤ b.tokens then (true, { b with tokens := b.tokens - 1 }) else (false, b)

/-- A call of `check_key` or of `cleanup_expired`. -/
inductive Op where
  | checkKey (keyId : Str) (rate capacity : ℚ)
  | cleanupExpired
deriving DecidableEq

/-- `check_key` and `cleanup_expired`. -/
def rateLimiter (call : ℚ × Op) (buckets : List (Str × KeyBucket)) :
    Bool × List (Str × KeyBucket) :=
  match call.2 with
  | .checkKey keyId rate capacity =>
    let bucket := (buckets.lookup keyId).getD ⟨rate, capacity, capacity, call.1, call.1⟩
    let (accepted, bucket) := bucket.consume call.1
    (accepted, setItem keyId bucket buckets)
  | .cleanupExpired => (false, buckets.filter fun m => ¬ 3600 < call.1 - m.2.lastUsed)

/-- What a bucket held when it was last refilled. -/
def KeyBucket.toBucket (b : KeyBucket) : Bucket := ⟨b.tokens, b.lastRefill⟩

/-- The calls of a key are made with this rate and capacity. -/
def Steady (key : Str) (r c : ℚ) (call : ℚ × Op) : Prop :=
  ∀ rate capacity, call.2 = .checkKey key rate capacity → rate = r ∧ capacity = c

/-- A bucket with this rate and capacity, after a call. -/
def KeyBucket.Fits (r c : ℚ) (b : KeyBucket) : Prop :=
  b.rate = r ∧ b.capacity = c ∧ b.lastUsed = b.lastRefill

structure Kept (key : Str) (r c t : ℚ) (buckets : List (Str × KeyBucket)) : Prop where
  nodup : (buckets.map Prod.fst).Nodup
  sound : Sound c ((buckets.lookup key).map KeyBucket.toBucket) t
  fits : ∀ b ∈ buckets.lookup key, b.Fits r c

variable {key : Str} {r c : ℚ}

theorem consume_spec (now : ℚ) {found : Option KeyBucket} (h : ∀ b ∈ found, b.Fits r c) :
    let consumed := (found.getD ⟨r, c, c, now, now⟩).consume now
    (consumed.1, consumed.2.toBucket) = take r c now (found.map KeyBucket.toBucket) ∧
      consumed.2.Fits r c := by
  have hconsume (b : KeyBucket) (hrate : b.rate = r) (hcapacity : b.capacity = c)
      (htokens : (b.refill now).tokens = level r c (found.map KeyBucket.toBucket) now) :
      ((b.consume now).1, (b.consume now).2.toBucket) =
          take r c now (found.map KeyBucket.toBucket) ∧ (b.consume now).2.Fits r c := by
    rw [take, ← htokens]
    dsimp only [KeyBucket.consume]
    split_ifs <;> exact ⟨rfl, hrate, hcapacity, rfl⟩
  rcases found with - | b
  · exact hconsume _ rfl rfl (by simp [KeyBucket.refill, level])
  · obtain ⟨hrate, hcapacity, -⟩ := h b rfl
    exact hconsume b hrate hcapacity (by simp [KeyBucket.refill, level, KeyBucket.toBucket, hrate,
      hcapacity])

theorem level_of_expired (hc : 0 ≤ c) (hfill : c ≤ 3600 * r) {now : ℚ} {b : KeyBucket}
    (hsound : Sound c (some b.toBucket) now) (hb : b.Fits r c) (hold : 3600 < now - b.lastUsed) :
    level r c (some b.toBucket) now = c := by
  obtain ⟨hlow, -, -⟩ := hsound _ rfl
  have hgain : 3600 * r ≤ (now - b.lastRefill) * r :=
    mul_le_mul_of_nonneg_right (hb.2.2 ▸ hold.le) (by linarith)
  refine min_eq_left (hfill.trans (hgain.trans ?_))
  exact le_add_of_nonneg_left hlow

/-- What a call does to the bucket of a key: it takes a token, or it leaves the bucket as it is, or
it drops one that is full. -/
theorem rateLimiter_cases (hc : 0 ≤ c) (hfill : c ≤ 3600 * r) {call : ℚ × Op}
    {buckets : List (Str × KeyBucket)} (hok : Steady key r c call)
    (h : Kept key r c call.1 buckets) :
    (call.2 = .checkKey key r c ∧
      ∃ b, (rateLimiter call buckets).2.lookup key = some b ∧ b.Fits r c ∧
        ((rateLimiter call buckets).1, b.toBucket) =
          take r c call.1 ((buckets.lookup key).map KeyBucket.toBucket)) ∨
      call.2 ≠ .checkKey key r c ∧ ((rateLimiter call buckets).2.lookup key = buckets.lookup key ∨
        (rateLimiter call buckets).2.lookup key = none ∧
          level r c ((buckets.lookup key).map KeyBucket.toBucket) call.1 = c) := by
  obtain ⟨now, ⟨keyId, rate, capacity⟩ | -⟩ := call
  · by_cases hid : key = keyId
    · subst hid
      obtain ⟨rfl, rfl⟩ := hok rate capacity rfl
      obtain ⟨htaken, hfits⟩ := consume_spec now h.fits
      exact Or.inl ⟨rfl, _, by simp [rateLimiter], hfits, htaken⟩
    · exact Or.inr ⟨by simp [Ne.symm hid], Or.inl (by simp [rateLimiter, hid])⟩
  · refine Or.inr ⟨by simp, ?_⟩
    rw [rateLimiter, lookup_filter h.nodup]
    rcases hfound : buckets.lookup key with - | b
    · exact Or.inl rfl
    · by_cases hold : 3600 < now - b.lastUsed
      · have hsound := h.sound
        rw [hfound] at hsound
        exact Or.inr ⟨by simp [Option.filter, hold],
          level_of_expired hc hfill hsound (h.fits b hfound) hold⟩
      · exact Or.inl (by simp [Option.filter, hold])

theorem nodup_rateLimiter (call : ℚ × Op) {buckets : List (Str × KeyBucket)}
    (h : (buckets.map Prod.fst).Nodup) : ((rateLimiter call buckets).2.map Prod.fst).Nodup := by
  obtain ⟨now, ⟨keyId, rate, capacity⟩ | -⟩ := call
  · exact nodup_setItem h
  · exact h.sublist (List.filter_sublist.map Prod.fst)

theorem metered_rateLimiter (hc : 0 ≤ c) (hfill : c ≤ 3600 * r) :
    Metered r c rateLimiter Prod.fst (fun call => call.2 = .checkKey key r c) (Steady key r c)
      (fun buckets => (buckets.lookup key).map KeyBucket.toBucket) (Kept key r c) where
  rate_nonneg := by linarith
  capacity_nonneg := hc
  mono h hut := ⟨h.nodup, h.sound.mono hut, h.fits⟩
  sound h := h.sound
  keeps {call buckets} hok h := by
    obtain ⟨-, b, hb, hfits, htaken⟩ | ⟨-, hsame | ⟨hnone, -⟩⟩ := rateLimiter_cases hc hfill hok h
    · refine ⟨nodup_rateLimiter call h.nodup, ?_, ?_⟩
      · rw [hb, Option.map_some, (Prod.mk.inj htaken).2]
        exact sound_take (by linarith) hc h.sound
      · rw [hb]
        rintro _ ⟨⟩
        exact hfits
    · exact ⟨nodup_rateLimiter call h.nodup, hsame ▸ h.sound, hsame ▸ h.fits⟩
    · refine ⟨nodup_rateLimiter call h.nodup, ?_, ?_⟩ <;> simp [hnone, Sound]
  pays {call buckets} hok h := by
    obtain ⟨hmine, b, hb, -, htaken⟩ | ⟨hother, hrest⟩ := rateLimiter_cases hc hfill hok h
    · obtain ⟨haccepted, hbucket⟩ := Prod.mk.inj htaken
      simp only [hmine, hb, Option.map_some, haccepted, hbucket, true_and]
      exact (level_take ..).le
    · rw [if_neg fun h => hother h.1, add_zero]
      obtain hsame | ⟨-, hfull⟩ := hrest
      · rw [hsame]
      · exact (level_le ..).trans hfull.ge

/-! ### Both limits -/

/-- **Rate limits.** After any calls the bucket of a webhook, or of a key, holds no less than
nothing and no more than fit; and of the calls within `T` seconds no more are accepted than the
limit, and what it adds in this time. -/
theorem rates_limited {a T : ℚ} (hT : 0 ≤ T) :
    (∀ (id : Str) (limit : ℤ) (calls window : List WebhookCall),
      (calls ++ window).Pairwise (·.now ≤ ·.now) →
      (∀ call ∈ calls ++ window, call.id = id → call.rateLimitPerMin = limit) →
      (∀ call ∈ window, a ≤ call.now ∧ call.now ≤ a + T) →
      (∀ b ∈ (run checkRateLimit calls []).2.lookup id,
        0 ≤ b.tokens ∧ b.tokens ≤ perMinute limit) ∧
      accepted checkRateLimit (·.id = id) window (run checkRateLimit calls []).2 ≤
        perMinute limit * (1 + T / 60)) ∧
    ∀ (key : Str) (r c : ℚ) (calls window : List (ℚ × Op)), 0 ≤ c → c ≤ 3600 * r →
      (calls ++ window).Pairwise (·.1 ≤ ·.1) → (∀ call ∈ calls ++ window, Steady key r c call) →
      (∀ call ∈ window, a ≤ call.1 ∧ call.1 ≤ a + T) →
      (∀ b ∈ (run rateLimiter calls []).2.lookup key, 0 ≤ b.tokens ∧ b.tokens ≤ c) ∧
      accepted rateLimiter (·.2 = .checkKey key r c) window
        (run rateLimiter calls []).2 ≤ c + r * T := by
  constructor
  · intro id limit calls window hsorted hok hwindow
    obtain ⟨hheld, hbound⟩ := (metered_checkRateLimit id limit).bounded (s := [])
      (le_add_of_nonneg_right hT) hsorted hok hwindow fun _ => by simp [Sound]
    exact ⟨hheld, hbound.trans_eq (by ring)⟩
  · intro key r c calls window hc hfill hsorted hok hwindow
    obtain ⟨hheld, hbound⟩ := (metered_rateLimiter hc hfill).bounded (s := [])
      (le_add_of_nonneg_right hT) hsorted hok hwindow
      fun _ => ⟨List.nodup_nil, by simp [Sound], by simp⟩
    exact ⟨fun b hb => hheld b.toBucket (Option.mem_map_of_mem _ hb),
      hbound.trans_eq (by ring)⟩

/-- Calls of a webhook and of a key, within a minute. -/
theorem rates_limited_minute :
    (accepted checkRateLimit (·.id = "w") [⟨0, "w", 1⟩, ⟨1, "w", 1⟩] [] : ℚ) ≤
        perMinute 1 * (1 + 60 / 60) ∧
      (accepted rateLimiter (·.2 = .checkKey "k" 1 2)
        [(0, .checkKey "k" 1 2), (3, .cleanupExpired)] [] : ℚ) ≤ 2 + 1 * 60 := by
  obtain ⟨hwebhook, hkey⟩ := rates_limited (a := 0) (T := 60) (by norm_num)
  refine ⟨(hwebhook "w" 1 [] _ (by decide +kernel) (by simp) (by norm_num)).2,
    (hkey "k" 1 2 [] _ (by norm_num) (by norm_num) (by decide +kernel) ?_ (by norm_num)).2⟩
  simp [Steady]

end AgentStudio.RateLimits

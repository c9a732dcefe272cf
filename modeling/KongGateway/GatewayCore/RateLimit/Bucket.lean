import KongGateway.GatewayCore.RateLimit.Check
import KongGateway.Lib.TokenBucket
import Mathlib.Data.List.Nodup

/-!
# RateLimit — token buckets under concurrent checks

`check_with_context` reads the clock before it locks the states, so
checks may be applied out of the order of their readings. A late check
gains no tokens (the elapsed time saturates at zero) but moves
`last_refill` back to its own reading, and the time from there on is
credited a second time.

The burst bound holds in every run whose checks find a `last_refill`
that is not later than their reading. On the path with rules a late
check that finds no token changes nothing and is harmless as well.
-/

namespace KongGateway.GatewayCore

open RustStd TokenBucket

/-! ## The bucket in a limit state -/

theorem asSecs_le {a b : Duration} (h : a ≤ b) : asSecs a ≤ asSecs b :=
  div_le_div_of_nonneg_right (Nat.cast_le.mpr h) (Nat.cast_nonneg _)

theorem asSecs_durationSince {now last : Instant} (h : last ≤ now) :
    asSecs (durationSince now last) = asSecs now - asSecs last := by
  rw [asSecs, asSecs, asSecs, durationSince, Nat.cast_sub h, sub_div]

theorem asSecs_add (a b : Duration) : asSecs (a + b) = asSecs a + asSecs b := by
  rw [asSecs, asSecs, asSecs, Nat.cast_add, add_div]

def LimitState.bucket (state : LimitState) : Option (Bucket ℚ) :=
  state.lastRefill.map fun last => ⟨state.tokens, asSecs last⟩

/-- The last refill of a state is not later than `now`. -/
def LimitState.RefilledBy (now : Instant) (state : LimitState) : Prop :=
  ∀ last, state.lastRefill = some last → last ≤ now

instance (now : Instant) (state : LimitState) : Decidable (state.RefilledBy now) :=
  match h : state.lastRefill with
  | none => isTrue (by simp [LimitState.RefilledBy, h])
  | some last => decidable_of_iff (last ≤ now) (by simp [LimitState.RefilledBy, h])

/-- **The code's bucket is a token bucket**, for a check that is not
late. -/
theorem takeToken_eq {capacity rate : ℚ} {now : Instant} {state : LimitState}
    (h : state.RefilledBy now) :
    takeToken capacity rate now state
      = let b := refill capacity rate (asSecs now) state.bucket
        if 1 ≤ b.tokens then
          (true, { state with tokens := b.tokens - 1, lastRefill := some now })
        else (false, { state with tokens := b.tokens, lastRefill := some now }) := by
  obtain ⟨tokens, lastRefill, windowStart, windowCount, hits, total⟩ := state
  cases lastRefill with
  | none =>
    have hzero : asSecs (durationSince now now) = 0 := by
      rw [asSecs_durationSince (Nat.le_refl now), sub_self]
    simp only [takeToken, LimitState.bucket, refill, hzero, Option.isNone_none, if_true,
      zero_mul, add_zero, min_self, Option.map_none]
    rfl
  | some last =>
    simp [takeToken, LimitState.bucket, refill, asSecs_durationSince (h last rfl)]

theorem takeToken_late {capacity rate : ℚ} {now last : Instant} {state : LimitState}
    (hsome : state.lastRefill = some last) (hlate : now < last) (hempty : state.tokens < 1) :
    (takeToken capacity rate now state).1 = false := by
  have hzero : durationSince now last = 0 := Nat.sub_eq_zero_of_le (Nat.le_of_lt hlate)
  have hgain : asSecs (durationSince now last) = 0 := by
    rw [hzero, asSecs, Nat.cast_zero, zero_div]
  have hless : min (state.tokens + asSecs (durationSince now last) * rate) capacity < 1 := by
    refine lt_of_le_of_lt (min_le_left _ _) ?_
    rw [hgain, zero_mul, add_zero]
    exact hempty
  simp [takeToken, hsome, not_le.mpr hless]

/-! ## Which checks use which bucket -/

/-- The limiter keeps a token bucket for every value of the scope: the
one bucket per client without rules, or the bucket of a token-bucket
rule that is the only rule of its scope. -/
inductive RateLimitConfig.HasBucket (cfg : RateLimitConfig) :
    LimitScope → Nat → ℚ → Prop where
  | legacy : cfg.isLegacy = true →
      HasBucket cfg .client cfg.capacity.toNat cfg.refillPerSecond.toNat
  | ofRule (rule : ScopedLimitRule) : cfg.isLegacy = false → rule ∈ cfg.effectiveRules →
      cfg.policyOf rule = .tokenBucket →
      (cfg.effectiveRules.map ScopedLimitRule.scope).Nodup →
      HasBucket cfg rule.scope rule.limit.toNat rule.refillPerSecond

/-- The check is not late at the bucket, or (with rules) it finds no
token there. -/
def RateLimitConfig.FindsInOrder (cfg : RateLimitConfig) (now : Instant)
    (state : LimitState) : Prop :=
  state.RefilledBy now ∨ cfg.isLegacy = false ∧ state.tokens < 1

instance (cfg : RateLimitConfig) (now : Instant) (state : LimitState) :
    Decidable (cfg.FindsInOrder now state) :=
  inferInstanceAs (Decidable (_ ∨ _))

/-- What a check may do to a bucket it uses, and what its decision says
about it. -/
inductive BucketStep (capacity rate : ℚ) (now : Instant) (before : LimitState) :
    Bool → LimitState → Prop where
  | taken {after : LimitState} :
      before.RefilledBy now →
      1 ≤ (refill capacity rate (asSecs now) before.bucket).tokens →
      after.bucket
        = some ⟨(refill capacity rate (asSecs now) before.bucket).tokens - 1, asSecs now⟩ →
      BucketStep capacity rate now before true after
  | refilled {after : LimitState} :
      before.RefilledBy now →
      after.bucket = some (refill capacity rate (asSecs now) before.bucket) →
      BucketStep capacity rate now before false after
  | untouched : BucketStep capacity rate now before false before

namespace RateLimitConfig

variable {cfg : RateLimitConfig} {scope : LimitScope} {capacity : Nat} {rate : ℚ}
  {ctx : RateLimitContext} {now : Instant} {states : LimitStates}

/-- A rule's staged state after an accepted check of its bucket. -/
private theorem stageRule_bucket {rule : ScopedLimitRule} {current next : LimitState}
    (hpolicy : cfg.policyOf rule = .tokenBucket) (horder : current.RefilledBy now)
    (hstage : cfg.stageRule rule now current = some next) :
    1 ≤ (refill (rule.limit.toNat : ℚ) rule.refillPerSecond (asSecs now) current.bucket).tokens
      ∧ next.bucket
        = some ⟨(refill (rule.limit.toNat : ℚ) rule.refillPerSecond (asSecs now)
            current.bucket).tokens - 1, asSecs now⟩ := by
  simp only [stageRule, hpolicy, applyPolicy, takeToken_eq horder] at hstage
  split at hstage
  · cases hstage
  · by_cases hone :
        1 ≤ (refill (rule.limit.toNat : ℚ) rule.refillPerSecond (asSecs now)
          current.bucket).tokens
    · simp only [if_pos hone, Option.some.injEq] at hstage
      subst hstage
      exact ⟨hone, rfl⟩
    · simp [if_neg hone] at hstage

private theorem stageRule_late {rule : ScopedLimitRule} {current : LimitState}
    (hpolicy : cfg.policyOf rule = .tokenBucket) (hlate : ¬ current.RefilledBy now)
    (hempty : current.tokens < 1) : cfg.stageRule rule now current = none := by
  simp only [LimitState.RefilledBy, not_forall, not_le] at hlate
  obtain ⟨last, hsome, hlast⟩ := hlate
  have hrefuse : (takeToken rule.limit.toNat rule.refillPerSecond now current).1 = false :=
    takeToken_late hsome hlast hempty
  simp only [stageRule, hpolicy, applyPolicy]
  split
  · rfl
  · rw [← Prod.mk.eta (p := takeToken _ _ _ _), hrefuse]

/-- **One check of a bucket** takes a token, refills, or leaves it. -/
theorem HasBucket.check_step (h : cfg.HasBucket scope capacity rate)
    (hon : cfg.enabled = true)
    (horder : cfg.FindsInOrder now (states.lookup (scopeKey scope (ctx.value scope)))) :
    BucketStep capacity rate now (states.lookup (scopeKey scope (ctx.value scope)))
      (cfg.checkWithContext ctx now states).1
      ((cfg.checkWithContext ctx now states).2.lookup (scopeKey scope (ctx.value scope))) := by
  cases h with
  | legacy hlegacy =>
    have hby : (states.lookup (scopeKey .client (ctx.value .client))).RefilledBy now := by
      rcases horder with hby | ⟨hrules, -⟩
      · exact hby
      · rw [hlegacy] at hrules
        cases hrules
    rw [checkWithContext_legacy hon hlegacy]
    simp only [LimitStates.lookup_insert_self]
    rw [applyLegacyTokenBucket, takeToken_eq hby]
    by_cases hone : 1 ≤ (refill (cfg.capacity.toNat : ℚ) cfg.refillPerSecond.toNat
        (asSecs now) (states.lookup (scopeKey .client (ctx.value .client))).bucket).tokens
    · simp only [if_pos hone]
      exact .taken hby hone rfl
    · simp only [if_neg hone]
      exact .refilled hby (congrArg some (mk_refill_tokens _ _))
  | ofRule rule hrules hmem hpolicy hnodup =>
    rcases checkWithContext_cases hon hrules ctx now states with
      ⟨hcheck, -⟩ | ⟨after, hcheck, hgranted⟩
    · -- some rule refused, and nothing is written back
      rw [hcheck]
      exact .untouched
    · rw [hcheck]
      obtain ⟨writer, hwriter, hscope, hwritten⟩ := hgranted.written_of_mem hmem
      have hsame : writer = rule := List.inj_on_of_nodup_map hnodup hwriter hmem hscope
      subst hsame
      have hby : (states.lookup (ruleKey ctx writer)).RefilledBy now := by
        rcases horder with hby | ⟨-, hempty⟩
        · exact hby
        · -- a late check without a token would have been refused
          by_contra hlate
          rw [stageRule_late hpolicy hlate hempty] at hwritten
          cases hwritten
      obtain ⟨hone, hbucket⟩ := stageRule_bucket hpolicy hby hwritten
      exact .taken hby hone hbucket

theorem HasBucket.rate_nonneg (h : cfg.HasBucket scope capacity rate) : 0 ≤ rate := by
  cases h with
  | legacy hlegacy => exact Nat.cast_nonneg _
  | ofRule rule hrules hmem hpolicy hnodup =>
    exact div_nonneg (Nat.cast_nonneg _) (Nat.cast_nonneg _)

end RateLimitConfig

/-! ## Concurrent checks -/

/-- The limiter with the checks under way: `waiting` have read the clock
and not yet locked the states, `accepted` have been accepted. -/
structure Checking where
  states : LimitStates
  now : Instant
  waiting : List (RateLimitContext × Instant)
  accepted : List (RateLimitContext × Instant)

inductive CheckEvent where
  | readClock (ctx : RateLimitContext)
  | lockStates (i : Nat)
  | wait (time : Duration)
deriving DecidableEq, Repr

namespace Checking

def start : Checking where
  states := .empty
  now := 0
  waiting := []
  accepted := []

/-- Any waiting check may be the next to get the lock. -/
def step (cfg : RateLimitConfig) (c : Checking) : CheckEvent → Checking
  | .readClock ctx => { c with waiting := c.waiting ++ [(ctx, c.now)] }
  | .lockStates i =>
    match c.waiting[i]? with
    | none => c
    | some check =>
      let (ok, states) := cfg.checkWithContext check.1 check.2 c.states
      { c with
        states := states
        waiting := c.waiting.eraseIdx i
        accepted := if ok then check :: c.accepted else c.accepted }
  | .wait time => { c with now := c.now + time }

/-- A check of the bucket of `value` gets the lock in order. -/
def InOrder (cfg : RateLimitConfig) (scope : LimitScope) (value : String) (c : Checking) :
    CheckEvent → Prop
  | .lockStates i => ∀ check, c.waiting[i]? = some check → check.1.value scope = value →
      cfg.FindsInOrder check.2 (c.states.lookup (scopeKey scope value))
  | _ => True

instance (cfg : RateLimitConfig) (scope : LimitScope) (value : String) (c : Checking) :
    (event : CheckEvent) → Decidable (c.InOrder cfg scope value event)
  | .readClock _ => inferInstanceAs (Decidable True)
  | .wait _ => inferInstanceAs (Decidable True)
  | .lockStates i =>
    match h : c.waiting[i]? with
    | none => isTrue (by simp [InOrder, h])
    | some check =>
      decidable_of_iff
        (check.1.value scope = value →
          cfg.FindsInOrder check.2 (c.states.lookup (scopeKey scope value)))
        (by simp [InOrder, h])

/-- The accepted checks of `value` whose reading lies between `s` and
`s + d`. -/
def acceptedWithin (scope : LimitScope) (value : String) (s : Instant) (d : Duration)
    (accepted : List (RateLimitContext × Instant)) : Nat :=
  accepted.countP fun check => check.1.value scope = value ∧ s ≤ check.2 ∧ check.2 ≤ s + d

/-! ## The bound -/

/-- The tokens taken in the interval and those that can still be taken
make up no more than the burst. -/
structure Bounded (capacity : Nat) (rate : ℚ) (scope : LimitScope) (value : String)
    (s : Instant) (d : Duration) (c : Checking) : Prop where
  tokens_nonneg : ∀ used, (c.states.lookup (scopeKey scope value)).bucket = some used →
    0 ≤ used.tokens
  bound : (acceptedWithin scope value s d c.accepted : ℚ)
      + potential (capacity : ℚ) rate (asSecs s) (asSecs (s + d))
          (c.states.lookup (scopeKey scope value)).bucket
    ≤ capacity + (asSecs (s + d) - asSecs s) * rate

variable {cfg : RateLimitConfig} {scope : LimitScope} {capacity : Nat} {rate : ℚ}
  {value : String} {s : Instant} {d : Duration} {c : Checking}

theorem Bounded.start : Bounded capacity rate scope value s d .start where
  tokens_nonneg := fun _ hused => by cases hused
  bound := by simp [Checking.start, acceptedWithin, LimitState.bucket, potential]

theorem asSecs_le_iff {a b : Duration} : asSecs a ≤ asSecs b ↔ a ≤ b := by
  constructor
  · intro h
    by_contra hlt
    have hpos : (0 : ℚ) < nanosPerSec := by simp [nanosPerSec]
    exact absurd h (not_le.mpr (div_lt_div_of_pos_right (Nat.cast_lt.mpr (not_le.mp hlt)) hpos))
  · exact asSecs_le

theorem bucket_last_le {state : LimitState} {now : Instant} (h : state.RefilledBy now) :
    ∀ used, state.bucket = some used → used.last ≤ asSecs now := by
  intro used hused
  obtain ⟨last, hlast, rfl⟩ := Option.map_eq_some_iff.mp hused
  exact asSecs_le (h last hlast)

/-- **A check of the bucket** that gets the lock in order keeps the
bound. -/
theorem Bounded.hit (h : Bounded capacity rate scope value s d c) (hrate : 0 ≤ rate)
    {check : RateLimitContext × Instant} (hvalue : check.1.value scope = value) {ok : Bool}
    {states : LimitStates} {waiting : List (RateLimitContext × Instant)}
    (hstep : BucketStep capacity rate check.2 (c.states.lookup (scopeKey scope value)) ok
      (states.lookup (scopeKey scope value))) :
    Bounded capacity rate scope value s d
      { c with
        states := states
        waiting := waiting
        accepted := if ok then check :: c.accepted else c.accepted } := by
  have hspan : asSecs s ≤ asSecs (s + d) := asSecs_le (Nat.le_add_right _ _)
  have hcap : (0 : ℚ) ≤ capacity := Nat.cast_nonneg _
  have hnonneg := h.tokens_nonneg
  have hbound := h.bound
  generalize c.states.lookup (scopeKey scope value) = before at hstep hnonneg hbound
  generalize hafter : states.lookup (scopeKey scope value) = after at hstep
  cases hstep with
  | untouched =>
    refine ⟨fun used hused => hnonneg used (by rw [← hused, hafter]), ?_⟩
    simpa [hafter] using hbound
  | refilled hby hbucket =>
    -- only the legacy bucket is written back after a refusal
    have hpot := potential_refill_le hrate hspan hcap hnonneg (bucket_last_le hby)
    refine ⟨fun used hused => ?_, ?_⟩
    · simp only [hafter, hbucket, Option.some.injEq] at hused
      rw [← hused]
      exact refill_tokens_nonneg hrate hcap hnonneg (bucket_last_le hby)
    · simp only [hafter, hbucket, Bool.false_eq_true, if_false]
      linarith
  | taken hby hone hbucket =>
    have hpot := potential_refill_le hrate hspan hcap hnonneg (bucket_last_le hby)
    have htake : potential (capacity : ℚ) rate (asSecs s) (asSecs (s + d)) _ = _ :=
      potential_take (refill (capacity : ℚ) rate (asSecs check.2) before.bucket)
    refine ⟨fun used hused => ?_, ?_⟩
    · simp only [hafter, hbucket, Option.some.injEq] at hused
      rw [← hused]
      exact sub_nonneg.mpr hone
    · simp only [hafter, hbucket, if_true]
      rw [refill_last] at htake
      rw [htake]
      simp only [acceptedWithin, List.countP_cons, hvalue, asSecs_le_iff, true_and,
        decide_eq_true_eq] at hbound ⊢
      split_ifs with hin
      · -- one more check is counted, and the potential is one less
        push_cast
        linarith
      · push_cast
        linarith

theorem Bounded.step (h : Bounded capacity rate scope value s d c)
    (hbucket : cfg.HasBucket scope capacity rate) (hon : cfg.enabled = true)
    (event : CheckEvent) (horder : c.InOrder cfg scope value event) :
    Bounded capacity rate scope value s d (c.step cfg event) := by
  cases event with
  | readClock ctx => exact ⟨h.tokens_nonneg, h.bound⟩
  | wait time => exact ⟨h.tokens_nonneg, h.bound⟩
  | lockStates i =>
    cases hcheck : c.waiting[i]? with
    | none =>
      simp only [Checking.step, hcheck]
      exact h
    | some check =>
      simp only [Checking.step, hcheck]
      by_cases hvalue : check.1.value scope = value
      · have hfinds := horder check hcheck hvalue
        subst hvalue
        exact h.hit hbucket.rate_nonneg rfl (hbucket.check_step hon hfinds)
      · -- a check of another value changes neither the bucket nor the count
        have hkeep := cfg.checkWithContext_lookup_of_ne check.2 c.states hvalue
        refine ⟨fun used hused => h.tokens_nonneg used (by rw [← hused, hkeep]), ?_⟩
        have hcount : acceptedWithin scope value s d
            (if (cfg.checkWithContext check.1 check.2 c.states).1 then
              check :: c.accepted else c.accepted)
            = acceptedWithin scope value s d c.accepted := by
          split
          · simp [acceptedWithin, hvalue]
          · rfl
        rw [hcount, hkeep]
        exact h.bound

end Checking

/-- **The burst bound**, in every run of concurrent checks in which the
checks of the bucket get the lock in order. -/
theorem accepted_burst_le {cfg : RateLimitConfig} {scope : LimitScope} {capacity : Nat}
    {rate : ℚ} (hbucket : cfg.HasBucket scope capacity rate) (hon : cfg.enabled = true)
    {value : String} {events : List CheckEvent}
    (hrun : Run.Guarded (Checking.step cfg) (Checking.InOrder cfg scope value) .start events)
    (s : Instant) (d : Duration) :
    (Checking.acceptedWithin scope value s d
        (Run.exec (Checking.step cfg) .start events).accepted : ℚ)
      ≤ capacity + rate * asSecs d := by
  have hinv : Checking.Bounded capacity rate scope value s d
      (Run.exec (Checking.step cfg) .start events) :=
    hrun.invariant (fun c event h horder => h.step hbucket hon event horder) .start
  have hleft := potential_nonneg hbucket.rate_nonneg
    (asSecs_le (Nat.le_add_right s d)) (Nat.cast_nonneg capacity) _ hinv.tokens_nonneg
  have hbound := hinv.bound
  -- what can still be taken is not negative and may be dropped
  rw [asSecs_add] at hleft
  rw [asSecs_add, add_sub_cancel_left, mul_comm] at hbound
  linarith

/-! ### One late check -/

/-- One token, refilled within a second. -/
def oneToken : RateLimitConfig where
  enabled := true
  capacity := 1
  refillPerSecond := 1

def clientA : RateLimitContext where
  route := "orders"
  service := "orders-svc"
  consumer := none
  client := "a"

/-- Two checks at `0` and two a second later, which get the lock in the
order given. -/
def fourChecks (order : List Nat) : List CheckEvent :=
  [.readClock clientA, .readClock clientA, .wait nanosPerSec, .readClock clientA,
    .readClock clientA] ++ order.map .lockStates

theorem four_checks_in_order :
    Run.Guarded (Checking.step oneToken) (Checking.InOrder oneToken .client "a") .start
        (fourChecks [0, 0, 0, 0])
      ∧ (Checking.acceptedWithin .client "a" 0 nanosPerSec
          (Run.exec (Checking.step oneToken) .start (fourChecks [0, 0, 0, 0])).accepted : ℚ)
        ≤ oneToken.capacity.toNat + oneToken.refillPerSecond.toNat * asSecs nanosPerSec := by
  have hrun : Run.Guarded (Checking.step oneToken) (Checking.InOrder oneToken .client "a")
      .start (fourChecks [0, 0, 0, 0]) := by
    decide +kernel
  exact ⟨hrun, accepted_burst_le (.legacy rfl) rfl hrun 0 nanosPerSec⟩

/-- The second check at `0` gets the lock after the first check at one
second. It is refused, but moves `last_refill` back to `0`, and the last
check finds a second's worth of tokens: three are accepted within one
second, one more than the burst. -/
theorem late_check_breaks_burst :
    Checking.acceptedWithin .client "a" 0 nanosPerSec
        (Run.exec (Checking.step oneToken) .start (fourChecks [0, 1, 0, 0])).accepted = 3
      ∧ ¬ ((3 : Nat) : ℚ)
          ≤ oneToken.capacity.toNat + oneToken.refillPerSecond.toNat * asSecs nanosPerSec := by
  decide +kernel

end KongGateway.GatewayCore

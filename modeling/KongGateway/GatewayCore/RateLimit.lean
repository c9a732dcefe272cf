import Mathlib.Algebra.Order.Field.Rat
import KongGateway.Lib.RustStd

/-!
# RateLimit — the in-memory limiter

The model of `rate_limit.rs`. Token counts are exact rationals (the
source uses `f64`); counters that only an unreachable number of accepted
requests could overflow are natural numbers. The clock reading `now` and
the state map, which the source reads and locks inside
`check_with_context`, are arguments; a check answers with its decision
and the map it leaves behind.
-/

namespace KongGateway.GatewayCore

open RustStd

inductive RateLimitPolicy where
  | tokenBucket
  | fixedWindow
  | slidingWindow
deriving DecidableEq, Repr

inductive LimitScope where
  | route
  | service
  | consumer
  | client
deriving DecidableEq, Repr

structure ScopedLimitRule where
  scope : LimitScope
  limit : UInt32
  quota : Option UInt64 := none
  windowSeconds : UInt64 := 60
  policy : Option RateLimitPolicy := none
deriving DecidableEq, Repr

structure RateLimitConfig where
  enabled : Bool := false
  policy : RateLimitPolicy := .tokenBucket
  capacity : UInt32 := 100
  refillPerSecond : UInt32 := 100
  fixedWindowSeconds : UInt64 := 60
  slidingWindowSeconds : UInt64 := 60
  scopedLimits : List ScopedLimitRule := []
deriving DecidableEq, Repr

structure LimitState where
  tokens : ℚ := 0
  lastRefill : Option Instant := none
  fixedWindowStart : Option Instant := none
  fixedWindowCount : Nat := 0
  slidingHits : List Instant := []
  acceptedTotal : Nat := 0
deriving DecidableEq, Repr

structure RateLimitContext where
  route : String
  service : String
  consumer : Option String
  client : String
deriving DecidableEq, Repr

/-! ## The state map -/

/-- `HashMap<String, LimitState>`. -/
abbrev LimitStates := String → Option LimitState

namespace LimitStates

def empty : LimitStates := fun _ => none

/-- The entry of a key, `Default` when absent. -/
def lookup (states : LimitStates) (key : String) : LimitState :=
  (states key).getD {}

def insert (states : LimitStates) (key : String) (state : LimitState) : LimitStates :=
  Function.update states key (some state)

@[simp] theorem lookup_empty (key : String) : lookup empty key = {} := rfl

@[simp] theorem lookup_insert_self (states : LimitStates) (key : String)
    (state : LimitState) : (states.insert key state).lookup key = state := by
  simp [lookup, insert]

theorem lookup_insert_ne (states : LimitStates) {key other : String}
    (state : LimitState) (h : other ≠ key) :
    (states.insert key state).lookup other = states.lookup other := by
  simp [lookup, insert, Function.update_of_ne h]

end LimitStates

/-! ## The three policies -/

/-- The token bucket both code paths share: a first use fills the
bucket, every use refills it for the time since the last one, and a
check takes one token if there is one. -/
def takeToken (capacity refillPerSecond : ℚ) (now : Instant) (state : LimitState) :
    Bool × LimitState :=
  let state :=
    if state.lastRefill.isNone then
      { state with tokens := capacity, lastRefill := some now }
    else state
  let state :=
    match state.lastRefill with
    | some lastRefill =>
      let elapsed := asSecs (durationSince now lastRefill)
      { state with
        tokens := min (state.tokens + elapsed * refillPerSecond) capacity
        lastRefill := some now }
    | none => state
  if 1 ≤ state.tokens then (true, { state with tokens := state.tokens - 1 })
  else (false, state)

/-- `rule.window_seconds.max(1)`. -/
def ScopedLimitRule.window (rule : ScopedLimitRule) : UInt64 :=
  max rule.windowSeconds 1

/-- `rule.limit as f64 / window_secs`. -/
def ScopedLimitRule.refillPerSecond (rule : ScopedLimitRule) : ℚ :=
  (rule.limit.toNat : ℚ) / rule.window.toNat

/-- The fixed-window arm: roll the window over when it has passed, then
count. -/
def countFixedWindow (window : Duration) (limit : Nat) (now : Instant)
    (state : LimitState) : Bool × LimitState :=
  let windowStart := state.fixedWindowStart.getD now
  let state :=
    if window ≤ durationSince now windowStart then
      { state with fixedWindowStart := some now, fixedWindowCount := 0 }
    else { state with fixedWindowStart := some windowStart }
  if state.fixedWindowCount < limit then
    (true, { state with fixedWindowCount := state.fixedWindowCount + 1 })
  else (false, state)

/-- The sliding-window arm: pop the hits that have left the window off
the front, then append this one. -/
def pushSlidingHit (window : Duration) (limit : Nat) (now : Instant)
    (state : LimitState) : Bool × LimitState :=
  let hits := state.slidingHits.dropWhile fun front =>
    decide (window ≤ durationSince now front)
  let state := { state with slidingHits := hits }
  if state.slidingHits.length < limit then
    (true, { state with slidingHits := state.slidingHits ++ [now] })
  else (false, state)

def applyPolicy (policy : RateLimitPolicy) (rule : ScopedLimitRule)
    (state : LimitState) (now : Instant) : Bool × LimitState :=
  match policy with
  | .tokenBucket => takeToken rule.limit.toNat rule.refillPerSecond now state
  | .fixedWindow => countFixedWindow (fromSecs rule.window) rule.limit.toNat now state
  | .slidingWindow => pushSlidingHit (fromSecs rule.window) rule.limit.toNat now state

/-! ## Rules and keys -/

def LimitScope.name : LimitScope → String
  | route => "route"
  | service => "service"
  | consumer => "consumer"
  | client => "client"

def scopeKey (scope : LimitScope) (valueKey : String) : String :=
  scope.name ++ ":" ++ valueKey

/-- The value a scope takes from the context of a request. -/
def RateLimitContext.value (ctx : RateLimitContext) : LimitScope → String
  | .route => ctx.route
  | .service => ctx.service
  | .consumer => ctx.consumer.getD "anonymous"
  | .client => ctx.client

namespace RateLimitConfig

/-- The rule that stands in for an empty `scoped_limits`. -/
def defaultRule (cfg : RateLimitConfig) : ScopedLimitRule where
  scope := .client
  limit := cfg.capacity
  quota := none
  windowSeconds :=
    match cfg.policy with
    | .tokenBucket => 1
    | .fixedWindow => cfg.fixedWindowSeconds
    | .slidingWindow => cfg.slidingWindowSeconds
  policy := some cfg.policy

/-- The rules of `effective_rules_for_context`, before the context's
values are paired with them. -/
def effectiveRules (cfg : RateLimitConfig) : List ScopedLimitRule :=
  if cfg.scopedLimits.isEmpty then [cfg.defaultRule] else cfg.scopedLimits

def effectiveRulesForContext (cfg : RateLimitConfig) (ctx : RateLimitContext) :
    List (ScopedLimitRule × String) :=
  cfg.effectiveRules.map fun rule => (rule, ctx.value rule.scope)

/-- `rule.policy.unwrap_or(self.config.policy)`. -/
def policyOf (cfg : RateLimitConfig) (rule : ScopedLimitRule) : RateLimitPolicy :=
  rule.policy.getD cfg.policy

/-! ## The check -/

def quotaReached (rule : ScopedLimitRule) (state : LimitState) : Bool :=
  match rule.quota with
  | some quota => decide (quota.toNat ≤ state.acceptedTotal)
  | none => false

/-- The body of the staging loop for one rule: the state the rule moves
to, or `none` when the quota or the policy refuses. -/
def stageRule (cfg : RateLimitConfig) (rule : ScopedLimitRule) (now : Instant)
    (current : LimitState) : Option LimitState :=
  if quotaReached rule current then none
  else
    match applyPolicy (cfg.policyOf rule) rule current now with
    | (false, _) => none
    | (true, next) => some { next with acceptedTotal := next.acceptedTotal + 1 }

/-- The staging loop: every rule starts from the stored state of its key
(never from a state staged before it), and the first refusal ends it. -/
def stageRules (cfg : RateLimitConfig) (states : LimitStates) (now : Instant) :
    List (ScopedLimitRule × String) → Option (List (String × LimitState))
  | [] => some []
  | (rule, valueKey) :: rest =>
    let stateKey := scopeKey rule.scope valueKey
    match cfg.stageRule rule now (states.lookup stateKey) with
    | none => none
    | some next =>
      match stageRules cfg states now rest with
      | none => none
      | some staged => some ((stateKey, next) :: staged)

/-- The write-back loop. -/
def commit (states : LimitStates) (staged : List (String × LimitState)) : LimitStates :=
  staged.foldl (fun states entry => states.insert entry.1 entry.2) states

def applyLegacyTokenBucket (cfg : RateLimitConfig) (state : LimitState)
    (now : Instant) : Bool × LimitState :=
  takeToken cfg.capacity.toNat cfg.refillPerSecond.toNat now state

/-- The branch test of `check_with_context` for the path without rules. -/
def isLegacy (cfg : RateLimitConfig) : Bool :=
  cfg.scopedLimits.isEmpty && cfg.policy == .tokenBucket

def checkWithContext (cfg : RateLimitConfig) (ctx : RateLimitContext)
    (now : Instant) (states : LimitStates) : Bool × LimitStates :=
  if !cfg.enabled then (true, states)
  else if cfg.isLegacy then
    let key := scopeKey .client ctx.client
    let (ok, state) := cfg.applyLegacyTokenBucket (states.lookup key) now
    (ok, states.insert key state)
  else
    match cfg.stageRules states now (cfg.effectiveRulesForContext ctx) with
    | none => (false, states)
    | some staged => (true, commit states staged)

end RateLimitConfig

/-! ## Keys do not collide -/

/-- The first two characters of a key tell the scopes apart, and behind
the scope's name the value is kept whole. -/
theorem scopeKey_injective {scope scope' : LimitScope} {value value' : String}
    (h : scopeKey scope value = scopeKey scope' value') :
    scope = scope' ∧ value = value' := by
  have htake : (scopeKey scope value).toList.take 2
      = (scopeKey scope' value').toList.take 2 := by rw [h]
  have hscope : scope = scope' := by
    cases scope <;> cases scope' <;>
      simp [scopeKey, LimitScope.name, String.toList_append] at htake ⊢
  subst hscope
  refine ⟨rfl, ?_⟩
  cases scope <;> simpa [scopeKey, LimitScope.name] using h

theorem scopeKey_ne {scope scope' : LimitScope} (h : scope ≠ scope')
    (value value' : String) : scopeKey scope value ≠ scopeKey scope' value' :=
  fun heq => h (scopeKey_injective heq).1

end KongGateway.GatewayCore

import KongGateway.GatewayCore.RateLimit.Check

/-!
# RateLimit — rules as independent limiters

What a list of rules is for: every rule is a limiter of its own, with
its own state for each value of its scope, and a request is accepted if
all of them accept it (`checkIndependent`). The code keeps one state per
scope and value instead, shared by all rules of the scope. The two agree
on every trace when rules that share a scope also keep their state in
the same way (`SharesState`): then each of them stages the same next
state, and it does not matter whose is written back.
-/

namespace KongGateway.GatewayCore

open RustStd

/-! ## The abstract limiter -/

/-- One rule with a state of its own for every value of its scope. -/
structure RuleLimiter where
  rule : ScopedLimitRule
  own : String → LimitState

namespace RuleLimiter

def fresh (rule : ScopedLimitRule) : RuleLimiter where
  rule := rule
  own := fun _ => {}

/-- The state the rule moves to for a request, `none` if it refuses. -/
def next (cfg : RateLimitConfig) (check : RateLimitContext × Instant)
    (limiter : RuleLimiter) : Option LimitState :=
  cfg.stageRule limiter.rule check.2 (limiter.own (check.1.value limiter.rule.scope))

/-- The limiter after an accepted request. -/
def advance (cfg : RateLimitConfig) (check : RateLimitContext × Instant)
    (limiter : RuleLimiter) : RuleLimiter :=
  match limiter.next cfg check with
  | none => limiter
  | some state =>
    { limiter with
      own := Function.update limiter.own (check.1.value limiter.rule.scope) state }

end RuleLimiter

/-- The conjunction of the limiters; all of them advance on an accepted
request and none on a refused one. -/
def checkIndependent (cfg : RateLimitConfig) (limiters : List RuleLimiter)
    (check : RateLimitContext × Instant) : Bool × List RuleLimiter :=
  if limiters.all fun limiter => (limiter.next cfg check).isSome then
    (true, limiters.map (RuleLimiter.advance cfg check))
  else (false, limiters)

/-- The rules keep their state alike: the same policy over the same
window, and for token buckets the same limit. -/
def RateLimitConfig.Alike (cfg : RateLimitConfig) (rule rule' : ScopedLimitRule) : Prop :=
  cfg.policyOf rule = cfg.policyOf rule' ∧ rule.window = rule'.window
    ∧ (cfg.policyOf rule = .tokenBucket → rule.limit = rule'.limit)

instance (cfg : RateLimitConfig) (rule rule' : ScopedLimitRule) :
    Decidable (cfg.Alike rule rule') :=
  inferInstanceAs (Decidable (_ ∧ _ ∧ _))

/-- Rules that share a scope keep their state alike. -/
def RateLimitConfig.SharesState (cfg : RateLimitConfig) : Prop :=
  ∀ rule ∈ cfg.effectiveRules, ∀ rule' ∈ cfg.effectiveRules,
    rule.scope = rule'.scope → cfg.Alike rule rule'

instance (cfg : RateLimitConfig) : Decidable cfg.SharesState :=
  inferInstanceAs (Decidable (∀ rule ∈ cfg.effectiveRules, ∀ rule' ∈ cfg.effectiveRules,
    rule.scope = rule'.scope → cfg.Alike rule rule'))

/-! ## Rules that keep their state alike -/

private theorem ite_granted {p q : Prop} [Decidable p] [Decidable q] {x y : LimitState}
    (h : (if p then (true, x) else (false, y)).1 = true)
    (h' : (if q then (true, x) else (false, y)).1 = true) :
    (if p then (true, x) else (false, y)) = if q then (true, x) else (false, y) := by
  by_cases hp : p
  · by_cases hq : q
    · rw [if_pos hp, if_pos hq]
    · simp [hq] at h'
  · simp [hp] at h

/-- A limit decides whether a policy accepts, not what it stores when it
does; only the token bucket stores a number that depends on its limit. -/
theorem applyPolicy_granted {policy : RateLimitPolicy} {rule rule' : ScopedLimitRule}
    {now : Instant} {state : LimitState} (hwindow : rule.window = rule'.window)
    (hlimit : policy = .tokenBucket → rule.limit = rule'.limit)
    (h : (applyPolicy policy rule state now).1 = true)
    (h' : (applyPolicy policy rule' state now).1 = true) :
    applyPolicy policy rule state now = applyPolicy policy rule' state now := by
  cases policy with
  | tokenBucket =>
    have hrate : rule.refillPerSecond = rule'.refillPerSecond := by
      rw [ScopedLimitRule.refillPerSecond, ScopedLimitRule.refillPerSecond, hlimit rfl, hwindow]
    simp only [applyPolicy, hlimit rfl, hrate]
  | fixedWindow =>
    simp only [applyPolicy, hwindow] at h h' ⊢
    exact ite_granted h h'
  | slidingWindow =>
    simp only [applyPolicy, hwindow] at h h' ⊢
    exact ite_granted h h'

namespace RateLimitConfig

variable {cfg : RateLimitConfig}

theorem stageRule_eq_some {rule : ScopedLimitRule} {now : Instant}
    {current next : LimitState} :
    cfg.stageRule rule now current = some next
      ↔ quotaReached rule current = false
        ∧ (applyPolicy (cfg.policyOf rule) rule current now).1 = true
        ∧ next = { (applyPolicy (cfg.policyOf rule) rule current now).2 with
            acceptedTotal :=
              (applyPolicy (cfg.policyOf rule) rule current now).2.acceptedTotal + 1 } := by
  unfold stageRule
  cases hquota : quotaReached rule current with
  | true => simp
  | false =>
    simp only [Bool.false_eq_true, if_false, true_and]
    rcases applyPolicy (cfg.policyOf rule) rule current now with ⟨ok, state⟩
    cases ok with
    | false => simp
    | true => simp [eq_comm]

theorem stageRule_alike {rule rule' : ScopedLimitRule} {now : Instant}
    {current next next' : LimitState} (halike : cfg.Alike rule rule')
    (h : cfg.stageRule rule now current = some next)
    (h' : cfg.stageRule rule' now current = some next') : next = next' := by
  obtain ⟨hpolicy, hwindow, hlimit⟩ := halike
  obtain ⟨-, hok, rfl⟩ := stageRule_eq_some.mp h
  obtain ⟨-, hok', rfl⟩ := stageRule_eq_some.mp h'
  rw [← hpolicy] at hok' ⊢
  rw [applyPolicy_granted hwindow hlimit hok hok']

/-! ## The simulation -/

/-- The state stored under a key is the own state of every rule that
uses the key. -/
structure Agrees (cfg : RateLimitConfig) (states : LimitStates)
    (limiters : List RuleLimiter) : Prop where
  rules_eq : limiters.map RuleLimiter.rule = cfg.effectiveRules
  own_eq : ∀ limiter ∈ limiters, ∀ value,
    limiter.own value = states.lookup (scopeKey limiter.rule.scope value)

namespace Agrees

variable {states : LimitStates} {limiters : List RuleLimiter}
  {check : RateLimitContext × Instant}

theorem fresh : cfg.Agrees .empty (cfg.effectiveRules.map .fresh) where
  rules_eq := by
    rw [List.map_map]
    exact List.map_id _
  own_eq := fun limiter hmem value => by
    obtain ⟨rule, -, rfl⟩ := List.mem_map.mp hmem
    rfl

theorem next_eq (h : cfg.Agrees states limiters) {limiter : RuleLimiter}
    (hmem : limiter ∈ limiters) :
    limiter.next cfg check
      = cfg.stageRule limiter.rule check.2 (states.lookup (ruleKey check.1 limiter.rule)) := by
  rw [RuleLimiter.next, h.own_eq limiter hmem]
  rfl

theorem rule_mem (h : cfg.Agrees states limiters) {limiter : RuleLimiter}
    (hmem : limiter ∈ limiters) : limiter.rule ∈ cfg.effectiveRules := by
  rw [← h.rules_eq]
  exact List.mem_map_of_mem hmem

/-- After an accepted check every rule finds its own next state under
its key, whichever rule wrote it. -/
theorem granted (h : cfg.Agrees states limiters) (hshares : cfg.SharesState)
    {after : LimitStates} (hgranted : cfg.Granted check.1 check.2 states after) :
    cfg.Agrees after (limiters.map (RuleLimiter.advance cfg check)) := by
  -- an accepted check has staged every rule, so every limiter advances
  have hadvance : ∀ limiter ∈ limiters, ∃ state,
      limiter.next cfg check = some state
        ∧ limiter.advance cfg check = { limiter with
            own := Function.update limiter.own (check.1.value limiter.rule.scope) state } := by
    intro limiter hmem
    obtain ⟨state, hstate⟩ := hgranted.staged limiter.rule (h.rule_mem hmem)
    rw [← h.next_eq hmem] at hstate
    exact ⟨state, hstate, by rw [RuleLimiter.advance, hstate]⟩
  refine ⟨?_, fun advanced hmem value => ?_⟩
  · rw [← h.rules_eq, List.map_map]
    apply List.map_congr_left
    intro limiter hmem
    obtain ⟨state, -, hafter⟩ := hadvance limiter hmem
    rw [Function.comp_apply, hafter]
  · obtain ⟨limiter, hlimiter, rfl⟩ := List.mem_map.mp hmem
    obtain ⟨state, hstate, hafter⟩ := hadvance limiter hlimiter
    rw [hafter]
    show Function.update limiter.own (check.1.value limiter.rule.scope) state value
      = after.lookup (scopeKey limiter.rule.scope value)
    by_cases hvalue : value = check.1.value limiter.rule.scope
    · -- the state of this request's value, written by the last rule of the scope
      subst hvalue
      rw [Function.update_self]
      obtain ⟨writer, hwriter, hscope, hwritten⟩ :=
        hgranted.written_of_mem (h.rule_mem hlimiter)
      rw [h.next_eq hlimiter] at hstate
      exact stageRule_alike (hshares _ (h.rule_mem hlimiter) _ hwriter hscope.symm) hstate
        hwritten
    · -- no rule writes under another value
      rw [Function.update_of_ne hvalue, h.own_eq limiter hlimiter]
      refine (hgranted.kept _ fun rule _ hkey => ?_).symm
      obtain ⟨hscope, hval⟩ := scopeKey_injective hkey
      rw [hscope] at hval
      exact hvalue hval.symm

/-- **One check** decides as the independent limiters do and keeps the
agreement. -/
theorem check_eq (h : cfg.Agrees states limiters) (hon : cfg.enabled = true)
    (hrules : cfg.isLegacy = false) (hshares : cfg.SharesState) :
    (cfg.checkWithContext check.1 check.2 states).1 = (checkIndependent cfg limiters check).1
      ∧ cfg.Agrees (cfg.checkWithContext check.1 check.2 states).2
          (checkIndependent cfg limiters check).2 := by
  rcases checkWithContext_cases hon hrules check.1 check.2 states with
    ⟨hcheck, rule, hrule, hrefuse⟩ | ⟨after, hcheck, hgranted⟩
  · have hnot : limiters.all (fun limiter => (limiter.next cfg check).isSome) = false := by
      rw [← h.rules_eq] at hrule
      obtain ⟨limiter, hmem, rfl⟩ := List.mem_map.mp hrule
      rw [List.all_eq_false]
      exact ⟨limiter, hmem, by rw [h.next_eq hmem, hrefuse]; simp⟩
    rw [hcheck, checkIndependent, hnot]
    exact ⟨rfl, h⟩
  · have hall : limiters.all (fun limiter => (limiter.next cfg check).isSome) = true := by
      rw [List.all_eq_true]
      intro limiter hmem
      obtain ⟨state, hstate⟩ := hgranted.staged limiter.rule (h.rule_mem hmem)
      rw [h.next_eq hmem, hstate]
      rfl
    rw [hcheck, checkIndependent, hall]
    exact ⟨rfl, h.granted hshares hgranted⟩

end Agrees

/-- **The limiter is the conjunction of its rules** on every trace, when
rules of one scope keep their state alike. -/
theorem decisions_eq_independent {cfg : RateLimitConfig} (hon : cfg.enabled = true)
    (hrules : cfg.isLegacy = false) (hshares : cfg.SharesState)
    (trace : List (RateLimitContext × Instant)) :
    cfg.decisions .empty trace
      = Run.outputs (checkIndependent cfg) (cfg.effectiveRules.map .fresh) trace := by
  have hfresh : cfg.Agrees .empty (cfg.effectiveRules.map .fresh) := .fresh
  refine Run.outputs_eq_of_simulation (R := fun _ states limiters => cfg.Agrees states limiters)
    ?_ hfresh
  intro check rest states limiters h
  exact h.check_eq hon hrules hshares

end RateLimitConfig

/-! ### Two rules on one scope -/

def clientRequest (client : String) : RateLimitContext where
  route := "orders"
  service := "orders-svc"
  consumer := none
  client := client

/-- A client is limited twice: one request and two requests a minute. -/
def twiceLimited (policy : RateLimitPolicy) : RateLimitConfig where
  enabled := true
  scopedLimits :=
    [{ scope := .client, limit := 1, policy := some policy },
      { scope := .client, limit := 2, policy := some .fixedWindow }]

/-- Two fixed windows of one length keep one state. -/
theorem twice_fixed_window_independent :
    let trace := [(clientRequest "a", 0), (clientRequest "a", 1)]
    (twiceLimited .fixedWindow).SharesState
      ∧ (twiceLimited .fixedWindow).decisions .empty trace
        = Run.outputs (checkIndependent (twiceLimited .fixedWindow))
            ((twiceLimited .fixedWindow).effectiveRules.map .fresh) trace :=
  ⟨by decide, RateLimitConfig.decisions_eq_independent rfl rfl (by decide) _⟩

/-- A token bucket in front of a fixed window never loses a token: the
state written back is the fixed window's. On its own the bucket refuses
the second request. -/
theorem token_bucket_overwritten :
    let trace := [(clientRequest "a", 0), (clientRequest "a", 1)]
    (twiceLimited .tokenBucket).decisions .empty trace = [true, true]
      ∧ Run.outputs (checkIndependent (twiceLimited .tokenBucket))
          ((twiceLimited .tokenBucket).effectiveRules.map .fresh) trace = [true, false] := by
  decide +kernel

end KongGateway.GatewayCore

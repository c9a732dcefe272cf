import Mathlib.Data.List.Induction
import KongGateway.GatewayCore.RateLimit.Independent

/-!
# RateLimit — the history of accepted checks

What a limiter enforces is a bound on the checks it has accepted, and
the code keeps that history only as far as its policies need it. Here
every accepted check is recorded, with the states it left behind; the
record is bookkeeping the code does not have.

The quota of a rule is the simplest such bound: `accepted_total` is the
length of the history of a key, although several rules may write it.
-/

namespace KongGateway.GatewayCore

open RustStd

/-! ## The record -/

structure AcceptedCheck where
  ctx : RateLimitContext
  time : Instant
  left : LimitStates

/-- The limiter and the checks it has accepted, oldest first. -/
structure Recording where
  states : LimitStates
  accepted : List AcceptedCheck

namespace Recording

def start : Recording where
  states := .empty
  accepted := []

def step (cfg : RateLimitConfig) (r : Recording) (check : RateLimitContext × Instant) :
    Recording :=
  let (ok, states) := cfg.checkWithContext check.1 check.2 r.states
  { states := states
    accepted := if ok then r.accepted ++ [⟨check.1, check.2, states⟩] else r.accepted }

/-- The limiter after a trace of checks, from the empty state. -/
def after (cfg : RateLimitConfig) (trace : List (RateLimitContext × Instant)) : Recording :=
  Run.exec (step cfg) start trace

/-- The accepted checks that the scope maps to `value`. -/
def acceptedOf (r : Recording) (scope : LimitScope) (value : String) : List AcceptedCheck :=
  r.accepted.filter fun check => check.ctx.value scope = value

/-- The times of the accepted checks that the scope maps to `value`. -/
def times (r : Recording) (scope : LimitScope) (value : String) : List Instant :=
  (r.acceptedOf scope value).map AcceptedCheck.time

/-- The accepted checks of a key with a time in `[s, s + d)`. -/
def countWithin (r : Recording) (scope : LimitScope) (value : String) (s : Instant)
    (d : Duration) : Nat :=
  (r.times scope value).countP fun time => s ≤ time ∧ time < s + d

theorem countP_open_eq (r : Recording) (scope : LimitScope) (value : String) (s : Instant)
    (d : Duration) :
    (r.times scope value).countP (fun time => s < time ∧ time ≤ s + d)
      = r.countWithin scope value (s + 1) d := by
  refine List.countP_congr fun time _ => ?_
  rw [decide_eq_true_eq, decide_eq_true_eq, Nat.add_right_comm, Nat.lt_succ_iff, Nat.succ_le_iff]

variable {cfg : RateLimitConfig} {r : Recording} {check : RateLimitContext × Instant}

/-! ## One check -/

/-- **One check, recorded**: nothing changes, or all rules have staged a
next state and the check is recorded. -/
theorem step_cases (hon : cfg.enabled = true) (hrules : cfg.isLegacy = false)
    (r : Recording) (check : RateLimitContext × Instant) :
    r.step cfg check = r
    ∨ ∃ left, r.step cfg check = ⟨left, r.accepted ++ [⟨check.1, check.2, left⟩]⟩
      ∧ cfg.Granted check.1 check.2 r.states left := by
  rcases RateLimitConfig.checkWithContext_cases hon hrules check.1 check.2 r.states with
    ⟨hcheck, -⟩ | ⟨left, hcheck, hgranted⟩
  · left
    simp [step, hcheck]
  · exact .inr ⟨left, by simp [step, hcheck], hgranted⟩

/-- What one check does to the state and the history of one key. -/
inductive KeyStep (cfg : RateLimitConfig) (rule : ScopedLimitRule) (value : String)
    (r : Recording) (check : RateLimitContext × Instant) (r' : Recording) : Prop where
  | kept :
      r'.states.lookup (scopeKey rule.scope value) = r.states.lookup (scopeKey rule.scope value) →
      r'.acceptedOf rule.scope value = r.acceptedOf rule.scope value →
      KeyStep cfg rule value r check r'
  | granted {writer : ScopedLimitRule} :
      check.1.value rule.scope = value →
      (cfg.stageRule rule check.2 (r.states.lookup (scopeKey rule.scope value))).isSome →
      writer ∈ cfg.effectiveRules → writer.scope = rule.scope →
      cfg.stageRule writer check.2 (r.states.lookup (scopeKey rule.scope value))
        = some (r'.states.lookup (scopeKey rule.scope value)) →
      r'.acceptedOf rule.scope value
        = r.acceptedOf rule.scope value ++ [⟨check.1, check.2, r'.states⟩] →
      KeyStep cfg rule value r check r'

theorem keyStep (hon : cfg.enabled = true) (hrules : cfg.isLegacy = false)
    {rule : ScopedLimitRule} (hrule : rule ∈ cfg.effectiveRules) (value : String)
    (r : Recording) (check : RateLimitContext × Instant) :
    KeyStep cfg rule value r check (r.step cfg check) := by
  rcases step_cases hon hrules r check with hsame | ⟨left, hstep, hgranted⟩
  · rw [hsame]
    exact .kept rfl rfl
  · rw [hstep]
    by_cases hvalue : check.1.value rule.scope = value
    · subst hvalue
      obtain ⟨writer, hwriter, hscope, hwritten⟩ := hgranted.written_of_mem hrule
      obtain ⟨next, hnext⟩ := hgranted.staged rule hrule
      refine .granted rfl (Option.isSome_of_eq_some hnext) hwriter hscope hwritten ?_
      simp [acceptedOf]
    · refine .kept (hgranted.kept _ fun other _ hkey => ?_) ?_
      · obtain ⟨hscope, heq⟩ := scopeKey_injective hkey
        rw [hscope] at heq
        exact hvalue heq
      · simp [acceptedOf, hvalue]

/-! ## Clocks that do not run backwards -/

/-- No check has been accepted at a later time. -/
def InOrder (r : Recording) (check : RateLimitContext × Instant) : Prop :=
  ∀ earlier ∈ r.accepted, earlier.time ≤ check.2

theorem InOrder.times_le (h : r.InOrder check) {scope : LimitScope} {value : String} :
    ∀ time ∈ r.times scope value, time ≤ check.2 := by
  intro time hmem
  obtain ⟨earlier, hearlier, rfl⟩ := List.mem_map.mp hmem
  exact h earlier (List.mem_of_mem_filter hearlier)

theorem mem_accepted {trace : List (RateLimitContext × Instant)} {accepted : AcceptedCheck}
    (h : accepted ∈ (after cfg trace).accepted) : (accepted.ctx, accepted.time) ∈ trace := by
  induction trace using List.reverseRecOn with
  | nil => cases h
  | append_singleton trace check ih =>
    rw [after, Run.exec_append] at h
    simp only [Run.exec_cons, Run.exec_nil, step] at h
    split at h
    · rcases List.mem_append.mp h with h | h
      · exact List.mem_append_left _ (ih h)
      · rw [List.mem_singleton.mp h]
        simp
    · exact List.mem_append_left _ (ih h)

theorem inOrder_after {before rest : List (RateLimitContext × Instant)}
    (hclock : ((before ++ check :: rest).map Prod.snd).Pairwise (· ≤ ·)) :
    (after cfg before).InOrder check := by
  intro earlier hmem
  rw [List.map_append, List.pairwise_append] at hclock
  exact hclock.2.2 earlier.time (List.mem_map_of_mem (mem_accepted hmem)) check.2 (by simp)

theorem guarded_inOrder {trace : List (RateLimitContext × Instant)}
    (hclock : (trace.map Prod.snd).Pairwise (· ≤ ·)) :
    Run.Guarded (step cfg) InOrder start trace := by
  refine Run.Guarded.of_prefix fun pre check hpre => ?_
  obtain ⟨rest, rfl⟩ := hpre
  rw [List.append_assoc] at hclock
  exact inOrder_after hclock

/-- **The invariant rule for histories**: what one check at a time not
earlier than the recorded ones preserves, every trace with a clock that
does not run backwards preserves. -/
theorem after_invariant {Inv : Recording → Prop} (hstart : Inv start)
    (hstep : ∀ r check, Inv r → r.InOrder check → Inv (r.step cfg check))
    {trace : List (RateLimitContext × Instant)}
    (hclock : (trace.map Prod.snd).Pairwise (· ≤ ·)) : Inv (after cfg trace) :=
  Run.Guarded.invariant hstep hstart (guarded_inOrder hclock)

end Recording

/-! ## Quotas -/

theorem applyPolicy_acceptedTotal (policy : RateLimitPolicy) (rule : ScopedLimitRule)
    (state : LimitState) (now : Instant) :
    (applyPolicy policy rule state now).2.acceptedTotal = state.acceptedTotal := by
  cases policy with
  | tokenBucket =>
    simp only [applyPolicy, takeToken]
    split_ifs <;> split <;> rfl
  | fixedWindow =>
    simp only [applyPolicy, countFixedWindow]
    split_ifs <;> rfl
  | slidingWindow =>
    simp only [applyPolicy, pushSlidingHit]
    split_ifs <;> rfl

theorem RateLimitConfig.stageRule_acceptedTotal {cfg : RateLimitConfig} {rule : ScopedLimitRule}
    {now : Instant} {current next : LimitState}
    (h : cfg.stageRule rule now current = some next) :
    next.acceptedTotal = current.acceptedTotal + 1 := by
  obtain ⟨-, -, rfl⟩ := stageRule_eq_some.mp h
  simp only [applyPolicy_acceptedTotal]

namespace Recording

/-- The total of every key of the rules is the number of its accepted
checks, within the quotas of the rules. -/
structure Counted (cfg : RateLimitConfig) (r : Recording) : Prop where
  total : ∀ rule ∈ cfg.effectiveRules, ∀ value,
    (r.states.lookup (scopeKey rule.scope value)).acceptedTotal
      = (r.acceptedOf rule.scope value).length
  within : ∀ rule ∈ cfg.effectiveRules, ∀ quota, rule.quota = some quota → ∀ value,
    (r.acceptedOf rule.scope value).length ≤ quota.toNat
  stored : ∀ scope value, r.states (scopeKey scope value) ≠ none →
    ∃ rule ∈ cfg.effectiveRules, rule.scope = scope

variable {cfg : RateLimitConfig} {r : Recording}

theorem Counted.start : Counted cfg .start where
  total := fun _ _ _ => rfl
  within := fun _ _ _ _ _ => Nat.zero_le _
  stored := fun _ _ h => absurd rfl h

theorem Counted.step (h : r.Counted cfg) (hon : cfg.enabled = true)
    (hrules : cfg.isLegacy = false) (check : RateLimitContext × Instant) :
    (r.step cfg check).Counted cfg where
  total := fun rule hrule value => by
    cases keyStep hon hrules hrule value r check with
    | kept hstate hhistory => rw [hstate, hhistory, h.total rule hrule value]
    | granted hvalue hstaged hwriter hscope hwritten hhistory =>
      rw [RateLimitConfig.stageRule_acceptedTotal hwritten, hhistory, List.length_append,
        h.total rule hrule value, List.length_singleton]
  within := fun rule hrule quota hquota value => by
    cases keyStep hon hrules hrule value r check with
    | kept hstate hhistory =>
      rw [hhistory]
      exact h.within rule hrule quota hquota value
    | granted hvalue hstaged hwriter hscope hwritten hhistory =>
      -- the rule itself has staged a state, so its quota was not reached
      obtain ⟨next, hnext⟩ := Option.isSome_iff_exists.mp hstaged
      have hopen := (RateLimitConfig.stageRule_eq_some.mp hnext).1
      simp only [RateLimitConfig.quotaReached, hquota, decide_eq_false_iff_not,
        h.total rule hrule value] at hopen
      rw [hhistory, List.length_append, List.length_singleton]
      omega
  stored := fun scope value hstored => by
    rcases RateLimitConfig.stored_of_checkWithContext hon hrules hstored with
      hbefore | ⟨rule, hrule, hkey⟩
    · exact h.stored scope value hbefore
    · exact ⟨rule, hrule, (scopeKey_injective hkey).1⟩

end Recording

/-- **Quotas are never exceeded.** In every run of checks that are
decided by rules, the total stored for a key is the number of accepted
checks of the key, whichever rules share it, and stays within the quota
of each of them. -/
theorem accepted_total_within_quota {cfg : RateLimitConfig} (hon : cfg.enabled = true)
    (hrules : cfg.isLegacy = false) (trace : List (RateLimitContext × Instant)) :
    let r := Recording.after cfg trace
    (∀ scope value state, r.states (scopeKey scope value) = some state →
      state.acceptedTotal = (r.acceptedOf scope value).length)
    ∧ ∀ rule ∈ cfg.effectiveRules, ∀ value,
      (r.states.lookup (scopeKey rule.scope value)).acceptedTotal
        = (r.acceptedOf rule.scope value).length
      ∧ ∀ quota, rule.quota = some quota →
        (r.acceptedOf rule.scope value).length ≤ quota.toNat := by
  intro r
  have hcounted : r.Counted cfg :=
    Run.exec_invariant (fun _ check h => h.step hon hrules check) .start trace
  refine ⟨fun scope value state hstored => ?_, fun rule hrule value => ?_⟩
  · obtain ⟨rule, hrule, rfl⟩ := hcounted.stored scope value (by simp [hstored])
    have htotal := hcounted.total rule hrule value
    rwa [LimitStates.lookup, hstored, Option.getD_some] at htotal
  · exact ⟨hcounted.total rule hrule value,
      fun quota hquota => hcounted.within rule hrule quota hquota value⟩

/-! ### A shared key, and limiters without rules -/

/-- Two rules for one consumer, with different quotas. -/
def twoQuotas : RateLimitConfig where
  enabled := true
  policy := .slidingWindow
  scopedLimits := [
    { scope := .consumer, limit := 10, quota := some 2 },
    { scope := .consumer, limit := 10, quota := some 3 }]

def orderByUser : RateLimitContext where
  route := "orders"
  service := "orders-svc"
  consumer := some "user-1"
  client := "orders:10.0.0.9"

/-- Of three checks two are accepted and counted. -/
theorem two_quotas_count_two :
    let r := Recording.after twoQuotas [(orderByUser, 0), (orderByUser, 1), (orderByUser, 2)]
    (r.states.lookup "consumer:user-1").acceptedTotal = 2
      ∧ (r.acceptedOf .consumer "user-1").length ≤ 2 := by
  intro r
  have hrule : ({ scope := .consumer, limit := 10, quota := some 2 } : ScopedLimitRule)
      ∈ twoQuotas.effectiveRules := by decide
  exact ⟨by decide +kernel, ((accepted_total_within_quota rfl rfl
    [(orderByUser, 0), (orderByUser, 1), (orderByUser, 2)]).2 _ hrule "user-1").2 2 rfl⟩

/-- Without rules, and with the token bucket as its policy. -/
def bucketOnly : RateLimitConfig where
  enabled := true

/-- Switched off, with a rule that would refuse everything. -/
def switchedOff : RateLimitConfig where
  enabled := false
  scopedLimits := [{ scope := .client, limit := 1, quota := some 0 }]

/-- A limiter without rules keeps a token bucket for the client and
counts nothing; a limiter that is switched off asks no rule. -/
theorem nothing_counted_without_rules :
    (((Recording.after bucketOnly [(orderByUser, 0)]).states "client:orders:10.0.0.9").map
        LimitState.acceptedTotal = some 0
      ∧ ((Recording.after bucketOnly [(orderByUser, 0)]).acceptedOf .client
        "orders:10.0.0.9").length = 1)
    ∧ ¬ ((Recording.after switchedOff [(orderByUser, 0)]).acceptedOf .client
        "orders:10.0.0.9").length ≤ 0 := by
  decide +kernel

end KongGateway.GatewayCore

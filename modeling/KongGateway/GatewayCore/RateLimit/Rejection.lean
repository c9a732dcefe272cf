import KongGateway.GatewayCore.RateLimit.Bucket

/-!
# RateLimit — rejected requests leave no trace

On the path with rules a rejected check leaves the map as it was: the
staged states are dropped, wherever in the list the refusing rule
stands. The legacy bucket is written on every check; a rejection leaves
a refilled bucket behind. Refilling twice is refilling once, so no later
check can tell, as long as the clock does not run backwards.
-/

namespace KongGateway.GatewayCore

open RustStd TokenBucket

/-- The state a rejected check of the legacy bucket leaves behind. -/
def LimitState.refilledAt (capacity rate : ℚ) (now : Instant) (state : LimitState) :
    LimitState :=
  { state with
    tokens := (refill capacity rate (asSecs now) state.bucket).tokens
    lastRefill := some now }

theorem takeToken_lastRefill {capacity rate : ℚ} {now : Instant} {state : LimitState}
    (hby : state.RefilledBy now) :
    (takeToken capacity rate now state).2.lastRefill = some now := by
  rw [takeToken_eq hby]
  by_cases hone : 1 ≤ (refill capacity rate (asSecs now) state.bucket).tokens
  · simp only [if_pos hone]
  · simp only [if_neg hone]

theorem takeToken_rejected {capacity rate : ℚ} {now : Instant} {state : LimitState}
    (hby : state.RefilledBy now) (hreject : (takeToken capacity rate now state).1 = false) :
    (takeToken capacity rate now state).2 = state.refilledAt capacity rate now := by
  rw [takeToken_eq hby] at hreject ⊢
  by_cases hone : 1 ≤ (refill capacity rate (asSecs now) state.bucket).tokens
  · simp [if_pos hone] at hreject
  · simp only [if_neg hone]
    rfl

/-- A later check cannot tell a bucket that was refilled before from one
that was not. -/
theorem takeToken_refilledAt {capacity rate : ℚ} (hrate : 0 ≤ rate) {now later : Instant}
    {state : LimitState} (hby : state.RefilledBy now) (hle : now ≤ later) :
    takeToken capacity rate later (state.refilledAt capacity rate now)
      = takeToken capacity rate later state := by
  have hby' : state.RefilledBy later := fun last hlast => Nat.le_trans (hby last hlast) hle
  have hbyNow : (state.refilledAt capacity rate now).RefilledBy later := by
    intro last hlast
    cases hlast
    exact hle
  have hbucket : (state.refilledAt capacity rate now).bucket
      = some (refill capacity rate (asSecs now) state.bucket) :=
    congrArg some (mk_refill_tokens _ _)
  rw [takeToken_eq hbyNow, takeToken_eq hby', hbucket, refill_refill hrate (asSecs_le hle)]
  rfl

namespace RateLimitConfig

variable {cfg : RateLimitConfig}

/-! ## The legacy bucket -/

/-- The states agree, but for buckets that one of the two has refilled
before all checks still to come. -/
def Refilled (cfg : RateLimitConfig) (trace : List (RateLimitContext × Instant))
    (states states' : LimitStates) : Prop :=
  ∀ key, states.lookup key = states'.lookup key
    ∨ ∃ now, (states'.lookup key).RefilledBy now ∧ (∀ check ∈ trace, now ≤ check.2)
      ∧ states.lookup key
        = (states'.lookup key).refilledAt cfg.capacity.toNat cfg.refillPerSecond.toNat now

theorem Refilled.applyLegacyTokenBucket_eq {check : RateLimitContext × Instant}
    {trace : List (RateLimitContext × Instant)} {states states' : LimitStates}
    (h : cfg.Refilled (check :: trace) states states') (key : String) :
    cfg.applyLegacyTokenBucket (states.lookup key) check.2
      = cfg.applyLegacyTokenBucket (states'.lookup key) check.2 := by
  rcases h key with heq | ⟨now, hby, hle, heq⟩
  · rw [heq]
  · rw [heq, applyLegacyTokenBucket, applyLegacyTokenBucket]
    exact takeToken_refilledAt (Nat.cast_nonneg _) hby (hle check List.mem_cons_self)

theorem Refilled.decisions_eq (hon : cfg.enabled = true) (hlegacy : cfg.isLegacy = true)
    {trace : List (RateLimitContext × Instant)} {states states' : LimitStates}
    (h : cfg.Refilled trace states states') :
    cfg.decisions states trace = cfg.decisions states' trace := by
  refine Run.outputs_eq_of_simulation (R := fun trace => cfg.Refilled trace) ?_ h
  intro check rest states states' h
  simp only [checkWithContext_legacy hon hlegacy, h.applyLegacyTokenBucket_eq]
  -- the bucket the check uses is the same from here on, the others wait for their next check
  refine ⟨trivial, fun key => ?_⟩
  by_cases hk : key = scopeKey .client (check.1.value .client)
  · subst hk
    rw [LimitStates.lookup_insert_self, LimitStates.lookup_insert_self]
    exact .inl rfl
  · rw [LimitStates.lookup_insert_ne _ _ hk, LimitStates.lookup_insert_ne _ _ hk]
    rcases h key with heq | ⟨now, hby, hle, heq⟩
    · exact .inl heq
    · exact .inr ⟨now, hby, fun later hlater => hle later (List.mem_cons_of_mem _ hlater), heq⟩

/-- The clock does not run backwards: along the trace, nor from a stored
refill to the trace. -/
structure ClockForward (states : LimitStates) (trace : List (RateLimitContext × Instant)) :
    Prop where
  nondecreasing : trace.Pairwise fun check later => check.2 ≤ later.2
  past : ∀ key, ∀ check ∈ trace, (states.lookup key).RefilledBy check.2

theorem ClockForward.step (hon : cfg.enabled = true) (hlegacy : cfg.isLegacy = true)
    {check : RateLimitContext × Instant} {trace : List (RateLimitContext × Instant)}
    {states : LimitStates} (h : ClockForward states (check :: trace)) :
    ClockForward (cfg.checkWithContext check.1 check.2 states).2 trace := by
  obtain ⟨hlater, hrest⟩ := List.pairwise_cons.mp h.nondecreasing
  refine ⟨hrest, fun key later hmem => ?_⟩
  rw [checkWithContext_legacy hon hlegacy]
  by_cases hk : key = scopeKey .client (check.1.value .client)
  · subst hk
    intro last hlast
    rw [LimitStates.lookup_insert_self, applyLegacyTokenBucket,
      takeToken_lastRefill (h.past _ check List.mem_cons_self)] at hlast
    cases hlast
    exact hlater later hmem
  · rw [LimitStates.lookup_insert_ne _ _ hk]
    exact h.past key later (List.mem_cons_of_mem _ hmem)

theorem ClockForward.rejected (hon : cfg.enabled = true) (hlegacy : cfg.isLegacy = true)
    {check : RateLimitContext × Instant} {trace : List (RateLimitContext × Instant)}
    {states : LimitStates} (h : ClockForward states (check :: trace))
    (hreject : (cfg.checkWithContext check.1 check.2 states).1 = false) :
    cfg.Refilled trace (cfg.checkWithContext check.1 check.2 states).2 states := by
  have hby := h.past (scopeKey .client (check.1.value .client)) check List.mem_cons_self
  rw [checkWithContext_legacy hon hlegacy] at hreject ⊢
  intro key
  by_cases hk : key = scopeKey .client (check.1.value .client)
  · subst hk
    refine .inr ⟨check.2, hby, (List.pairwise_cons.mp h.nondecreasing).1, ?_⟩
    rw [LimitStates.lookup_insert_self]
    exact takeToken_rejected hby hreject
  · exact .inl (LimitStates.lookup_insert_ne _ _ hk)

/-! ## The path with rules -/

theorem checkWithContext_rejected (hrules : cfg.isLegacy = false) {ctx : RateLimitContext}
    {now : Instant} {states : LimitStates}
    (hreject : (cfg.checkWithContext ctx now states).1 = false) :
    (cfg.checkWithContext ctx now states).2 = states := by
  cases hon : cfg.enabled with
  | false => simp [checkWithContext, hon]
  | true =>
    rcases checkWithContext_cases hon hrules ctx now states with
      ⟨hcheck, -⟩ | ⟨after, hcheck, -⟩
    · rw [hcheck]
    · rw [hcheck] at hreject
      cases hreject

/-- **Rejected requests leave no trace**: taking a rejected check out of
a trace changes no other decision. -/
theorem decisions_eraseIdx_of_rejected (cfg : RateLimitConfig) {states : LimitStates}
    {trace : List (RateLimitContext × Instant)} (hclock : ClockForward states trace) {i : Nat}
    (hreject : (cfg.decisions states trace)[i]? = some false) :
    cfg.decisions states (trace.eraseIdx i) = (cfg.decisions states trace).eraseIdx i := by
  by_cases hlegacy : cfg.enabled = true ∧ cfg.isLegacy = true
  · obtain ⟨hon, hlegacy⟩ := hlegacy
    refine Run.outputs_eraseIdx ClockForward ?_ ?_ hclock hreject
    · intro states check rest h
      exact h.step hon hlegacy
    · intro states check rest h hreject
      exact (h.rejected hon hlegacy hreject).decisions_eq hon hlegacy
  · -- a rejected check leaves the very same map behind
    refine Run.outputs_eraseIdx (fun _ _ => True) (fun _ _ _ _ => trivial) ?_ trivial hreject
    intro states check rest _ hreject
    have hsame : (cfg.checkWithContext check.1 check.2 states).2 = states := by
      cases hrules : cfg.isLegacy with
      | false => exact checkWithContext_rejected hrules hreject
      | true =>
        have hoff : cfg.enabled = false := by simpa [hrules] using hlegacy
        simp [checkWithContext, hoff]
    rw [hsame]

end RateLimitConfig

/-- The second of two requests at the same instant is rejected, and the
one a second later is accepted with or without it. -/
theorem rejected_second_request_forgotten :
    let trace := [(clientA, 0), (clientA, 0), (clientA, nanosPerSec)]
    oneToken.decisions .empty trace = [true, false, true]
      ∧ oneToken.decisions .empty (trace.eraseIdx 1)
        = (oneToken.decisions .empty trace).eraseIdx 1 := by
  have hclock : RateLimitConfig.ClockForward .empty
      [(clientA, 0), (clientA, 0), (clientA, nanosPerSec)] :=
    ⟨by decide, fun _ _ _ _ hlast => by cases hlast⟩
  exact ⟨by decide +kernel,
    oneToken.decisions_eraseIdx_of_rejected hclock (by decide +kernel)⟩

end KongGateway.GatewayCore

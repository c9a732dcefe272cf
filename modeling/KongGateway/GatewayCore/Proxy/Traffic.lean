import KongGateway.GatewayCore.Proxy.PickTarget

/-!
# Proxy — traffic to one upstream, and its probe slots

The registry of one upstream under traffic: picks, completions of the
requests in flight, active health checks and passing time, in any order.
`probesSent` counts the requests sent to a target since its circuit last
turned half open; it is bookkeeping the code does not have.

A half-open circuit is meant to spend one slot for each request sent to
its target. `pick_target` asks `is_available` of every target, chosen or
not, so the count is right exactly for the calls that ask for no slot
but the chosen target's one (`ProbesOnlyChosen`).
-/

namespace KongGateway.GatewayCore

open RustStd

/-! ## The system -/

structure Traffic where
  registry : RuntimeRegistry
  inFlight : String → Nat
  probesSent : String → Nat
  now : Instant

def Traffic.start (passiveCfg : PassiveHealthCheckConfig)
    (breakerCfg : CircuitBreakerConfig) : Traffic where
  registry := .new passiveCfg breakerCfg
  inFlight := fun _ => 0
  probesSent := fun _ => 0
  now := 0

inductive TrafficEvent where
  | pick (requestKey : String) (requestCount : Nat)
  | succeed (key : String)
  | fail (key : String)
  | setActiveHealth (key : String) (healthy : Bool)
  | wait (time : Duration)
deriving DecidableEq, Repr

def CircuitState.isHalfOpen : CircuitState → Bool
  | halfOpen _ => true
  | _ => false

namespace Traffic

/-- The key a pick sends its request to. -/
def sentTo (upstream : UpstreamConfig) (picked : Option UpstreamTarget) : Option String :=
  picked.map fun target => targetKey upstream.name target.id

def step (hasher : String → Nat) (upstream : UpstreamConfig) (s : Traffic) :
    TrafficEvent → Traffic
  | .pick requestKey requestCount =>
    let (picked, registry) :=
      pickTarget hasher upstream s.registry s.now requestKey requestCount
    let sent := fun key => if sentTo upstream picked = some key then 1 else 0
    { s with
      registry := registry
      inFlight := fun key => s.inFlight key + sent key
      probesSent := fun key =>
        if (s.registry.entry key).circuitState.isHalfOpen then s.probesSent key + sent key
        else 0 }
  | .succeed key =>
    { s with
      registry := s.registry.recordSuccess key
      inFlight := Function.update s.inFlight key (s.inFlight key - 1) }
  | .fail key =>
    { s with
      registry := s.registry.recordFailure s.now key
      inFlight := Function.update s.inFlight key (s.inFlight key - 1) }
  | .setActiveHealth key healthy =>
    { s with registry := s.registry.setActiveHealth key healthy }
  | .wait time => { s with now := s.now + time }

/-- Only a request in flight can complete. -/
def Possible (s : Traffic) : TrafficEvent → Prop
  | .succeed key => 0 < s.inFlight key
  | .fail key => 0 < s.inFlight key
  | _ => True

instance (s : Traffic) : (event : TrafficEvent) → Decidable (s.Possible event)
  | .succeed key => inferInstanceAs (Decidable (0 < s.inFlight key))
  | .fail key => inferInstanceAs (Decidable (0 < s.inFlight key))
  | .pick _ _ => inferInstanceAs (Decidable True)
  | .setActiveHealth _ _ => inferInstanceAs (Decidable True)
  | .wait _ => inferInstanceAs (Decidable True)

end Traffic

/-! ## One call and the slots it spends -/

/-- The remaining attempts are as they were; an open circuit whose time
is up may have turned half open with its full allowance. -/
def SlotsKept (cfg : CircuitBreakerConfig) (now : Instant) (before after : CircuitState) :
    Prop :=
  after = before
    ∨ ∃ openedAt, before = .opened openedAt ∧ cfg.elapsed openedAt now = true
        ∧ after = .halfOpen cfg.halfOpenMaxRequests.toNat

/-- The slots a circuit lost, counted from the full allowance when it
has just turned half open. -/
def slotsSpent (cfg : CircuitBreakerConfig) : CircuitState → CircuitState → Nat
  | .halfOpen remaining, .halfOpen remaining' => remaining - remaining'
  | .opened _, .halfOpen remaining => cfg.halfOpenMaxRequests.toNat - remaining
  | _, _ => 0

theorem slotsSpent_circuitAfter (cfg : CircuitBreakerConfig) (now : Instant) (n : Nat)
    (state : TargetRuntime) :
    slotsSpent cfg state.circuitState (state.circuitAfter cfg now n)
      = state.slotsAsked cfg now n := by
  obtain ⟨active, passive, failures, successes, breaker, circuit⟩ := state
  cases active with
  | false => cases circuit <;> simp [TargetRuntime.circuitAfter, TargetRuntime.slotsAsked,
      slotsSpent]
  | true =>
    cases circuit with
    | closed => rfl
    | opened openedAt =>
      by_cases h : cfg.elapsed openedAt now = true
      · rcases Nat.eq_zero_or_pos n with rfl | hn
        · simp [TargetRuntime.circuitAfter, TargetRuntime.slotsAsked, slotsSpent]
        · simp only [TargetRuntime.circuitAfter, TargetRuntime.slotsAsked, h, hn,
            Bool.not_true, Bool.false_eq_true, if_false, and_self, if_true, slotsSpent]
          omega
      · simp [TargetRuntime.circuitAfter, TargetRuntime.slotsAsked, slotsSpent, h]
    | halfOpen remaining =>
      simp only [TargetRuntime.circuitAfter, TargetRuntime.slotsAsked, Bool.not_true,
        Bool.false_eq_true, if_false, slotsSpent]
      omega

theorem slotsKept_circuitAfter_iff (cfg : CircuitBreakerConfig) (now : Instant) (n : Nat)
    (state : TargetRuntime) :
    SlotsKept cfg now state.circuitState (state.circuitAfter cfg now n)
      ↔ state.slotsAsked cfg now n = 0 := by
  rw [← slotsSpent_circuitAfter]
  constructor
  · rintro (hsame | ⟨openedAt, hopen, -, hfull⟩)
    · rw [hsame]
      cases state.circuitState <;> simp [slotsSpent]
    · simp [hopen, hfull, slotsSpent]
  · intro hnone
    rw [slotsSpent_circuitAfter] at hnone
    obtain ⟨active, passive, failures, successes, breaker, circuit⟩ := state
    cases active with
    | false => exact .inl rfl
    | true =>
      cases circuit with
      | closed => exact .inl rfl
      | opened openedAt =>
        by_cases h : cfg.elapsed openedAt now = true
        · rcases Nat.eq_zero_or_pos n with rfl | hn
          · exact .inl (by simp [TargetRuntime.circuitAfter])
          · refine .inr ⟨openedAt, rfl, h, ?_⟩
            simp only [TargetRuntime.slotsAsked, h, Bool.not_true, Bool.false_eq_true,
              if_false, if_true] at hnone
            simp only [TargetRuntime.circuitAfter, h, hn, Bool.not_true,
              Bool.false_eq_true, if_false, and_self, if_true,
              CircuitState.halfOpen.injEq]
            omega
        · exact .inl (by simp [TargetRuntime.circuitAfter, h])
      | halfOpen remaining =>
        refine .inl ?_
        simp only [TargetRuntime.slotsAsked, Bool.not_true, Bool.false_eq_true,
          if_false] at hnone
        simp only [TargetRuntime.circuitAfter, Bool.not_true, Bool.false_eq_true,
          if_false, CircuitState.halfOpen.injEq]
        omega

section Call

variable (hasher : String → Nat) (upstream : UpstreamConfig) (registry : RuntimeRegistry)
  (now : Instant) (requestKey : String) (requestCount : Nat)

/-- What a call should do to the probe slots: none is spent on a target
that is not returned, and the returned one spends one if it was half
open. -/
def ProbeAccounting : Prop :=
  let result := pickTarget hasher upstream registry now requestKey requestCount
  ∀ key,
    (Traffic.sentTo upstream result.1 ≠ some key →
      SlotsKept registry.breakerCfg now (registry.entry key).circuitState
        (result.2.entry key).circuitState)
    ∧ (Traffic.sentTo upstream result.1 = some key →
      slotsSpent registry.breakerCfg (registry.entry key).circuitState
          (result.2.entry key).circuitState
        = if (registry.entry key).circuitState.isHalfOpen then 1 else 0)

/-- The key of the target the balancer chooses, from the state before
the call. -/
def chosenKey : Option String :=
  Traffic.sentTo upstream
    (chosenTarget hasher upstream registry now requestKey requestCount)

/-- In the state before the call, the only probe slot its questions ask
for is one slot of the chosen target, if that one is half open. -/
def ProbesOnlyChosen : Prop :=
  ∀ key,
    (registry.entry key).slotsAsked registry.breakerCfg now (upstream.keys.count key)
      = if chosenKey hasher upstream registry now requestKey requestCount = some key
          ∧ (registry.entry key).circuitState.isHalfOpen then 1 else 0

theorem probeAccounting_iff :
    ProbeAccounting hasher upstream registry now requestKey requestCount
      ↔ ProbesOnlyChosen hasher upstream registry now requestKey requestCount := by
  simp only [ProbeAccounting, ProbesOnlyChosen, chosenKey, pickTarget_fst, pickTarget_entry,
    slotsKept_circuitAfter_iff, slotsSpent_circuitAfter]
  refine forall_congr' fun key => ?_
  by_cases hsent : Traffic.sentTo upstream
      (chosenTarget hasher upstream registry now requestKey requestCount) = some key
  · simp [hsent]
  · simp [hsent]

end Call

/-! ## What one event does -/

namespace Traffic

variable {hasher : String → Nat} {upstream : UpstreamConfig} {s : Traffic}

theorem step_pick_entry (requestKey : String) (requestCount : Nat) (key : String) :
    (s.step hasher upstream (.pick requestKey requestCount)).registry.entry key
      = { s.registry.entry key with
          circuitState :=
            (s.registry.entry key).circuitAfter s.registry.breakerCfg s.now
              (upstream.keys.count key) } :=
  pickTarget_entry hasher upstream s.registry s.now requestKey requestCount key

theorem step_pick_inFlight (requestKey : String) (requestCount : Nat) (key : String) :
    (s.step hasher upstream (.pick requestKey requestCount)).inFlight key
      = s.inFlight key
        + if chosenKey hasher upstream s.registry s.now requestKey requestCount = some key
          then 1 else 0 := by
  rw [chosenKey, ← pickTarget_fst]
  rfl

theorem step_pick_probesSent (requestKey : String) (requestCount : Nat) (key : String) :
    (s.step hasher upstream (.pick requestKey requestCount)).probesSent key
      = if (s.registry.entry key).circuitState.isHalfOpen then
          s.probesSent key
            + if chosenKey hasher upstream s.registry s.now requestKey requestCount = some key
              then 1 else 0
        else 0 := by
  rw [chosenKey, ← pickTarget_fst]
  rfl

theorem step_succeed_entry (key : String) :
    (s.step hasher upstream (.succeed key)).registry.entry key
      = (s.registry.entry key).recordSuccess s.registry.passiveCfg :=
  RuntimeRegistry.entry_setEntry_self _ _ _

theorem step_succeed_inFlight (key : String) :
    (s.step hasher upstream (.succeed key)).inFlight key = s.inFlight key - 1 :=
  Function.update_self key _ s.inFlight

theorem step_fail_entry (key : String) :
    (s.step hasher upstream (.fail key)).registry.entry key
      = (s.registry.entry key).recordFailure s.registry.passiveCfg s.registry.breakerCfg
          s.now :=
  RuntimeRegistry.entry_setEntry_self _ _ _

theorem step_fail_inFlight (key : String) :
    (s.step hasher upstream (.fail key)).inFlight key = s.inFlight key - 1 :=
  Function.update_self key _ s.inFlight

theorem step_breakerCfg (event : TrafficEvent) :
    (s.step hasher upstream event).registry.breakerCfg = s.registry.breakerCfg := by
  cases event with
  | pick requestKey requestCount =>
    exact pickTarget_breakerCfg hasher upstream s.registry s.now requestKey requestCount
  | _ => rfl

/-! ## Slots and requests over a run -/

/-- The guard of a run whose picks ask for no slot but the chosen
target's. -/
def SpendsOnlyChosen (hasher : String → Nat) (upstream : UpstreamConfig) (s : Traffic) :
    TrafficEvent → Prop
  | .pick requestKey requestCount =>
    ProbesOnlyChosen hasher upstream s.registry s.now requestKey requestCount
  | _ => True

/-- Slots left and requests sent make up the allowance. -/
def SlotsBalanced (breakerCfg : CircuitBreakerConfig) (s : Traffic) : Prop :=
  s.registry.breakerCfg = breakerCfg
    ∧ ∀ key remaining, (s.registry.entry key).circuitState = .halfOpen remaining →
        remaining + s.probesSent key = breakerCfg.halfOpenMaxRequests.toNat

variable {breakerCfg : CircuitBreakerConfig}

/-- A completion leaves a half-open circuit as it was, or ends the
episode. -/
theorem SlotsBalanced.setEntry (h : SlotsBalanced breakerCfg s) {key : String}
    {state : TargetRuntime} {inFlight : String → Nat}
    (hstate : ∀ remaining, state.circuitState = .halfOpen remaining →
      (s.registry.entry key).circuitState = .halfOpen remaining) :
    SlotsBalanced breakerCfg
      { s with registry := s.registry.setEntry key state, inFlight := inFlight } := by
  refine ⟨h.1, fun other remaining hhalf => h.2 other remaining ?_⟩
  by_cases hk : other = key
  · subst hk
    rw [RuntimeRegistry.entry_setEntry_self] at hhalf
    exact hstate remaining hhalf
  · rwa [RuntimeRegistry.entry_setEntry_ne _ _ hk] at hhalf

theorem SlotsBalanced.pick (h : SlotsBalanced breakerCfg s) {requestKey : String}
    {requestCount : Nat}
    (hchosen : ProbesOnlyChosen hasher upstream s.registry s.now requestKey requestCount) :
    SlotsBalanced breakerCfg (s.step hasher upstream (.pick requestKey requestCount)) := by
  obtain ⟨hcfg, hbal⟩ := h
  refine ⟨by rw [step_breakerCfg, hcfg], fun key remaining hhalf => ?_⟩
  have hasked := hchosen key
  rw [step_pick_entry, hcfg] at hhalf
  rw [step_pick_probesSent]
  rw [hcfg] at hasked
  have hspent := slotsSpent_circuitAfter breakerCfg s.now (upstream.keys.count key)
    (s.registry.entry key)
  have hhalf' : (s.registry.entry key).circuitAfter breakerCfg s.now
      (upstream.keys.count key) = .halfOpen remaining := hhalf
  rw [hhalf', hasked] at hspent
  cases hc : (s.registry.entry key).circuitState with
  | closed =>
    -- a closed circuit stays closed
    unfold TargetRuntime.circuitAfter at hhalf'
    split at hhalf' <;> simp [hc] at hhalf'
  | opened openedAt =>
    -- a new episode: the allowance is full and nothing has been sent
    simp only [hc, slotsSpent, CircuitState.isHalfOpen, and_false, if_false,
      Bool.false_eq_true] at hspent ⊢
    have hle : remaining ≤ breakerCfg.halfOpenMaxRequests.toNat := by
      unfold TargetRuntime.circuitAfter at hhalf'
      split at hhalf'
      · simp [hc] at hhalf'
      · simp only [hc] at hhalf'
        split at hhalf'
        · cases hhalf'
          omega
        · cases hhalf'
    omega
  | halfOpen before =>
    have hbefore := hbal key before hc
    simp only [hc, slotsSpent, CircuitState.isHalfOpen, and_true, if_true] at hspent ⊢
    have hle : remaining ≤ before := by
      unfold TargetRuntime.circuitAfter at hhalf'
      split at hhalf'
      · rw [hc] at hhalf'
        cases hhalf'
        exact Nat.le_refl _
      · simp only [hc] at hhalf'
        cases hhalf'
        omega
    omega

theorem SlotsBalanced.step (h : SlotsBalanced breakerCfg s) (event : TrafficEvent)
    (hguard : SpendsOnlyChosen hasher upstream s event) :
    SlotsBalanced breakerCfg (s.step hasher upstream event) := by
  cases event with
  | pick requestKey requestCount => exact h.pick hguard
  | succeed key =>
    exact h.setEntry (fun remaining hhalf => by
      simp [TargetRuntime.recordSuccess] at hhalf)
  | fail key =>
    refine h.setEntry (fun remaining hhalf => ?_)
    simp only [TargetRuntime.recordFailure] at hhalf
    split at hhalf
    · cases hhalf
    · exact hhalf
  | setActiveHealth key healthy => exact h.setEntry (fun _ hhalf => hhalf)
  | wait time => exact h

end Traffic

/-- **Probe slots, exactly.** A call of `pick_target` spends the probe
slots of the target it returns and of no other, one for a request to a
half-open target, if and only if its questions ask for no other slot in
the state before it; and in every run of such calls, with completions,
health checks and time in any order, the slots spent in a half-open
episode are the requests sent in it. -/
theorem probe_slots_spent_only_on_chosen (hasher : String → Nat)
    (upstream : UpstreamConfig) :
    (∀ (registry : RuntimeRegistry) (now : Instant) (requestKey : String)
        (requestCount : Nat),
      ProbeAccounting hasher upstream registry now requestKey requestCount
        ↔ ProbesOnlyChosen hasher upstream registry now requestKey requestCount)
    ∧ ∀ (passiveCfg : PassiveHealthCheckConfig) (breakerCfg : CircuitBreakerConfig)
        (events : List TrafficEvent),
      Run.Guarded (Traffic.step hasher upstream)
          (fun s event => s.Possible event ∧ s.SpendsOnlyChosen hasher upstream event)
          (.start passiveCfg breakerCfg) events →
      let s := Run.exec (Traffic.step hasher upstream) (.start passiveCfg breakerCfg) events
      ∀ key remaining, (s.registry.entry key).circuitState = .halfOpen remaining →
        remaining + s.probesSent key = breakerCfg.halfOpenMaxRequests.toNat := by
  refine ⟨probeAccounting_iff hasher upstream, fun passiveCfg breakerCfg events hrun => ?_⟩
  have hstart : Traffic.SlotsBalanced breakerCfg (.start passiveCfg breakerCfg) :=
    ⟨rfl, fun key remaining hhalf => by simp [Traffic.start] at hhalf⟩
  exact (hrun.invariant (fun s event h hguard => h.step event hguard.2) hstart).2

/-! ### A run that loses a slot -/

/-- Two equal targets behind one name. -/
def twoTargets : UpstreamConfig where
  name := "svc"
  strategy := .roundRobin
  targets := [{ id := "a", address := "10.0.0.1:8080" }, { id := "b", address := "10.0.0.2:8080" }]

/-- Target `a` fails once, its open period passes, and a pick that goes
to `b` turns it half open. -/
def halfOpenAtA : Traffic :=
  Run.exec (Traffic.step (fun _ => 0) twoTargets)
    (.start {} { failureThreshold := 1, openMs := 1000 })
    [.pick "client" 0, .fail "svc:a", .wait 1000000000, .pick "client" 1]

/-- The next pick goes to `b` as well, and takes the one probe slot of
`a`: no request has been sent to `a` in this episode. -/
theorem pick_of_b_spends_slot_of_a :
    let result := pickTarget (fun _ => 0) twoTargets halfOpenAtA.registry halfOpenAtA.now
      "client" 1
    result.1.map (·.id) = some "b"
      ∧ (halfOpenAtA.registry.entry "svc:a").circuitState = .halfOpen 1
      ∧ (result.2.entry "svc:a").circuitState = .halfOpen 0
      ∧ halfOpenAtA.probesSent "svc:a" = 0
      ∧ ¬ ProbeAccounting (fun _ => 0) twoTargets halfOpenAtA.registry halfOpenAtA.now
          "client" 1 := by
  have hbefore : (halfOpenAtA.registry.entry "svc:a").circuitState = .halfOpen 1 := by decide
  refine ⟨by decide, hbefore, by decide, by decide, fun h => ?_⟩
  rcases (h "svc:a").1 (by decide) with hsame | ⟨openedAt, hopen, -, -⟩
  · exact absurd hsame (by decide)
  · rw [hbefore] at hopen
    cases hopen

end KongGateway.GatewayCore

import KongGateway.GatewayCore.Proxy.Traffic

/-!
# Proxy — which targets come back

A target is lost when it is idle and actively healthy and no amount of
waiting makes it available again. Two kinds of state are dead ends: a
closed circuit whose passive flag is down (only a completed request can
raise it, and none is sent), and a half-open circuit without slots (only
a completed request ends the episode).

The first kind is a matter of thresholds (`Recoverable`), the second of
picks that spend the last slot of an idle target on a question and send
the request elsewhere (`KeepsProbe`). Both conditions are exact.
-/

namespace KongGateway.GatewayCore

open RustStd

/-! ## The property and the two conditions -/

/-- Every idle and actively healthy target becomes available by waiting
alone. -/
def Traffic.NoneLost (s : Traffic) : Prop :=
  ∀ key, (s.registry.entry key).activeHealthy = true → s.inFlight key = 0 →
    ∃ time, (s.registry.isAvailable (s.now + time) key).1 = true

/-- The breaker opens no later than the passive flag falls, and one
success raises the flag. -/
structure Recoverable (passiveCfg : PassiveHealthCheckConfig)
    (breakerCfg : CircuitBreakerConfig) : Prop where
  breaker_first :
    breakerCfg.failureThreshold.toNat ≤ max 1 passiveCfg.failureThreshold.toNat
  one_success : passiveCfg.successThreshold.toNat ≤ 1

/-- `n` questions take the last probe slot. -/
def TargetRuntime.TakesLastSlot (cfg : CircuitBreakerConfig) (now : Instant) (n : Nat)
    (state : TargetRuntime) : Prop :=
  state.activeHealthy = true ∧
    match state.circuitState with
    | .closed => False
    | .opened openedAt =>
      cfg.elapsed openedAt now = true ∧ 0 < n ∧ cfg.halfOpenMaxRequests.toNat ≤ n - 1
    | .halfOpen remaining => 0 < remaining ∧ remaining ≤ n

/-- A pick that takes the last probe slot of an idle target is a pick of
that target. -/
def Traffic.KeepsProbe (hasher : String → Nat) (upstream : UpstreamConfig) (s : Traffic) :
    TrafficEvent → Prop
  | .pick requestKey requestCount =>
    ∀ key, s.inFlight key = 0 →
      (s.registry.entry key).TakesLastSlot s.registry.breakerCfg s.now
        (upstream.keys.count key) →
      chosenKey hasher upstream s.registry s.now requestKey requestCount = some key
  | _ => True

/-! ## Circuits under questions -/

theorem circuitAfter_closed_iff {cfg : CircuitBreakerConfig} {now : Instant} {n : Nat}
    {state : TargetRuntime} :
    state.circuitAfter cfg now n = .closed ↔ state.circuitState = .closed := by
  unfold TargetRuntime.circuitAfter
  split
  · rfl
  · split
    · simp_all
    · rename_i openedAt hopen
      split <;> simp [hopen]
    · rename_i remaining hhalf
      simp [hhalf]

/-- Slots run out exactly where `TakesLastSlot` says. -/
theorem takesLastSlot_iff {cfg : CircuitBreakerConfig} {now : Instant} {n : Nat}
    {state : TargetRuntime} :
    state.TakesLastSlot cfg now n
      ↔ state.circuitState ≠ .halfOpen 0 ∧ state.circuitAfter cfg now n = .halfOpen 0 := by
  obtain ⟨active, passive, failures, successes, breaker, circuit⟩ := state
  cases active with
  | false => simp [TargetRuntime.TakesLastSlot, TargetRuntime.circuitAfter]
  | true =>
    cases circuit with
    | closed => simp [TargetRuntime.TakesLastSlot, TargetRuntime.circuitAfter]
    | opened openedAt =>
      by_cases h : cfg.elapsed openedAt now = true
      · rcases Nat.eq_zero_or_pos n with rfl | hn
        · simp [TargetRuntime.TakesLastSlot, TargetRuntime.circuitAfter]
        · simp only [TargetRuntime.TakesLastSlot, TargetRuntime.circuitAfter, h, hn,
            true_and, Bool.not_true, Bool.false_eq_true, if_false, if_true, and_self,
            ne_eq, reduceCtorEq, not_false_eq_true, CircuitState.halfOpen.injEq]
          omega
      · simp [TargetRuntime.TakesLastSlot, TargetRuntime.circuitAfter, h]
    | halfOpen remaining =>
      simp only [TargetRuntime.TakesLastSlot, TargetRuntime.circuitAfter, true_and,
        Bool.not_true, Bool.false_eq_true, if_false, ne_eq, CircuitState.halfOpen.injEq]
      omega

/-- An idle half-open target without slots is lost, and so is a closed
one whose passive flag is down. -/
theorem isAvailable_false_of_dead {registry : RuntimeRegistry} {key : String}
    (hdead : (registry.entry key).circuitState = .halfOpen 0
      ∨ (registry.entry key).circuitState = .closed
        ∧ (registry.entry key).passiveHealthy = false) (now : Instant) :
    (registry.isAvailable now key).1 = false := by
  have hfst : (registry.isAvailable now key).1
      = (registry.entry key).answers registry.breakerCfg now 0 :=
    TargetRuntime.isAvailable_fst _
  rw [hfst]
  rcases hdead with hhalf | ⟨hclosed, hpassive⟩
  · simp [TargetRuntime.answers, hhalf]
  · simp [TargetRuntime.answers, hclosed, hpassive]

/-! ## The conditions are enough -/

namespace Traffic

variable {hasher : String → Nat} {upstream : UpstreamConfig} {s : Traffic}
  {passiveCfg : PassiveHealthCheckConfig} {breakerCfg : CircuitBreakerConfig}

/-- What keeps every target recoverable: a closed circuit has its flag
up, and a half-open one without slots has a probe under way. -/
structure Recovering (passiveCfg : PassiveHealthCheckConfig)
    (breakerCfg : CircuitBreakerConfig) (s : Traffic) : Prop where
  consistent : s.registry.Consistent passiveCfg breakerCfg
  closed_healthy : ∀ key, (s.registry.entry key).circuitState = .closed →
    (s.registry.entry key).passiveHealthy = true
  probe_pending : ∀ key, (s.registry.entry key).circuitState = .halfOpen 0 →
    0 < s.inFlight key

theorem Recovering.start : Recovering passiveCfg breakerCfg (.start passiveCfg breakerCfg) where
  consistent := .new passiveCfg breakerCfg
  closed_healthy := fun _ _ => rfl
  probe_pending := fun key hhalf => by simp [Traffic.start] at hhalf

theorem pick_consistent (h : s.registry.Consistent passiveCfg breakerCfg)
    (requestKey : String) (requestCount : Nat) :
    (s.step hasher upstream (.pick requestKey requestCount)).registry.Consistent
      passiveCfg breakerCfg where
  passiveCfg_eq := by
    rw [← h.passiveCfg_eq]
    exact pickTarget_passiveCfg hasher upstream s.registry s.now requestKey requestCount
  breakerCfg_eq := by rw [step_breakerCfg, h.breakerCfg_eq]
  entry := fun key => by
    rw [step_pick_entry]
    exact (h.entry key).setCircuit circuitAfter_closed_iff

theorem Recovering.pick (h : Recovering passiveCfg breakerCfg s) {requestKey : String}
    {requestCount : Nat}
    (hkeeps : s.KeepsProbe hasher upstream (.pick requestKey requestCount)) :
    Recovering passiveCfg breakerCfg
      (s.step hasher upstream (.pick requestKey requestCount)) where
  consistent := pick_consistent h.consistent requestKey requestCount
  closed_healthy := fun key hclosed => by
    rw [step_pick_entry] at hclosed ⊢
    exact h.closed_healthy key (circuitAfter_closed_iff.mp hclosed)
  probe_pending := fun key hhalf => by
    rw [step_pick_entry] at hhalf
    rw [step_pick_inFlight]
    by_cases hbefore : (s.registry.entry key).circuitState = .halfOpen 0
    · have := h.probe_pending key hbefore
      omega
    · -- this pick took the last slot
      rcases Nat.eq_zero_or_pos (s.inFlight key) with hidle | hbusy
      · have hchosen := hkeeps key hidle (takesLastSlot_iff.mpr ⟨hbefore, hhalf⟩)
        rw [if_pos hchosen]
        omega
      · omega

/-- An operation on one key has to leave that key as the invariant
wants it. -/
theorem Recovering.write (h : Recovering passiveCfg breakerCfg s) {key : String}
    {state : TargetRuntime} {inFlight : String → Nat}
    (hstate : state.Consistent passiveCfg breakerCfg)
    (hclosed : state.circuitState = .closed → state.passiveHealthy = true)
    (hhalf : state.circuitState = .halfOpen 0 → 0 < inFlight key)
    (hothers : ∀ other, other ≠ key → inFlight other = s.inFlight other) :
    Recovering passiveCfg breakerCfg
      { s with registry := s.registry.setEntry key state, inFlight := inFlight } where
  consistent := h.consistent.setEntry hstate
  closed_healthy := fun other hother => by
    by_cases hk : other = key
    · subst hk
      simp only [RuntimeRegistry.entry_setEntry_self] at hother ⊢
      exact hclosed hother
    · simp only [RuntimeRegistry.entry_setEntry_ne _ _ hk] at hother ⊢
      exact h.closed_healthy other hother
  probe_pending := fun other hother => by
    by_cases hk : other = key
    · subst hk
      simp only [RuntimeRegistry.entry_setEntry_self] at hother
      exact hhalf hother
    · simp only [RuntimeRegistry.entry_setEntry_ne _ _ hk] at hother
      simp only [hothers other hk]
      exact h.probe_pending other hother

/-- A completion closes the circuit with the flag up, or leaves it
open. -/
theorem Recovering.complete (h : Recovering passiveCfg breakerCfg s) {key : String}
    {state : TargetRuntime} (hstate : state.Consistent passiveCfg breakerCfg)
    (hclosed : state.circuitState = .closed → state.passiveHealthy = true)
    (hhalf : state.circuitState ≠ .halfOpen 0) :
    Recovering passiveCfg breakerCfg
      { s with
        registry := s.registry.setEntry key state
        inFlight := Function.update s.inFlight key (s.inFlight key - 1) } :=
  h.write hstate hclosed (fun hslots => absurd hslots hhalf)
    fun _ hk => Function.update_of_ne hk _ _

theorem recordSuccess_healthy (hone : passiveCfg.successThreshold.toNat ≤ 1)
    (state : TargetRuntime) : (state.recordSuccess passiveCfg).passiveHealthy = true := by
  have hone' := one_le_saturatingAdd_one state.consecutiveSuccesses
  simp only [TargetRuntime.recordSuccess]
  rw [if_pos (by omega)]

/-- Under `breaker_first` a failure that takes the flag down opens the
circuit in the same step. -/
theorem recordFailure_closed_healthy (hrec : Recoverable passiveCfg breakerCfg)
    {state : TargetRuntime} (hcons : state.Consistent passiveCfg breakerCfg)
    (hhealthy : state.circuitState = .closed → state.passiveHealthy = true) (now : Instant)
    (hclosed : (state.recordFailure passiveCfg breakerCfg now).circuitState = .closed) :
    (state.recordFailure passiveCfg breakerCfg now).passiveHealthy = true := by
  simp only [TargetRuntime.recordFailure] at hclosed ⊢
  split at hclosed
  · cases hclosed
  · rename_i hbelow
    have hfirst := hrec.breaker_first
    have hpos := one_le_saturatingAdd_one state.breakerFailures
    -- both counters stand at the same number, which has not reached the breaker's threshold
    rw [hcons.failures_eq, if_neg (by omega)]
    exact hhealthy hclosed

theorem recordFailure_not_halfOpen {state : TargetRuntime}
    (hcons : state.Consistent passiveCfg breakerCfg) (now : Instant) (remaining : Nat) :
    (state.recordFailure passiveCfg breakerCfg now).circuitState ≠ .halfOpen remaining := by
  intro hhalf
  by_cases hclosed : state.circuitState = .closed
  · simp only [TargetRuntime.recordFailure, hclosed] at hhalf
    split at hhalf <;> cases hhalf
  · rw [hcons.recordFailure_reopens hclosed now] at hhalf
    cases hhalf

theorem Recovering.step (h : Recovering passiveCfg breakerCfg s)
    (hrec : Recoverable passiveCfg breakerCfg) (event : TrafficEvent)
    (hkeeps : s.KeepsProbe hasher upstream event) :
    Recovering passiveCfg breakerCfg (s.step hasher upstream event) := by
  have hcons := h.consistent
  cases event with
  | pick requestKey requestCount => exact h.pick hkeeps
  | succeed key =>
    refine h.complete ?_ ?_ ?_
    · rw [hcons.passiveCfg_eq]
      exact .recordSuccess _
    · intro _
      rw [hcons.passiveCfg_eq]
      exact recordSuccess_healthy hrec.one_success _
    · simp [TargetRuntime.recordSuccess]
  | fail key =>
    refine h.complete ?_ ?_ ?_
    · rw [hcons.passiveCfg_eq, hcons.breakerCfg_eq]
      exact (hcons.entry key).recordFailure s.now
    · rw [hcons.passiveCfg_eq, hcons.breakerCfg_eq]
      exact recordFailure_closed_healthy hrec (hcons.entry key) (h.closed_healthy key) s.now
    · rw [hcons.passiveCfg_eq, hcons.breakerCfg_eq]
      exact recordFailure_not_halfOpen (hcons.entry key) s.now 0
  | setActiveHealth key healthy =>
    exact h.write ((hcons.entry key).setActiveHealth healthy) (h.closed_healthy key)
      (h.probe_pending key) fun _ _ => rfl
  | wait time => exact ⟨hcons, h.closed_healthy, h.probe_pending⟩

/-- In a recovering state an idle target is available now, or once its
open period has passed. -/
theorem Recovering.noneLost (h : Recovering passiveCfg breakerCfg s) : s.NoneLost := by
  intro key hactive hidle
  have hanswer : ∀ time, (s.registry.isAvailable (s.now + time) key).1
      = (s.registry.entry key).answers s.registry.breakerCfg (s.now + time) 0 :=
    fun _ => TargetRuntime.isAvailable_fst _
  cases hc : (s.registry.entry key).circuitState with
  | closed =>
    refine ⟨0, ?_⟩
    rw [hanswer]
    simp [TargetRuntime.answers, hactive, hc, h.closed_healthy key hc]
  | opened openedAt =>
    -- the opening may lie ahead of `now` in an arbitrary state, so wait for it as well
    refine ⟨openedAt + fromMillis s.registry.breakerCfg.openMs, ?_⟩
    have hlater : openedAt
        ≤ s.now + (openedAt + fromMillis s.registry.breakerCfg.openMs) :=
      Nat.le_trans (Nat.le_add_right _ _) (Nat.le_add_left _ _)
    have hover : s.registry.breakerCfg.elapsed openedAt
        (s.now + (openedAt + fromMillis s.registry.breakerCfg.openMs)) = true :=
      (CircuitBreakerConfig.elapsed_iff hlater).mpr (Nat.le_add_left _ _)
    rw [hanswer]
    simp [TargetRuntime.answers, hactive, hc, hover]
  | halfOpen remaining =>
    refine ⟨0, ?_⟩
    have hslots : 0 < remaining := by
      rcases Nat.eq_zero_or_pos remaining with rfl | hpos
      · have := h.probe_pending key hc
        omega
      · exact hpos
    rw [hanswer]
    simp [TargetRuntime.answers, hactive, hc, hslots]

/-! ## The condition on picks is needed -/

/-- A pick that gives away the last slot of an idle target loses that
target at once. -/
theorem keepsProbe_of_noneLost {event : TrafficEvent}
    (h : (s.step hasher upstream event).NoneLost) : s.KeepsProbe hasher upstream event := by
  cases event with
  | pick requestKey requestCount =>
    intro key hidle hlast
    by_contra hother
    obtain ⟨-, hdead⟩ := takesLastSlot_iff.mp hlast
    obtain ⟨time, htime⟩ := h key
      (by rw [step_pick_entry]; exact hlast.1)
      (by rw [step_pick_inFlight, if_neg hother]; exact hidle)
    rw [isAvailable_false_of_dead (.inl (by rw [step_pick_entry]; exact hdead))] at htime
    cases htime
  | _ => trivial

end Traffic

/-! ## The thresholds are needed

One target, failing again and again: each round waits for the open
period (in case the circuit is open), sends a request and lets it fail.
-/

def loneTarget : UpstreamConfig where
  name := "svc"
  strategy := .roundRobin
  targets := [{ id := "a", address := "10.0.0.1:8080" }]

section Rounds

variable (passiveCfg : PassiveHealthCheckConfig) (breakerCfg : CircuitBreakerConfig)

def failingRound : List TrafficEvent :=
  [.wait (fromMillis breakerCfg.openMs), .pick "client" 0, .fail "svc:a"]

def succeedingRound : List TrafficEvent :=
  [.wait (fromMillis breakerCfg.openMs), .pick "client" 0, .succeed "svc:a"]

/-- The target after `n` failures and no success. -/
def failedState (n : Nat) (now : Instant) : TargetRuntime where
  passiveHealthy := decide (n = 0 ∨ n < passiveCfg.failureThreshold.toNat)
  consecutiveFailures := n
  breakerFailures := n
  circuitState :=
    if n = 0 ∨ n < breakerCfg.failureThreshold.toNat then .closed else .opened now

/-- The target has failed `n` times and nothing is in flight. -/
structure FailedTimes (n : Nat) (s : Traffic) : Prop where
  passiveCfg_eq : s.registry.passiveCfg = passiveCfg
  breakerCfg_eq : s.registry.breakerCfg = breakerCfg
  idle : s.inFlight "svc:a" = 0
  entry_eq : s.registry.entry "svc:a" = failedState passiveCfg breakerCfg n s.now

end Rounds

namespace FailedTimes

open Traffic

variable {hasher : String → Nat} {passiveCfg : PassiveHealthCheckConfig}
  {breakerCfg : CircuitBreakerConfig} {n : Nat} {s : Traffic}

theorem start :
    FailedTimes passiveCfg breakerCfg 0 (.start passiveCfg breakerCfg) :=
  ⟨rfl, rfl, rfl, by simp [Traffic.start, failedState]⟩

/-- The state in which the pick of a round is made. -/
def waited (breakerCfg : CircuitBreakerConfig) (s : Traffic) : Traffic :=
  { s with now := s.now + fromMillis breakerCfg.openMs }

/-- After the wait the target answers yes: its circuit is closed with
the flag up, or its open period is over. -/
theorem answers_waited (h : FailedTimes passiveCfg breakerCfg n s)
    (hn : n < max 1 passiveCfg.failureThreshold.toNat
      ∨ breakerCfg.failureThreshold.toNat ≤ n ∧ n ≠ 0) :
    ((waited breakerCfg s).registry.entry "svc:a").answers breakerCfg
      (waited breakerCfg s).now 0 = true := by
  show (s.registry.entry "svc:a").answers breakerCfg (s.now + fromMillis breakerCfg.openMs) 0
    = true
  rw [h.entry_eq]
  by_cases hclosed : n = 0 ∨ n < breakerCfg.failureThreshold.toNat
  · have hflag : n = 0 ∨ n < passiveCfg.failureThreshold.toNat := by omega
    simp [TargetRuntime.answers, failedState, hclosed, hflag]
  · have hover : breakerCfg.elapsed s.now (s.now + fromMillis breakerCfg.openMs) = true :=
      (CircuitBreakerConfig.elapsed_iff (Nat.le_add_right _ _)).mpr (Nat.le_refl _)
    simp [TargetRuntime.answers, failedState, hclosed, hover]

theorem chosen_waited (h : FailedTimes passiveCfg breakerCfg n s)
    (hn : n < max 1 passiveCfg.failureThreshold.toNat
      ∨ breakerCfg.failureThreshold.toNat ≤ n ∧ n ≠ 0) :
    chosenKey hasher loneTarget (waited breakerCfg s).registry (waited breakerCfg s).now
      "client" 0 = some "svc:a" := by
  have hyes := h.answers_waited hn
  have hcfg : (waited breakerCfg s).registry.breakerCfg = breakerCfg := h.breakerCfg_eq
  have hadmitted : admittedTargets "svc" (waited breakerCfg s).now
      (waited breakerCfg s).registry [] loneTarget.targets = loneTarget.targets := by
    have hkey : targetKey "svc" "a" = "svc:a" := by decide
    simp [loneTarget, admittedTargets, hkey, hcfg, hyes]
  rw [chosenKey, chosenTarget]
  show Traffic.sentTo loneTarget (selectTarget hasher .roundRobin
    (admittedTargets "svc" _ _ [] loneTarget.targets) (some "client") 0) = _
  rw [hadmitted]
  rfl

theorem keepsProbe_waited (h : FailedTimes passiveCfg breakerCfg n s)
    (hn : n < max 1 passiveCfg.failureThreshold.toNat
      ∨ breakerCfg.failureThreshold.toNat ≤ n ∧ n ≠ 0) :
    (waited breakerCfg s).KeepsProbe hasher loneTarget (.pick "client" 0) := by
  intro key _ hlast
  by_cases hk : key = "svc:a"
  · subst hk
    exact h.chosen_waited hn
  · -- no other key is asked at all
    have hcount : loneTarget.keys.count key = 0 :=
      List.count_eq_zero.mpr (by simpa [loneTarget, UpstreamConfig.keys, targetKey] using hk)
    obtain ⟨hne, hdead⟩ := takesLastSlot_iff.mp hlast
    rw [hcount, TargetRuntime.circuitAfter_zero] at hdead
    exact absurd hdead hne

/-- The state after the pick of a round. -/
def picked (hasher : String → Nat) (breakerCfg : CircuitBreakerConfig) (s : Traffic) :
    Traffic :=
  (waited breakerCfg s).step hasher loneTarget (.pick "client" 0)

theorem picked_inFlight (hasher : String → Nat)
    (h : FailedTimes passiveCfg breakerCfg n s)
    (hn : n < max 1 passiveCfg.failureThreshold.toNat
      ∨ breakerCfg.failureThreshold.toNat ≤ n ∧ n ≠ 0) :
    (picked hasher breakerCfg s).inFlight "svc:a" = 1 := by
  rw [picked, step_pick_inFlight, if_pos (h.chosen_waited hn)]
  show s.inFlight "svc:a" + 1 = 1
  rw [h.idle]

theorem picked_passiveCfg (h : FailedTimes passiveCfg breakerCfg n s) :
    (picked hasher breakerCfg s).registry.passiveCfg = passiveCfg := by
  rw [← h.passiveCfg_eq]
  exact pickTarget_passiveCfg hasher loneTarget s.registry _ "client" 0

theorem picked_breakerCfg (h : FailedTimes passiveCfg breakerCfg n s) :
    (picked hasher breakerCfg s).registry.breakerCfg = breakerCfg := by
  rw [picked, step_breakerCfg]
  exact h.breakerCfg_eq

/-- The pick leaves the target as it was, but for a circuit that is
closed exactly if it was closed before. -/
theorem picked_entry (hasher : String → Nat)
    (h : FailedTimes passiveCfg breakerCfg n s) :
    ∃ circuit, (circuit = .closed ↔ n = 0 ∨ n < breakerCfg.failureThreshold.toNat)
      ∧ (picked hasher breakerCfg s).registry.entry "svc:a"
        = { failedState passiveCfg breakerCfg n s.now with circuitState := circuit } := by
  refine ⟨(s.registry.entry "svc:a").circuitAfter s.registry.breakerCfg
    (waited breakerCfg s).now (loneTarget.keys.count "svc:a"), ?_, ?_⟩
  · rw [circuitAfter_closed_iff, h.entry_eq]
    simp only [failedState]
    split <;> simp_all
  · rw [picked, step_pick_entry, ← h.entry_eq]
    rfl

theorem failingRound_guarded (h : FailedTimes passiveCfg breakerCfg n s)
    (hn : n < max 1 passiveCfg.failureThreshold.toNat) :
    Run.Guarded (Traffic.step hasher loneTarget)
      (fun s event => s.Possible event ∧ s.KeepsProbe hasher loneTarget event) s
      (failingRound breakerCfg) := by
  refine ⟨⟨trivial, trivial⟩, ⟨trivial, h.keepsProbe_waited (.inl hn)⟩, ⟨?_, trivial⟩, trivial⟩
  show 0 < (picked hasher breakerCfg s).inFlight "svc:a"
  rw [h.picked_inFlight hasher (.inl hn)]
  exact Nat.one_pos

/-- **One failing round** adds one failure. -/
theorem exec_failingRound (h : FailedTimes passiveCfg breakerCfg n s)
    (hn : n < max 1 passiveCfg.failureThreshold.toNat) :
    FailedTimes passiveCfg breakerCfg (n + 1)
      (Run.exec (Traffic.step hasher loneTarget) s (failingRound breakerCfg)) := by
  have hexec : Run.exec (Traffic.step hasher loneTarget) s (failingRound breakerCfg)
      = (picked hasher breakerCfg s).step hasher loneTarget (.fail "svc:a") := rfl
  have hcount : n + 1 ≤ u32Max := by
    have := toNat_le_u32Max passiveCfg.failureThreshold
    simp only [u32Max] at this ⊢
    omega
  obtain ⟨circuit, hcircuit, hentry⟩ := h.picked_entry hasher
  rw [hexec]
  refine ⟨h.picked_passiveCfg, h.picked_breakerCfg, ?_, ?_⟩
  · rw [step_fail_inFlight, h.picked_inFlight hasher (.inl hn)]
  · rw [step_fail_entry, hentry, h.picked_passiveCfg, h.picked_breakerCfg]
    simp only [TargetRuntime.recordFailure, failedState, saturatingAdd_of_lt hcount,
      TargetRuntime.mk.injEq, true_and]
    refine ⟨?_, ?_⟩
    · by_cases hflag : passiveCfg.failureThreshold.toNat ≤ n + 1
      · rw [if_pos hflag]
        simp [Nat.not_lt.mpr hflag]
      · rw [if_neg hflag]
        have hbefore : n = 0 ∨ n < passiveCfg.failureThreshold.toNat := by omega
        simp [hbefore, Nat.not_le.mp hflag]
    · by_cases htrip : breakerCfg.failureThreshold.toNat ≤ n + 1
      · rw [if_pos htrip, if_neg (by omega)]
        rfl
      · rw [if_neg htrip, if_pos (by omega)]
        exact hcircuit.mpr (by omega)

theorem failingRounds (passiveCfg : PassiveHealthCheckConfig)
    (breakerCfg : CircuitBreakerConfig) (hasher : String → Nat) :
    ∀ n, n ≤ max 1 passiveCfg.failureThreshold.toNat →
    let events := (List.replicate n (failingRound breakerCfg)).flatten
    Run.Guarded (Traffic.step hasher loneTarget)
        (fun s event => s.Possible event ∧ s.KeepsProbe hasher loneTarget event)
        (.start passiveCfg breakerCfg) events
      ∧ FailedTimes passiveCfg breakerCfg n
        (Run.exec (Traffic.step hasher loneTarget) (.start passiveCfg breakerCfg) events) := by
  intro n
  induction n with
  | zero => exact fun _ => ⟨trivial, .start⟩
  | succ n ih =>
    intro hn
    obtain ⟨hguard, hfailed⟩ := ih (by omega)
    simp only [List.replicate_succ', List.flatten_append, List.flatten_singleton]
    rw [Run.guarded_append, Run.exec_append]
    exact ⟨⟨hguard, hfailed.failingRound_guarded (by omega)⟩,
      hfailed.exec_failingRound (by omega)⟩

/-- A success after enough failures closes the circuit, but does not
raise a flag that needs a second one. -/
theorem exec_succeedingRound (hasher : String → Nat)
    (h : FailedTimes passiveCfg breakerCfg n s)
    (hflag : passiveCfg.failureThreshold.toNat ≤ n) (hn : n ≠ 0)
    (htrip : breakerCfg.failureThreshold.toNat ≤ n)
    (hmany : 1 < passiveCfg.successThreshold.toNat) :
    let s' := Run.exec (Traffic.step hasher loneTarget) s (succeedingRound breakerCfg)
    Run.Guarded (Traffic.step hasher loneTarget)
        (fun s event => s.Possible event ∧ s.KeepsProbe hasher loneTarget event) s
        (succeedingRound breakerCfg)
      ∧ s'.inFlight "svc:a" = 0
      ∧ (s'.registry.entry "svc:a").activeHealthy = true
      ∧ (s'.registry.entry "svc:a").circuitState = .closed
      ∧ (s'.registry.entry "svc:a").passiveHealthy = false := by
  have hexec : Run.exec (Traffic.step hasher loneTarget) s (succeedingRound breakerCfg)
      = (picked hasher breakerCfg s).step hasher loneTarget (.succeed "svc:a") := rfl
  have hone := h.picked_inFlight hasher (.inr ⟨htrip, hn⟩)
  obtain ⟨circuit, -, hentry⟩ := h.picked_entry hasher
  simp only [hexec, step_succeed_inFlight, step_succeed_entry, hone, hentry,
    h.picked_passiveCfg]
  refine ⟨⟨⟨trivial, trivial⟩, ⟨trivial, h.keepsProbe_waited (.inr ⟨htrip, hn⟩)⟩,
    ⟨?_, trivial⟩, trivial⟩, trivial, rfl, rfl, ?_⟩
  · show 0 < (picked hasher breakerCfg s).inFlight "svc:a"
    rw [hone]
    exact Nat.one_pos
  · have hsum : saturatingAdd 0 1 = 1 := by decide
    simp only [TargetRuntime.recordSuccess, failedState, hsum]
    rw [if_neg (by omega), decide_eq_false_iff_not]
    omega

end FailedTimes

/-- Other thresholds lose the one target of an upstream in a run whose
picks all keep the probe. -/
theorem recoverable_of_noneLost {passiveCfg : PassiveHealthCheckConfig}
    {breakerCfg : CircuitBreakerConfig} (hasher : String → Nat)
    (h : ∀ events, Run.Guarded (Traffic.step hasher loneTarget)
        (fun s event => s.Possible event ∧ s.KeepsProbe hasher loneTarget event)
        (.start passiveCfg breakerCfg) events →
      (Run.exec (Traffic.step hasher loneTarget) (.start passiveCfg breakerCfg)
        events).NoneLost) : Recoverable passiveCfg breakerCfg := by
  obtain ⟨hguard, hfailed⟩ :=
    FailedTimes.failingRounds passiveCfg breakerCfg hasher _ (Nat.le_refl _)
  have hfirst :
      breakerCfg.failureThreshold.toNat ≤ max 1 passiveCfg.failureThreshold.toNat := by
    -- the flag falls before the breaker trips: no request will ever raise it again
    by_contra hlate
    obtain ⟨time, htime⟩ := h _ hguard "svc:a" (by rw [hfailed.entry_eq]; rfl) hfailed.idle
    rw [isAvailable_false_of_dead (.inr (by
      rw [hfailed.entry_eq]
      simp only [failedState]
      exact ⟨if_pos (by omega), by simp⟩))] at htime
    cases htime
  refine ⟨hfirst, ?_⟩
  -- the success of the probe closes the circuit in front of a flag that is still down
  by_contra hmany
  obtain ⟨hguard', hidle, hactive, hclosed, hpassive⟩ :=
    hfailed.exec_succeedingRound hasher (Nat.le_max_right _ _) (by omega) hfirst
      (by omega)
  rw [← Run.exec_append] at hidle hactive hclosed hpassive
  obtain ⟨time, htime⟩ := h _ (Run.guarded_append.mpr ⟨hguard, hguard'⟩) "svc:a" hactive hidle
  rw [isAvailable_false_of_dead (.inr ⟨hclosed, hpassive⟩)] at htime
  cases htime

/-- **No target is lost**, in any run whose picks keep the probe, if and
only if the thresholds are recoverable; and in a run that loses no
target every pick keeps the probe. -/
theorem no_target_lost_iff (passiveCfg : PassiveHealthCheckConfig)
    (breakerCfg : CircuitBreakerConfig) :
    ((∀ (hasher : String → Nat) (upstream : UpstreamConfig) (events : List TrafficEvent),
        Run.Guarded (Traffic.step hasher upstream)
          (fun s event => s.Possible event ∧ s.KeepsProbe hasher upstream event)
          (.start passiveCfg breakerCfg) events →
        (Run.exec (Traffic.step hasher upstream) (.start passiveCfg breakerCfg)
          events).NoneLost)
      ↔ Recoverable passiveCfg breakerCfg)
    ∧ ∀ (hasher : String → Nat) (upstream : UpstreamConfig) (events : List TrafficEvent),
        (∀ pre, pre <+: events →
          (Run.exec (Traffic.step hasher upstream) (.start passiveCfg breakerCfg)
            pre).NoneLost) →
        Run.Guarded (Traffic.step hasher upstream)
          (fun s event => s.KeepsProbe hasher upstream event)
          (.start passiveCfg breakerCfg) events := by
  refine ⟨⟨fun h => recoverable_of_noneLost (fun _ => 0) (h (fun _ => 0) loneTarget), ?_⟩, ?_⟩
  · intro hrec hasher upstream events hrun
    exact (hrun.invariant (fun s event h hguard => h.step hrec event hguard.2)
      Traffic.Recovering.start).noneLost
  · intro hasher upstream events hall
    refine Run.Guarded.of_prefix fun pre event hpre => ?_
    have hlost := hall _ hpre
    rw [Run.exec_append] at hlost
    exact Traffic.keepsProbe_of_noneLost hlost

/-- With the default thresholds (three failures for the flag, five for
the breaker) three failed requests lose the target. -/
theorem default_thresholds_lose_target :
    let events : List TrafficEvent :=
      [.pick "client" 0, .fail "svc:a", .pick "client" 1, .fail "svc:a", .pick "client" 2,
        .fail "svc:a"]
    Run.Guarded (Traffic.step (fun _ => 0) loneTarget) Traffic.Possible (.start {} {}) events
      ∧ ¬ (Run.exec (Traffic.step (fun _ => 0) loneTarget) (.start {} {}) events).NoneLost := by
  refine ⟨by decide, fun h => ?_⟩
  obtain ⟨time, htime⟩ := h "svc:a" (by decide) (by decide)
  rw [isAvailable_false_of_dead (.inr (by decide))] at htime
  cases htime

end KongGateway.GatewayCore

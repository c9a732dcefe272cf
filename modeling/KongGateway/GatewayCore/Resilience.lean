import KongGateway.GatewayCore.Config
import KongGateway.Lib.Run

/-!
# Resilience — target health and the circuit breaker

The model of `resilience.rs`: one `TargetRuntime` per target key, with
an active and a passive health flag and a circuit that is closed, open
since some instant, or half open with a number of probe slots left.

Every operation locks the registry for its whole body, so an operation
is a function on the registry; the clock it reads is its argument `now`.
`is_available` answers a question and also moves the circuit: an open
circuit whose time is up turns half open, and a half-open one spends a
slot.
-/

namespace KongGateway.GatewayCore

open RustStd

inductive CircuitState where
  | closed
  | opened (openedAt : Instant)
  | halfOpen (remainingAttempts : Nat)
deriving DecidableEq, Repr

/-- The field defaults are those of `TargetRuntime::default`. -/
structure TargetRuntime where
  activeHealthy : Bool := true
  passiveHealthy : Bool := true
  consecutiveFailures : Nat := 0
  consecutiveSuccesses : Nat := 0
  breakerFailures : Nat := 0
  circuitState : CircuitState := .closed
deriving DecidableEq, Repr

structure RuntimeRegistry where
  passiveCfg : PassiveHealthCheckConfig
  breakerCfg : CircuitBreakerConfig
  targets : String → Option TargetRuntime

/-! ## One target -/

/-- The open period of a circuit opened at `openedAt` is over. -/
def CircuitBreakerConfig.elapsed (cfg : CircuitBreakerConfig) (openedAt now : Instant) :
    Bool :=
  decide (fromMillis cfg.openMs ≤ durationSince now openedAt)

theorem CircuitBreakerConfig.elapsed_iff {cfg : CircuitBreakerConfig}
    {openedAt now : Instant} (h : openedAt ≤ now) :
    cfg.elapsed openedAt now = true ↔ openedAt + fromMillis cfg.openMs ≤ now := by
  rw [elapsed, decide_eq_true_eq, le_durationSince_iff h]

namespace TargetRuntime

def isAvailable (cfg : CircuitBreakerConfig) (now : Instant) (state : TargetRuntime) :
    Bool × TargetRuntime :=
  if !state.activeHealthy then (false, state)
  else
    match state.circuitState with
    | .closed => (state.passiveHealthy, state)
    | .opened openedAt =>
      if cfg.elapsed openedAt now then
        (true, { state with circuitState := .halfOpen cfg.halfOpenMaxRequests.toNat })
      else (false, state)
    | .halfOpen remainingAttempts =>
      if remainingAttempts = 0 then (false, state)
      else (true, { state with circuitState := .halfOpen (remainingAttempts - 1) })

def setActiveHealth (healthy : Bool) (state : TargetRuntime) : TargetRuntime :=
  { state with activeHealthy := healthy }

def recordSuccess (cfg : PassiveHealthCheckConfig) (state : TargetRuntime) :
    TargetRuntime :=
  let successes := saturatingAdd state.consecutiveSuccesses 1
  { state with
    consecutiveSuccesses := successes
    consecutiveFailures := 0
    breakerFailures := 0
    passiveHealthy :=
      if cfg.successThreshold.toNat ≤ successes then true else state.passiveHealthy
    circuitState := .closed }

def recordFailure (passiveCfg : PassiveHealthCheckConfig)
    (breakerCfg : CircuitBreakerConfig) (now : Instant) (state : TargetRuntime) :
    TargetRuntime :=
  let failures := saturatingAdd state.consecutiveFailures 1
  let breakerFailures := saturatingAdd state.breakerFailures 1
  { state with
    consecutiveFailures := failures
    consecutiveSuccesses := 0
    passiveHealthy :=
      if passiveCfg.failureThreshold.toNat ≤ failures then false else state.passiveHealthy
    breakerFailures := breakerFailures
    circuitState :=
      if breakerCfg.failureThreshold.toNat ≤ breakerFailures then .opened now
      else state.circuitState }

end TargetRuntime

/-! ## The registry -/

namespace RuntimeRegistry

def new (passiveCfg : PassiveHealthCheckConfig) (breakerCfg : CircuitBreakerConfig) :
    RuntimeRegistry :=
  { passiveCfg, breakerCfg, targets := fun _ => none }

/-- `targets.entry(key).or_default()`. -/
def entry (registry : RuntimeRegistry) (key : String) : TargetRuntime :=
  (registry.targets key).getD {}

/-- The registry after the entry of `key` has been written through. -/
def setEntry (registry : RuntimeRegistry) (key : String) (state : TargetRuntime) :
    RuntimeRegistry :=
  { registry with targets := Function.update registry.targets key (some state) }

def isAvailable (registry : RuntimeRegistry) (now : Instant) (key : String) :
    Bool × RuntimeRegistry :=
  let (ok, state) := (registry.entry key).isAvailable registry.breakerCfg now
  (ok, registry.setEntry key state)

def setActiveHealth (registry : RuntimeRegistry) (key : String) (healthy : Bool) :
    RuntimeRegistry :=
  registry.setEntry key ((registry.entry key).setActiveHealth healthy)

def recordSuccess (registry : RuntimeRegistry) (key : String) : RuntimeRegistry :=
  registry.setEntry key ((registry.entry key).recordSuccess registry.passiveCfg)

def recordFailure (registry : RuntimeRegistry) (now : Instant) (key : String) :
    RuntimeRegistry :=
  registry.setEntry key
    ((registry.entry key).recordFailure registry.passiveCfg registry.breakerCfg now)

@[simp] theorem entry_new (passiveCfg : PassiveHealthCheckConfig)
    (breakerCfg : CircuitBreakerConfig) (key : String) :
    (new passiveCfg breakerCfg).entry key = {} := rfl

@[simp] theorem entry_setEntry_self (registry : RuntimeRegistry) (key : String)
    (state : TargetRuntime) : (registry.setEntry key state).entry key = state := by
  simp [entry, setEntry]

theorem entry_setEntry_ne (registry : RuntimeRegistry) {key other : String}
    (state : TargetRuntime) (h : other ≠ key) :
    (registry.setEntry key state).entry other = registry.entry other := by
  simp [entry, setEntry, Function.update_of_ne h]

end RuntimeRegistry

/-! ## Keys -/

def targetKey (upstream targetId : String) : String :=
  upstream ++ ":" ++ targetId

/-!
## Resilience — the counter invariant

The registry never says that a failed probe reopens the circuit:
`record_failure` compares a counter with a threshold and nothing looks
at `HalfOpen`. That a half-open circuit reopens at the first failure
follows from an invariant between the counters and the circuit
(`TargetRuntime.Consistent`), which every operation preserves on every
key, for every threshold (zero included) and for saturated counters.
-/

/-! ## Sequences of registry operations -/

inductive RegistryCall where
  | isAvailable (key : String)
  | setActiveHealth (key : String) (healthy : Bool)
  | recordSuccess (key : String)
  | recordFailure (key : String)
deriving DecidableEq, Repr

/-- One operation at a clock reading; the answer of `is_available` is
dropped. -/
def RuntimeRegistry.call (registry : RuntimeRegistry) :
    Instant × RegistryCall → RuntimeRegistry
  | (now, .isAvailable key) => (registry.isAvailable now key).2
  | (_, .setActiveHealth key healthy) => registry.setActiveHealth key healthy
  | (_, .recordSuccess key) => registry.recordSuccess key
  | (now, .recordFailure key) => registry.recordFailure now key

/-! ## The invariant of one target -/

/-- What links the counters of a target to its flags and its circuit. -/
structure TargetRuntime.Consistent (passiveCfg : PassiveHealthCheckConfig)
    (breakerCfg : CircuitBreakerConfig) (state : TargetRuntime) : Prop where
  failures_eq : state.consecutiveFailures = state.breakerFailures
  one_streak : state.consecutiveFailures = 0 ∨ state.consecutiveSuccesses = 0
  closed_below : state.circuitState = .closed →
    state.breakerFailures < max 1 breakerCfg.failureThreshold.toNat
  tripped_above : state.circuitState ≠ .closed →
    breakerCfg.failureThreshold.toNat ≤ state.breakerFailures
  healthy_below : state.passiveHealthy = true →
    state.consecutiveFailures < max 1 passiveCfg.failureThreshold.toNat
  unhealthy_below : state.passiveHealthy = false →
    state.consecutiveSuccesses < max 1 passiveCfg.successThreshold.toNat

namespace TargetRuntime.Consistent

variable {passiveCfg : PassiveHealthCheckConfig} {breakerCfg : CircuitBreakerConfig}
  {state : TargetRuntime}

theorem default : Consistent passiveCfg breakerCfg {} where
  failures_eq := rfl
  one_streak := .inl rfl
  closed_below := fun _ => by simp
  tripped_above := fun h => absurd rfl h
  healthy_below := fun _ => by simp
  unhealthy_below := fun h => by cases h

theorem setCircuit (h : state.Consistent passiveCfg breakerCfg) {circuit : CircuitState}
    (hc : circuit = .closed ↔ state.circuitState = .closed) :
    ({ state with circuitState := circuit } : TargetRuntime).Consistent
      passiveCfg breakerCfg where
  failures_eq := h.failures_eq
  one_streak := h.one_streak
  closed_below := fun hclosed => h.closed_below (hc.mp hclosed)
  tripped_above := fun htripped => h.tripped_above (fun hclosed => htripped (hc.mpr hclosed))
  healthy_below := h.healthy_below
  unhealthy_below := h.unhealthy_below

theorem isAvailable (h : state.Consistent passiveCfg breakerCfg) (now : Instant) :
    (state.isAvailable breakerCfg now).2.Consistent passiveCfg breakerCfg := by
  unfold TargetRuntime.isAvailable
  split
  · exact h
  · split
    · exact h
    · rename_i openedAt hopen
      split
      · -- half open is still tripped
        exact h.setCircuit (by simp [hopen])
      · exact h
    · rename_i remaining hhalf
      split
      · exact h
      · exact h.setCircuit (by simp [hhalf])

theorem setActiveHealth (h : state.Consistent passiveCfg breakerCfg) (healthy : Bool) :
    (state.setActiveHealth healthy).Consistent passiveCfg breakerCfg :=
  ⟨h.failures_eq, h.one_streak, h.closed_below, h.tripped_above, h.healthy_below,
    h.unhealthy_below⟩

theorem recordSuccess (state : TargetRuntime) :
    (state.recordSuccess passiveCfg).Consistent passiveCfg breakerCfg where
  failures_eq := rfl
  one_streak := .inl rfl
  closed_below := fun _ => by simp [TargetRuntime.recordSuccess]
  tripped_above := fun h => absurd rfl h
  healthy_below := fun _ => by simp [TargetRuntime.recordSuccess]
  unhealthy_below := by
    intro hpassive
    simp only [TargetRuntime.recordSuccess] at hpassive ⊢
    split at hpassive
    · cases hpassive
    · omega

theorem recordFailure (h : state.Consistent passiveCfg breakerCfg) (now : Instant) :
    (state.recordFailure passiveCfg breakerCfg now).Consistent passiveCfg breakerCfg where
  failures_eq := by simp only [TargetRuntime.recordFailure, h.failures_eq]
  one_streak := .inr rfl
  closed_below := by
    intro hclosed
    simp only [TargetRuntime.recordFailure] at hclosed ⊢
    split at hclosed
    · cases hclosed
    · -- a circuit left closed has not reached the threshold
      omega
  tripped_above := by
    intro htripped
    simp only [TargetRuntime.recordFailure] at htripped ⊢
    split at htripped
    · assumption
    · -- the circuit was tripped before, and a failure only raises the count
      have hbefore := h.tripped_above htripped
      exact (le_saturatingAdd_iff (toNat_le_u32Max _)).mpr (by omega)
  healthy_below := by
    intro hpassive
    simp only [TargetRuntime.recordFailure] at hpassive ⊢
    split at hpassive
    · cases hpassive
    · -- nor has a flag left up
      omega
  unhealthy_below := fun _ => by simp [TargetRuntime.recordFailure]

theorem recordFailure_reopens (h : state.Consistent passiveCfg breakerCfg)
    (htripped : state.circuitState ≠ .closed) (now : Instant) :
    (state.recordFailure passiveCfg breakerCfg now).circuitState = .opened now := by
  have hbefore := h.tripped_above htripped
  have hafter : breakerCfg.failureThreshold.toNat ≤ saturatingAdd state.breakerFailures 1 :=
    (le_saturatingAdd_iff (toNat_le_u32Max _)).mpr (by omega)
  simp only [TargetRuntime.recordFailure, if_pos hafter]

end TargetRuntime.Consistent

/-! ## The invariant of the registry -/

/-- Every entry is consistent with the settings the registry was built
from. -/
structure RuntimeRegistry.Consistent (passiveCfg : PassiveHealthCheckConfig)
    (breakerCfg : CircuitBreakerConfig) (registry : RuntimeRegistry) : Prop where
  passiveCfg_eq : registry.passiveCfg = passiveCfg
  breakerCfg_eq : registry.breakerCfg = breakerCfg
  entry : ∀ key, (registry.entry key).Consistent passiveCfg breakerCfg

namespace RuntimeRegistry.Consistent

variable {passiveCfg : PassiveHealthCheckConfig} {breakerCfg : CircuitBreakerConfig}
  {registry : RuntimeRegistry}

theorem new (passiveCfg : PassiveHealthCheckConfig) (breakerCfg : CircuitBreakerConfig) :
    (RuntimeRegistry.new passiveCfg breakerCfg).Consistent passiveCfg breakerCfg :=
  ⟨rfl, rfl, fun _ => .default⟩

theorem setEntry (h : registry.Consistent passiveCfg breakerCfg) {key : String}
    {state : TargetRuntime} (hs : state.Consistent passiveCfg breakerCfg) :
    (registry.setEntry key state).Consistent passiveCfg breakerCfg := by
  refine ⟨h.passiveCfg_eq, h.breakerCfg_eq, fun other => ?_⟩
  by_cases hk : other = key
  · subst hk
    simpa using hs
  · rw [entry_setEntry_ne registry state hk]
    exact h.entry other

theorem isAvailable (h : registry.Consistent passiveCfg breakerCfg) (now : Instant)
    (key : String) :
    (registry.isAvailable now key).2.Consistent passiveCfg breakerCfg := by
  have hentry := (h.entry key).isAvailable now
  rw [← h.breakerCfg_eq] at hentry
  exact h.setEntry (h.breakerCfg_eq ▸ hentry)

theorem setActiveHealth (h : registry.Consistent passiveCfg breakerCfg) (key : String)
    (healthy : Bool) :
    (registry.setActiveHealth key healthy).Consistent passiveCfg breakerCfg :=
  h.setEntry ((h.entry key).setActiveHealth healthy)

theorem recordSuccess (h : registry.Consistent passiveCfg breakerCfg) (key : String) :
    (registry.recordSuccess key).Consistent passiveCfg breakerCfg :=
  h.setEntry (by rw [h.passiveCfg_eq]; exact .recordSuccess _)

theorem recordFailure (h : registry.Consistent passiveCfg breakerCfg) (now : Instant)
    (key : String) :
    (registry.recordFailure now key).Consistent passiveCfg breakerCfg :=
  h.setEntry (by rw [h.passiveCfg_eq, h.breakerCfg_eq]; exact (h.entry key).recordFailure now)

theorem call (h : registry.Consistent passiveCfg breakerCfg)
    (input : Instant × RegistryCall) :
    (registry.call input).Consistent passiveCfg breakerCfg := by
  obtain ⟨now, op⟩ := input
  cases op with
  | isAvailable key => exact h.isAvailable now key
  | setActiveHealth key healthy => exact h.setActiveHealth key healthy
  | recordSuccess key => exact h.recordSuccess key
  | recordFailure key => exact h.recordFailure now key

end RuntimeRegistry.Consistent

/-- **Every reachable registry is consistent**, on every key, after any
operations at any clock readings; and so a failure recorded while a
circuit is half open reopens it at once. -/
theorem reachable_registry_consistent (passiveCfg : PassiveHealthCheckConfig)
    (breakerCfg : CircuitBreakerConfig) (calls : List (Instant × RegistryCall))
    (key : String) :
    let registry :=
      Run.exec RuntimeRegistry.call (RuntimeRegistry.new passiveCfg breakerCfg) calls
    (registry.entry key).Consistent passiveCfg breakerCfg
      ∧ ∀ (remainingAttempts : Nat) (now : Instant),
          (registry.entry key).circuitState = .halfOpen remainingAttempts →
          ((registry.recordFailure now key).entry key).circuitState = .opened now := by
  intro registry
  have hreg : registry.Consistent passiveCfg breakerCfg :=
    Run.exec_invariant (fun _ input h => h.call input) (.new passiveCfg breakerCfg) calls
  refine ⟨hreg.entry key, fun remaining now hhalf => ?_⟩
  rw [RuntimeRegistry.recordFailure, RuntimeRegistry.entry_setEntry_self,
    hreg.passiveCfg_eq, hreg.breakerCfg_eq]
  exact (hreg.entry key).recordFailure_reopens (by simp [hhalf]) now

end KongGateway.GatewayCore

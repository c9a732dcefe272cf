import KongGateway.GatewayCore.Resilience

/-!
# Resilience — the probes of a half-open circuit

The call of `is_available` that turns an expired circuit half open says
yes without taking a slot; the `half_open_max_requests` slots are there
for the calls after it. Until a request to the target completes, the
calls that say yes are one more than the slots that are taken.
-/

namespace KongGateway.GatewayCore

open RustStd

/-! ## Counting calls -/

/-- The operation is a `record_success` or `record_failure` of `key`. -/
def RegistryCall.records (key : String) : RegistryCall → Bool
  | .recordSuccess other => other = key
  | .recordFailure other => other = key
  | _ => false

def RegistryCall.target : RegistryCall → String
  | .isAvailable key => key
  | .setActiveHealth key _ => key
  | .recordSuccess key => key
  | .recordFailure key => key

/-- The operation is an `is_available` of `key` that says yes. -/
def RuntimeRegistry.admits (registry : RuntimeRegistry) (key : String) :
    Instant × RegistryCall → Bool
  | (now, .isAvailable other) => other = key && (registry.isAvailable now other).1
  | _ => false

/-- How often `is_available` says yes for `key` along the calls. -/
def RuntimeRegistry.admissions (key : String) :
    RuntimeRegistry → List (Instant × RegistryCall) → Nat
  | _, [] => 0
  | registry, input :: rest =>
    (if registry.admits key input then 1 else 0)
      + admissions key (registry.call input) rest

/-- How often `is_available` is asked for `key` while the health checks
have the target up, as it is at first if `active` holds. -/
def healthyAsks (key : String) : Bool → List (Instant × RegistryCall) → Nat
  | _, [] => 0
  | active, (_, .isAvailable other) :: rest =>
    (if other = key ∧ active then 1 else 0) + healthyAsks key active rest
  | active, (_, .setActiveHealth other healthy) :: rest =>
    healthyAsks key (if other = key then healthy else active) rest
  | active, _ :: rest => healthyAsks key active rest

namespace RuntimeRegistry

variable {registry : RuntimeRegistry} {key : String}

/-! ## Operations on other keys -/

theorem call_entry_ne (registry : RuntimeRegistry) (now : Instant) {op : RegistryCall}
    (hne : op.target ≠ key) : (registry.call (now, op)).entry key = registry.entry key := by
  cases op with
  | _ => exact entry_setEntry_ne registry _ hne.symm

theorem admits_ne (registry : RuntimeRegistry) (now : Instant) {op : RegistryCall}
    (hne : op.target ≠ key) : registry.admits key (now, op) = false := by
  cases op with
  | isAvailable other => simp [admits, show other ≠ key from hne]
  | _ => rfl

theorem healthyAsks_cons_ne (active : Bool) (now : Instant) {op : RegistryCall}
    (hne : op.target ≠ key) (rest : List (Instant × RegistryCall)) :
    healthyAsks key active ((now, op) :: rest) = healthyAsks key active rest := by
  cases op with
  | isAvailable other => simp [healthyAsks, show other ≠ key from hne]
  | setActiveHealth other healthy => simp [healthyAsks, show other ≠ key from hne]
  | recordSuccess other => rfl
  | recordFailure other => rfl

/-! ## A half-open circuit -/

/-- What an `is_available` of a half-open target answers and leaves. -/
theorem isAvailable_halfOpen {remaining : Nat} (now : Instant)
    (hhalf : (registry.entry key).circuitState = .halfOpen remaining) :
    (registry.isAvailable now key).1 = ((registry.entry key).activeHealthy && remaining ≠ 0)
      ∧ ((registry.isAvailable now key).2.entry key).activeHealthy
        = (registry.entry key).activeHealthy
      ∧ ((registry.isAvailable now key).2.entry key).circuitState
        = .halfOpen (if (registry.entry key).activeHealthy then remaining - 1 else remaining) := by
  simp only [isAvailable, entry_setEntry_self, TargetRuntime.isAvailable, hhalf]
  cases hactive : (registry.entry key).activeHealthy with
  | false => simp [hhalf, hactive]
  | true =>
    by_cases hzero : remaining = 0
    · simp [hzero, hhalf, hactive]
    · simp [hzero]

/-- **Until a request completes**, a half-open circuit admits one request
for every call that finds the target up, as long as there are slots. -/
theorem admissions_halfOpen {remaining : Nat} {calls : List (Instant × RegistryCall)}
    (hhalf : (registry.entry key).circuitState = .halfOpen remaining)
    (hnone : ∀ input ∈ calls, input.2.records key = false) :
    registry.admissions key calls
      = min remaining (healthyAsks key (registry.entry key).activeHealthy calls) := by
  induction calls generalizing registry remaining with
  | nil => simp [admissions, healthyAsks]
  | cons input rest ih =>
    have hrest : ∀ input ∈ rest, input.2.records key = false :=
      fun other hmem => hnone other (List.mem_cons_of_mem _ hmem)
    have hinput := hnone input List.mem_cons_self
    obtain ⟨now, op⟩ := input
    by_cases hkey : op.target = key
    · cases op with
      | isAvailable other =>
        obtain rfl : other = key := hkey
        obtain ⟨hanswer, hactive, hcircuit⟩ := isAvailable_halfOpen now hhalf
        have hlater : (registry.call (now, .isAvailable other)).admissions other rest
            = min (if (registry.entry other).activeHealthy then remaining - 1 else remaining)
              (healthyAsks other ((registry.isAvailable now other).2.entry other).activeHealthy
                rest) := ih hcircuit hrest
        rw [hactive] at hlater
        simp only [admissions, admits, hanswer, hlater, healthyAsks]
        cases (registry.entry other).activeHealthy with
        | false => simp
        | true =>
          simp only [decide_true, Bool.true_and, decide_eq_true_eq, and_self, if_true]
          split <;> omega
      | setActiveHealth other healthy =>
        obtain rfl : other = key := hkey
        have hset : (registry.call (now, .setActiveHealth other healthy)).entry other
            = (registry.entry other).setActiveHealth healthy := entry_setEntry_self _ _ _
        have hlater : (registry.call (now, .setActiveHealth other healthy)).admissions other rest
            = min remaining (healthyAsks other healthy rest) := by
          rw [ih (by rw [hset]; exact hhalf) hrest, hset]
          rfl
        simp [admissions, admits, healthyAsks, hlater]
      | recordSuccess other => exact absurd hkey (of_decide_eq_false hinput)
      | recordFailure other => exact absurd hkey (of_decide_eq_false hinput)
    · -- an operation on another key leaves the entry and counts nothing
      have hsame := registry.call_entry_ne now hkey
      rw [healthyAsks_cons_ne _ now hkey, admissions, admits_ne registry now hkey,
        ih (by rw [hsame, hhalf]) hrest, hsame]
      simp

/-- The call that turns an open circuit half open says yes, and leaves
all slots. -/
theorem isAvailable_turns {openedAt now : Instant} {remaining : Nat}
    (hopen : (registry.entry key).circuitState = .opened openedAt)
    (hturns : ((registry.isAvailable now key).2.entry key).circuitState = .halfOpen remaining) :
    (registry.isAvailable now key).1 = true
      ∧ ((registry.isAvailable now key).2.entry key).activeHealthy = true
      ∧ remaining = registry.breakerCfg.halfOpenMaxRequests.toNat := by
  simp only [isAvailable, entry_setEntry_self, TargetRuntime.isAvailable, hopen] at hturns ⊢
  cases hactive : (registry.entry key).activeHealthy with
  | false => simp [hactive, hopen] at hturns
  | true =>
    simp only [hactive, Bool.not_true, Bool.false_eq_true, if_false] at hturns ⊢
    split at hturns
    · rename_i helapsed
      cases hturns
      simp [helapsed]
    · simp [hopen] at hturns

@[simp] theorem call_breakerCfg (registry : RuntimeRegistry) (input : Instant × RegistryCall) :
    (registry.call input).breakerCfg = registry.breakerCfg := by
  obtain ⟨now, op⟩ := input
  cases op <;> rfl

end RuntimeRegistry

/-- **The probes of a half-open circuit, exactly.** In every run in which
an open circuit turns half open, `is_available` says yes at most
`half_open_max_requests` times until a request to the target completes,
if and only if fewer calls than that come after the one that turned the
circuit and find the target up. -/
theorem probe_admissions_le_iff {passiveCfg : PassiveHealthCheckConfig}
    {breakerCfg : CircuitBreakerConfig} {before calls : List (Instant × RegistryCall)}
    {registry : RuntimeRegistry} {key : String} {openedAt now : Instant} {remaining : Nat}
    (hreached : Run.exec RuntimeRegistry.call (.new passiveCfg breakerCfg) before = registry)
    (hopen : (registry.entry key).circuitState = .opened openedAt)
    (hturns : ((registry.isAvailable now key).2.entry key).circuitState = .halfOpen remaining)
    (hnone : ∀ input ∈ calls, input.2.records key = false) :
    registry.admissions key ((now, .isAvailable key) :: calls)
        ≤ breakerCfg.halfOpenMaxRequests.toNat
      ↔ healthyAsks key true calls < breakerCfg.halfOpenMaxRequests.toNat := by
  have hcfg : registry.breakerCfg = breakerCfg := by
    rw [← hreached]
    exact Run.exec_invariant
      (fun s input h => (RuntimeRegistry.call_breakerCfg s input).trans h) rfl before
  obtain ⟨hyes, hactive, rfl⟩ := RuntimeRegistry.isAvailable_turns hopen hturns
  -- the turning call counts, and behind it all slots are left
  have hcount : registry.admissions key ((now, .isAvailable key) :: calls)
      = 1 + min breakerCfg.halfOpenMaxRequests.toNat (healthyAsks key true calls) := by
    rw [← hactive, ← hcfg, ← RuntimeRegistry.admissions_halfOpen hturns hnone]
    simp [RuntimeRegistry.admissions, RuntimeRegistry.admits, hyes, RuntimeRegistry.call]
  rw [hcount]
  omega

/-! ### One slot, two requests -/

/-- The settings of the unit test, with one slot. -/
def oneSlot : CircuitBreakerConfig where
  failureThreshold := 1
  openMs := 1
  halfOpenMaxRequests := 1

def failedOnce : RuntimeRegistry :=
  Run.exec RuntimeRegistry.call (.new {} oneSlot) [(0, .recordFailure "svc:a")]

/-- The call that turns the circuit is the only one. -/
theorem single_probe_within_slots :
    failedOnce.admissions "svc:a" [(fromMillis 2, .isAvailable "svc:a")]
      ≤ oneSlot.halfOpenMaxRequests.toNat := by
  have hopen : (failedOnce.entry "svc:a").circuitState = .opened 0 := by decide
  have hturns : ((failedOnce.isAvailable (fromMillis 2) "svc:a").2.entry "svc:a").circuitState
      = .halfOpen 1 := by decide
  exact (probe_admissions_le_iff rfl hopen hturns (by simp)).mpr (by decide)

/-- The call that turns the circuit and the one after it both say yes,
with one slot. -/
theorem second_probe_beyond_slots :
    1 ≤ oneSlot.halfOpenMaxRequests
      ∧ (failedOnce.entry "svc:a").circuitState = .opened 0
      ∧ ((failedOnce.isAvailable (fromMillis 2) "svc:a").2.entry "svc:a").circuitState = .halfOpen 1
      ∧ ¬ failedOnce.admissions "svc:a"
          [(fromMillis 2, .isAvailable "svc:a"), (fromMillis 3, .isAvailable "svc:a")]
        ≤ oneSlot.halfOpenMaxRequests.toNat := by
  decide

end KongGateway.GatewayCore

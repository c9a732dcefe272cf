import KongGateway.GatewayCore.Resilience

/-!
# Resilience — the open period under concurrent requests

Requests to a target are dispatched by an `is_available` that says yes
and complete later, in any order. `openings` records each time a
`record_failure` put a circuit in `Open`; it is bookkeeping the code
does not have.

A request dispatched before the circuit opened may succeed after it, and
`record_success` closes the circuit whatever its state. The open period
is kept exactly in the runs whose late successes leave the passive flag
down (`KeepsPeriod`).
-/

namespace KongGateway.GatewayCore

open RustStd

/-! ## The system -/

structure Dispatch where
  registry : RuntimeRegistry
  inFlight : String → Nat
  openings : List (String × Instant)
  now : Instant

inductive DispatchEvent where
  | call (call : RegistryCall)
  | wait (time : Duration)
deriving DecidableEq, Repr

namespace Dispatch

def start (passiveCfg : PassiveHealthCheckConfig) (breakerCfg : CircuitBreakerConfig) :
    Dispatch where
  registry := .new passiveCfg breakerCfg
  inFlight := fun _ => 0
  openings := []
  now := 0

def inFlightAfter (s : Dispatch) : RegistryCall → String → Nat
  | .isAvailable key =>
    if (s.registry.isAvailable s.now key).1 then
      Function.update s.inFlight key (s.inFlight key + 1)
    else s.inFlight
  | .setActiveHealth _ _ => s.inFlight
  | .recordSuccess key => Function.update s.inFlight key (s.inFlight key - 1)
  | .recordFailure key => Function.update s.inFlight key (s.inFlight key - 1)

def openingsAfter (s : Dispatch) : RegistryCall → List (String × Instant)
  | .recordFailure key =>
    if ((s.registry.recordFailure s.now key).entry key).circuitState = .opened s.now then
      (key, s.now) :: s.openings
    else s.openings
  | _ => s.openings

/-- The registry reads the clock under its lock, so calls are made in
clock order. -/
def step (s : Dispatch) : DispatchEvent → Dispatch
  | .call call =>
    { s with
      registry := s.registry.call (s.now, call)
      inFlight := s.inFlightAfter call
      openings := s.openingsAfter call }
  | .wait time => { s with now := s.now + time }

/-- Only a request in flight can complete. -/
def Possible (s : Dispatch) : DispatchEvent → Prop
  | .call (.recordSuccess key) => 0 < s.inFlight key
  | .call (.recordFailure key) => 0 < s.inFlight key
  | _ => True

instance (s : Dispatch) : (event : DispatchEvent) → Decidable (s.Possible event)
  | .call (.recordSuccess key) => inferInstanceAs (Decidable (0 < s.inFlight key))
  | .call (.recordFailure key) => inferInstanceAs (Decidable (0 < s.inFlight key))
  | .call (.isAvailable _) => inferInstanceAs (Decidable True)
  | .call (.setActiveHealth _ _) => inferInstanceAs (Decidable True)
  | .wait _ => inferInstanceAs (Decidable True)

/-! ## The property and its condition -/

/-- A failure opened the circuit of `key` less than `open_ms` ago. -/
def WithinPeriod (s : Dispatch) (key : String) : Prop :=
  ∃ opening ∈ s.openings,
    opening.1 = key ∧ s.now < opening.2 + fromMillis s.registry.breakerCfg.openMs

instance (s : Dispatch) (key : String) : Decidable (s.WithinPeriod key) :=
  inferInstanceAs (Decidable (∃ opening ∈ s.openings,
    opening.1 = key ∧ s.now < opening.2 + fromMillis s.registry.breakerCfg.openMs))

/-- No target is available within its open period. -/
def PeriodKept (s : Dispatch) : Prop :=
  ∀ key, s.WithinPeriod key → (s.registry.isAvailable s.now key).1 = false

/-- A success recorded within the open period finds the passive flag
down and is not enough to raise it. -/
def KeepsPeriod (s : Dispatch) : DispatchEvent → Prop
  | .call (.recordSuccess key) => s.WithinPeriod key →
      (s.registry.entry key).passiveHealthy = false
        ∧ saturatingAdd (s.registry.entry key).consecutiveSuccesses 1
          < s.registry.passiveCfg.successThreshold.toNat
  | _ => True

end Dispatch

/-! ## One target -/

/-- The target has been shut since some failure opened its circuit: the
circuit is open since then or later, or closed behind a passive flag
that is down. -/
def TargetRuntime.ShutSince (openedAt : Instant) (state : TargetRuntime) : Prop :=
  match state.circuitState with
  | .closed => state.passiveHealthy = false
  | .opened reopenedAt => openedAt ≤ reopenedAt
  | .halfOpen _ => False

namespace TargetRuntime.ShutSince

variable {openedAt now : Instant} {state : TargetRuntime}
  {passiveCfg : PassiveHealthCheckConfig} {breakerCfg : CircuitBreakerConfig}

/-- Within the open period a shut target is not available, and asking
leaves it as it is. -/
theorem isAvailable (h : state.ShutSince openedAt) (hpast : openedAt ≤ now)
    (hwithin : now < openedAt + fromMillis breakerCfg.openMs) :
    state.isAvailable breakerCfg now = (false, state) := by
  unfold TargetRuntime.isAvailable
  unfold TargetRuntime.ShutSince at h
  split
  · rfl
  · cases hc : state.circuitState with
    | closed =>
      simp only [hc] at h ⊢
      rw [h]
    | opened reopenedAt =>
      simp only [hc] at h ⊢
      -- the circuit was opened no earlier than `openedAt`, so its time is not up either
      have hrunning : ¬ breakerCfg.elapsed reopenedAt now = true := by
        intro hover
        have hlong : fromMillis breakerCfg.openMs ≤ durationSince now openedAt :=
          Nat.le_trans (of_decide_eq_true hover) (Nat.sub_le_sub_left h now)
        exact Nat.not_le_of_lt hwithin ((le_durationSince_iff hpast).mp hlong)
      rw [if_neg hrunning]
    | halfOpen remaining =>
      simp only [hc] at h

theorem setActiveHealth (h : state.ShutSince openedAt) (healthy : Bool) :
    (state.setActiveHealth healthy).ShutSince openedAt := h

theorem recordSuccess
    (hdown : state.passiveHealthy = false)
    (hfew : saturatingAdd state.consecutiveSuccesses 1 < passiveCfg.successThreshold.toNat) :
    (state.recordSuccess passiveCfg).ShutSince openedAt := by
  simp only [TargetRuntime.ShutSince, TargetRuntime.recordSuccess]
  rw [if_neg (Nat.not_le_of_lt hfew), hdown]

theorem recordFailure (h : state.ShutSince openedAt) (hpast : openedAt ≤ now) :
    (state.recordFailure passiveCfg breakerCfg now).ShutSince openedAt := by
  unfold TargetRuntime.ShutSince at h ⊢
  simp only [TargetRuntime.recordFailure]
  by_cases htrip : breakerCfg.failureThreshold.toNat ≤ saturatingAdd state.breakerFailures 1
  · -- the failure opens the circuit anew, now
    rw [if_pos htrip]
    exact hpast
  · rw [if_neg htrip]
    cases hc : state.circuitState with
    | closed =>
      simp only [hc] at h ⊢
      rw [h]
      split <;> rfl
    | opened reopenedAt =>
      simp only [hc] at h ⊢
      exact h
    | halfOpen remaining => simp only [hc] at h

end TargetRuntime.ShutSince

/-! ## The condition is enough -/

namespace Dispatch

variable {s : Dispatch}

/-- What a run keeps: every opening lies in the past, and within its
period the target is shut since then. -/
structure Shut (s : Dispatch) : Prop where
  past : ∀ opening ∈ s.openings, opening.2 ≤ s.now
  shut : ∀ opening ∈ s.openings,
    s.now < opening.2 + fromMillis s.registry.breakerCfg.openMs →
    (s.registry.entry opening.1).ShutSince opening.2

theorem Shut.start (passiveCfg : PassiveHealthCheckConfig)
    (breakerCfg : CircuitBreakerConfig) : (start passiveCfg breakerCfg).Shut where
  past := fun _ hmem => by cases hmem
  shut := fun _ hmem => by cases hmem

theorem Shut.write (h : s.Shut) {key : String} {state : TargetRuntime}
    {inFlight : String → Nat}
    (hstate : ∀ openedAt, (key, openedAt) ∈ s.openings →
      s.now < openedAt + fromMillis s.registry.breakerCfg.openMs →
      state.ShutSince openedAt) :
    Shut { s with registry := s.registry.setEntry key state, inFlight := inFlight } where
  past := h.past
  shut := fun opening hmem hwithin => by
    obtain ⟨other, openedAt⟩ := opening
    by_cases hk : other = key
    · subst hk
      simp only [RuntimeRegistry.entry_setEntry_self]
      exact hstate openedAt hmem hwithin
    · simp only [RuntimeRegistry.entry_setEntry_ne _ _ hk]
      exact h.shut _ hmem hwithin

theorem Shut.addOpening (h : s.Shut) {key : String}
    (hopen : (s.registry.entry key).circuitState = .opened s.now) :
    Shut { s with openings := (key, s.now) :: s.openings } where
  past := fun opening hmem => by
    rcases List.mem_cons.mp hmem with rfl | hold
    · exact Nat.le_refl _
    · exact h.past opening hold
  shut := fun opening hmem hwithin => by
    rcases List.mem_cons.mp hmem with rfl | hold
    · simp only [TargetRuntime.ShutSince, hopen]
      exact Nat.le_refl _
    · exact h.shut opening hold hwithin

theorem Shut.call (h : s.Shut) (call : RegistryCall) (hkeeps : s.KeepsPeriod (.call call)) :
    (s.step (.call call)).Shut := by
  cases call with
  | isAvailable key =>
    refine h.write fun openedAt hmem hwithin => ?_
    have hshut := h.shut _ hmem hwithin
    -- no question turns the circuit half open before its time
    show ((s.registry.entry key).isAvailable s.registry.breakerCfg s.now).2.ShutSince openedAt
    rw [hshut.isAvailable (h.past _ hmem) hwithin]
    exact hshut
  | setActiveHealth key healthy =>
    exact h.write fun openedAt hmem hwithin => (h.shut _ hmem hwithin).setActiveHealth healthy
  | recordSuccess key =>
    refine h.write fun openedAt hmem hwithin => ?_
    obtain ⟨hdown, hfew⟩ := hkeeps ⟨_, hmem, rfl, hwithin⟩
    exact .recordSuccess hdown hfew
  | recordFailure key =>
    have hwrite : Shut { s with
        registry := s.registry.recordFailure s.now key
        inFlight := s.inFlightAfter (.recordFailure key) } :=
      h.write fun openedAt hmem hwithin =>
        (h.shut _ hmem hwithin).recordFailure (h.past _ hmem)
    -- the old openings are kept; the failure itself may add one
    simp only [step, openingsAfter]
    split
    · rename_i hopen
      exact hwrite.addOpening hopen
    · exact hwrite

theorem Shut.step (h : s.Shut) (event : DispatchEvent) (hkeeps : s.KeepsPeriod event) :
    (s.step event).Shut := by
  cases event with
  | call call => exact h.call call hkeeps
  | wait time =>
    refine ⟨fun opening hmem => ?_, fun opening hmem hwithin => ?_⟩
    · exact Nat.le_trans (h.past opening hmem) (Nat.le_add_right _ _)
    · exact h.shut opening hmem (Nat.lt_of_le_of_lt (Nat.le_add_right _ _) hwithin)

theorem Shut.periodKept (h : s.Shut) : s.PeriodKept := by
  rintro key ⟨⟨_, openedAt⟩, hmem, rfl, hwithin⟩
  simp only [RuntimeRegistry.isAvailable]
  rw [(h.shut _ hmem hwithin).isAvailable (h.past _ hmem) hwithin]

/-! ## The condition is needed -/

/-- A success that raises the flag, or finds it up, closes the circuit
at once: the target is available as soon as it is actively healthy. -/
theorem keepsPeriod_of_periodKept {event : DispatchEvent}
    (h : ∀ key, ((s.step event).step (.call (.setActiveHealth key true))).PeriodKept) :
    s.KeepsPeriod event := by
  cases event with
  | wait time => trivial
  | call call =>
    cases call with
    | isAvailable key => trivial
    | setActiveHealth key healthy => trivial
    | recordFailure key => trivial
    | recordSuccess key =>
      intro hwithin
      have hshut := h key key hwithin
      simp only [step, RuntimeRegistry.call, RuntimeRegistry.recordSuccess,
        RuntimeRegistry.setActiveHealth, RuntimeRegistry.isAvailable,
        RuntimeRegistry.entry_setEntry_self, TargetRuntime.setActiveHealth,
        TargetRuntime.recordSuccess, TargetRuntime.isAvailable, Bool.not_true,
        Bool.false_eq_true, if_false] at hshut
      split at hshut
      · -- this success is enough to raise the flag
        cases hshut
      · rename_i hfew
        exact ⟨hshut, Nat.not_le.mp hfew⟩

end Dispatch

/-- **The open period, exactly.** A run of in-flight requests, active
health checks and time keeps every open period, also if a health check
comes in at any point of it, if and only if every success it records
within an open period leaves the passive flag down. -/
theorem open_period_kept_iff (passiveCfg : PassiveHealthCheckConfig)
    (breakerCfg : CircuitBreakerConfig) (events : List DispatchEvent) :
    Run.Guarded Dispatch.step (fun s event => s.Possible event ∧ s.KeepsPeriod event)
        (.start passiveCfg breakerCfg) events
      ↔ Run.Guarded Dispatch.step Dispatch.Possible (.start passiveCfg breakerCfg) events
        ∧ ∀ pre, pre <+: events →
          let s := Run.exec Dispatch.step (.start passiveCfg breakerCfg) pre
          s.PeriodKept ∧ ∀ key, (s.step (.call (.setActiveHealth key true))).PeriodKept := by
  constructor
  · intro hrun
    refine ⟨hrun.mono fun _ _ hguard => hguard.1, ?_⟩
    rintro pre ⟨post, rfl⟩
    have hshut : (Run.exec Dispatch.step (.start passiveCfg breakerCfg) pre).Shut :=
      (Run.guarded_append.mp hrun).1.invariant
        (fun s event h hguard => h.step event hguard.2) (.start passiveCfg breakerCfg)
    exact ⟨hshut.periodKept, fun key => (hshut.call (.setActiveHealth key true) trivial).periodKept⟩
  · rintro ⟨hpossible, hkept⟩
    have hkeeps : Run.Guarded Dispatch.step Dispatch.KeepsPeriod
        (.start passiveCfg breakerCfg) events := by
      refine Run.Guarded.of_prefix fun pre event hpre => ?_
      have hafter := (hkept _ hpre).2
      rw [Run.exec_append] at hafter
      exact Dispatch.keepsPeriod_of_periodKept hafter
    exact hpossible.and hkeeps

/-- Two requests are dispatched, one fails and opens the circuit, and
the other one succeeds: the target is available again at the instant its
open period of thirty seconds began. -/
theorem late_success_ends_open_period :
    let events : List DispatchEvent :=
      [.call (.isAvailable "svc:a"), .call (.isAvailable "svc:a"),
        .call (.recordFailure "svc:a"), .call (.recordSuccess "svc:a")]
    let s := Run.exec Dispatch.step (.start {} { failureThreshold := 1, openMs := 30000 }) events
    Run.Guarded Dispatch.step Dispatch.Possible
        (.start {} { failureThreshold := 1, openMs := 30000 }) events
      ∧ s.WithinPeriod "svc:a" ∧ (s.registry.isAvailable s.now "svc:a").1 = true := by
  decide

end KongGateway.GatewayCore

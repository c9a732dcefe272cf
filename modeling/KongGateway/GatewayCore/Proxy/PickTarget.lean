import KongGateway.GatewayCore.Proxy

/-!
# Proxy — what a call of `pick_target` does to the registry

`pick_target` asks `is_available` of every target of the upstream and
then lets the balancer choose among those that answered yes. Each
question may move a circuit. This module computes, from the state before
the call alone, who answers yes (`admittedTargets`), whom the balancer
chooses (`chosenKey`) and what becomes of every circuit
(`TargetRuntime.circuitAfter`), and shows that the call does exactly
that. A key listed several times is asked several times, so everything
is counted by the number `n` of questions a key has already been asked
in the call.
-/

namespace KongGateway.GatewayCore

open RustStd

/-! ## Questions to one target at one instant -/

namespace TargetRuntime

variable (cfg : CircuitBreakerConfig) (now : Instant)

/-- The state after `n` questions. -/
def asked (n : Nat) (state : TargetRuntime) : TargetRuntime :=
  (fun s : TargetRuntime => (s.isAvailable cfg now).2)^[n] state

/-- The answer to the question that `n` others precede. -/
def answers (n : Nat) (state : TargetRuntime) : Bool :=
  state.activeHealthy &&
    match state.circuitState with
    | .closed => state.passiveHealthy
    | .opened openedAt =>
      cfg.elapsed openedAt now && decide (n ≤ cfg.halfOpenMaxRequests.toNat)
    | .halfOpen remaining => decide (n < remaining)

/-- The probe slots that `n` questions spend. The question that turns an
expired open circuit half open is free. -/
def slotsAsked (n : Nat) (state : TargetRuntime) : Nat :=
  if !state.activeHealthy then 0
  else
    match state.circuitState with
    | .closed => 0
    | .opened openedAt =>
      if cfg.elapsed openedAt now then min cfg.halfOpenMaxRequests.toNat (n - 1) else 0
    | .halfOpen remaining => min remaining n

/-- The circuit after `n` questions. -/
def circuitAfter (n : Nat) (state : TargetRuntime) : CircuitState :=
  if !state.activeHealthy then state.circuitState
  else
    match state.circuitState with
    | .closed => .closed
    | .opened openedAt =>
      if cfg.elapsed openedAt now ∧ 0 < n then
        .halfOpen (cfg.halfOpenMaxRequests.toNat - (n - 1))
      else .opened openedAt
    | .halfOpen remaining => .halfOpen (remaining - n)

variable {cfg now}

theorem circuitAfter_zero (state : TargetRuntime) :
    state.circuitAfter cfg now 0 = state.circuitState := by
  unfold circuitAfter
  split
  · rfl
  · split <;> simp_all

/-- One question moves the circuit as `circuitAfter` says and nothing
else. -/
theorem isAvailable_snd (state : TargetRuntime) :
    (state.isAvailable cfg now).2
      = { state with circuitState := state.circuitAfter cfg now 1 } := by
  obtain ⟨active, passive, failures, successes, breaker, circuit⟩ := state
  cases active with
  | false => rfl
  | true =>
    cases circuit with
    | closed => rfl
    | opened openedAt =>
      by_cases h : cfg.elapsed openedAt now = true
      · simp [isAvailable, circuitAfter, h]
      · simp [isAvailable, circuitAfter, h]
    | halfOpen remaining =>
      by_cases h : remaining = 0
      · simp [isAvailable, circuitAfter, h]
      · simp [isAvailable, circuitAfter, h]

theorem isAvailable_fst (state : TargetRuntime) :
    (state.isAvailable cfg now).1 = state.answers cfg now 0 := by
  obtain ⟨active, passive, failures, successes, breaker, circuit⟩ := state
  cases active with
  | false => rfl
  | true =>
    cases circuit with
    | closed => rfl
    | opened openedAt =>
      by_cases h : cfg.elapsed openedAt now = true
      · simp [isAvailable, answers, h]
      · simp [isAvailable, answers, h]
    | halfOpen remaining =>
      by_cases h : remaining = 0
      · simp [isAvailable, answers, h]
      · simp [isAvailable, answers, h, Nat.pos_of_ne_zero h]

/-- `circuitAfter` composes: one more question after `n`. -/
theorem circuitAfter_succ (n : Nat) (state : TargetRuntime) :
    ({ state with circuitState := state.circuitAfter cfg now n } : TargetRuntime).circuitAfter
        cfg now 1
      = state.circuitAfter cfg now (n + 1) := by
  obtain ⟨active, passive, failures, successes, breaker, circuit⟩ := state
  cases active with
  | false => rfl
  | true =>
    cases circuit with
    | closed => rfl
    | opened openedAt =>
      by_cases h : cfg.elapsed openedAt now = true
      · -- the first of the questions is free, the others spend slots
        rcases Nat.eq_zero_or_pos n with rfl | hn
        · simp [circuitAfter, h]
        · simp only [circuitAfter, h, hn, Bool.not_true, Bool.false_eq_true, if_false,
            true_and, if_true, Nat.succ_pos, CircuitState.halfOpen.injEq]
          omega
      · simp [circuitAfter, h]
    | halfOpen remaining =>
      simp only [circuitAfter, Bool.not_true, Bool.false_eq_true, if_false,
        CircuitState.halfOpen.injEq]
      omega

theorem asked_eq (n : Nat) (state : TargetRuntime) :
    state.asked cfg now n = { state with circuitState := state.circuitAfter cfg now n } := by
  induction n with
  | zero => simp [asked, circuitAfter_zero]
  | succ n ih =>
    rw [asked, Function.iterate_succ_apply']
    show ((state.asked cfg now n).isAvailable cfg now).2 = _
    rw [ih, isAvailable_snd, circuitAfter_succ]

theorem answers_asked (n : Nat) (state : TargetRuntime) :
    ((state.asked cfg now n).isAvailable cfg now).1 = state.answers cfg now n := by
  rw [isAvailable_fst, asked_eq]
  obtain ⟨active, passive, failures, successes, breaker, circuit⟩ := state
  cases active with
  | false => rfl
  | true =>
    cases circuit with
    | closed => rfl
    | opened openedAt =>
      by_cases h : cfg.elapsed openedAt now = true
      · rcases Nat.eq_zero_or_pos n with rfl | hn
        · simp [answers, circuitAfter, h]
        · simp only [answers, circuitAfter, h, hn, Bool.not_true, Bool.false_eq_true,
            if_false, true_and, if_true, Bool.true_and, decide_eq_decide]
          omega
      · simp [answers, circuitAfter, h]
    | halfOpen remaining => simp [answers, circuitAfter]

end TargetRuntime

/-! ## The whole call -/

/-- The keys of an upstream's targets, in order. -/
def UpstreamConfig.keys (upstream : UpstreamConfig) : List String :=
  upstream.targets.map fun target => targetKey upstream.name target.id

/-- The targets that answer yes, given the keys asked before them. -/
def admittedTargets (upstreamName : String) (now : Instant) (registry : RuntimeRegistry) :
    List String → List UpstreamTarget → List UpstreamTarget
  | _, [] => []
  | askedKeys, target :: rest =>
    let key := targetKey upstreamName target.id
    let admitted := admittedTargets upstreamName now registry (key :: askedKeys) rest
    if (registry.entry key).answers registry.breakerCfg now (askedKeys.count key) then
      target :: admitted
    else admitted

/-- The target the balancer chooses, from the state before the call. -/
def chosenTarget (hasher : String → Nat) (upstream : UpstreamConfig)
    (registry : RuntimeRegistry) (now : Instant) (requestKey : String)
    (requestCount : Nat) : Option UpstreamTarget :=
  selectTarget hasher upstream.strategy
    (admittedTargets upstream.name now registry [] upstream.targets)
    (some requestKey) requestCount

theorem isAvailable_entry (registry : RuntimeRegistry) (now : Instant)
    (key other : String) :
    (registry.isAvailable now key).2.entry other
      = if other = key then (registry.entry key).asked registry.breakerCfg now 1
        else registry.entry other := by
  by_cases h : other = key
  · subst h
    simp [RuntimeRegistry.isAvailable, TargetRuntime.asked]
  · simp [RuntimeRegistry.isAvailable, RuntimeRegistry.entry_setEntry_ne _ _ h, h]

/-- The filter asks each key once per listing, starting from a registry
in which `askedKeys` have been asked already. -/
theorem availableTargets_spec (upstreamName : String) (now : Instant)
    (start : RuntimeRegistry) (targets : List UpstreamTarget) :
    ∀ (askedKeys : List String) (registry : RuntimeRegistry),
    registry.breakerCfg = start.breakerCfg → registry.passiveCfg = start.passiveCfg →
    (∀ key, registry.entry key
      = (start.entry key).asked start.breakerCfg now (askedKeys.count key)) →
    let result := availableTargets upstreamName now registry targets
    result.1 = admittedTargets upstreamName now start askedKeys targets
      ∧ result.2.breakerCfg = start.breakerCfg ∧ result.2.passiveCfg = start.passiveCfg
      ∧ ∀ key, result.2.entry key
          = (start.entry key).asked start.breakerCfg now
              ((targets.map fun target => targetKey upstreamName target.id).count key
                + askedKeys.count key) := by
  induction targets with
  | nil =>
    intro askedKeys registry hb hp hentry
    exact ⟨rfl, hb, hp, fun key => by simpa [availableTargets] using hentry key⟩
  | cons target rest ih =>
    intro askedKeys registry hb hp hentry
    -- a key listed before has been asked already, and answers from what that left
    have hanswer : (registry.isAvailable now (targetKey upstreamName target.id)).1
        = (start.entry (targetKey upstreamName target.id)).answers start.breakerCfg now
            (askedKeys.count (targetKey upstreamName target.id)) := by
      rw [RuntimeRegistry.isAvailable, hentry, hb]
      exact TargetRuntime.answers_asked _ _
    have hnext : ∀ key,
        (registry.isAvailable now (targetKey upstreamName target.id)).2.entry key
          = (start.entry key).asked start.breakerCfg now
              ((targetKey upstreamName target.id :: askedKeys).count key) := by
      intro key
      rw [isAvailable_entry]
      by_cases hk : key = targetKey upstreamName target.id
      · subst hk
        rw [if_pos rfl, hentry, hb, List.count_cons_self, TargetRuntime.asked,
          TargetRuntime.asked, TargetRuntime.asked, ← Function.iterate_add_apply,
          Nat.add_comm]
      · rw [if_neg hk, hentry, List.count_cons_of_ne (Ne.symm hk)]
    obtain ⟨hfst, hb', hp', hall⟩ :=
      ih (targetKey upstreamName target.id :: askedKeys)
        (registry.isAvailable now (targetKey upstreamName target.id)).2 hb hp hnext
    refine ⟨?_, hb', hp', fun key => ?_⟩
    · simp only [availableTargets, admittedTargets, hanswer, hfst]
    · have := hall key
      simp only [availableTargets, this, List.map_cons, List.count_cons]
      rw [Nat.add_comm (List.count key askedKeys), ← Nat.add_assoc]

theorem availableTargets_start (upstreamName : String) (now : Instant)
    (registry : RuntimeRegistry) (targets : List UpstreamTarget) :
    let result := availableTargets upstreamName now registry targets
    result.1 = admittedTargets upstreamName now registry [] targets
      ∧ result.2.breakerCfg = registry.breakerCfg
      ∧ result.2.passiveCfg = registry.passiveCfg
      ∧ ∀ key, result.2.entry key
          = (registry.entry key).asked registry.breakerCfg now
              ((targets.map fun target => targetKey upstreamName target.id).count key) :=
  availableTargets_spec upstreamName now registry targets [] registry rfl rfl
    (fun key => by simp [TargetRuntime.asked])

theorem selectTarget_nil (hasher : String → Nat) (strategy : BalancingStrategy)
    (requestKey : Option String) (requestCount : Nat) :
    selectTarget hasher strategy [] requestKey requestCount = none := by
  cases strategy with
  | roundRobin => rfl
  | leastConnections => rfl
  | hash => cases requestKey <;> rfl

section Call

variable (hasher : String → Nat) (upstream : UpstreamConfig) (registry : RuntimeRegistry)
  (now : Instant) (requestKey : String) (requestCount : Nat)

/-- **`pick_target` returns the chosen target.** -/
theorem pickTarget_fst :
    (pickTarget hasher upstream registry now requestKey requestCount).1
      = chosenTarget hasher upstream registry now requestKey requestCount := by
  obtain ⟨hadmitted, -⟩ := availableTargets_start upstream.name now registry upstream.targets
  rw [chosenTarget, ← hadmitted]
  simp only [pickTarget]
  split
  · rename_i hempty
    rw [List.isEmpty_iff.mp hempty, selectTarget_nil]
  · rfl

theorem pickTarget_snd :
    (pickTarget hasher upstream registry now requestKey requestCount).2
      = (availableTargets upstream.name now registry upstream.targets).2 := by
  simp only [pickTarget]
  split <;> rfl

/-- **`pick_target` moves the circuits as the questions do**, and
changes nothing else of any entry. -/
theorem pickTarget_entry (key : String) :
    (pickTarget hasher upstream registry now requestKey requestCount).2.entry key
      = { registry.entry key with
          circuitState :=
            (registry.entry key).circuitAfter registry.breakerCfg now
              (upstream.keys.count key) } := by
  obtain ⟨-, -, -, hentry⟩ :=
    availableTargets_start upstream.name now registry upstream.targets
  rw [pickTarget_snd, hentry key, TargetRuntime.asked_eq]
  rfl

theorem pickTarget_breakerCfg :
    (pickTarget hasher upstream registry now requestKey requestCount).2.breakerCfg
      = registry.breakerCfg := by
  rw [pickTarget_snd]
  exact (availableTargets_start upstream.name now registry upstream.targets).2.1

theorem pickTarget_passiveCfg :
    (pickTarget hasher upstream registry now requestKey requestCount).2.passiveCfg
      = registry.passiveCfg := by
  rw [pickTarget_snd]
  exact (availableTargets_start upstream.name now registry upstream.targets).2.2.1

end Call

end KongGateway.GatewayCore

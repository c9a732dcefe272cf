import KongGateway.GatewayCore.Proxy.UpstreamLookup

/-!
# Proxy — the arithmetic of a request

The sum of the weights is a `u32` and the modulus of the jitter a `u64`;
`validate` bounds neither. The functions here stop at the operation
that does not fit. A build without overflow checks goes on with the
wrapped sum (`pickWeightedTarget`), and stops at the modulus all the
same, since the wrapped one is zero.
-/

namespace KongGateway.GatewayCore

open RustStd

/-! ## Fault injection -/

/-- What a fault does to its request: the time it sleeps, and the status
and body it is answered with. -/
structure FaultOutcome where
  delayMs : Nat := 0
  abort : Option (UInt16 × String) := none
deriving DecidableEq, Repr

/-- `StatusCode::from_u16(status).unwrap_or(INTERNAL_SERVER_ERROR)`. -/
def abortStatusCode (status : UInt16) : UInt16 :=
  if 100 ≤ status ∧ status < 1000 then status else 500

section FaultInjection

variable (bucketHasher : String → String → Nat → Nat) (jitterHasher : String → Nat → Nat)

/-- `jitter` of `maybe_apply_fault_injection`. -/
def faultJitter (fault : FaultInjectionConfig) (clientKey : String) (requestCount : Nat) :
    Except ArithmeticFault Nat :=
  if 0 < fault.jitterMs.toNat then do
    let modulus ← checkedAdd 64 fault.jitterMs.toNat 1
    checkedRem (jitterHasher clientKey requestCount) modulus
  else .ok 0

def maybeApplyFaultInjection (fault : FaultInjectionConfig) (clientKey : String)
    (requestCount : Nat) : Except ArithmeticFault FaultOutcome :=
  if !fault.enabled then .ok {}
  else if fault.probabilityPercent.toNat
      ≤ percentageBucket bucketHasher "fault-injection" clientKey requestCount then .ok {}
  else do
    let jitter ← faultJitter jitterHasher fault clientKey requestCount
    .ok {
      delayMs := saturatingAddU64 fault.delayMs.toNat jitter
      abort := fault.abortStatus.map fun status =>
        (abortStatusCode status, fault.abortBody.getD "fault injection abort") }

/-- The request is one of those the fault is injected into. -/
def faultHits (fault : FaultInjectionConfig) (clientKey : String) (requestCount : Nat) : Bool :=
  fault.enabled
    && percentageBucket bucketHasher "fault-injection" clientKey requestCount
      < fault.probabilityPercent.toNat

end FaultInjection

variable {bucketHasher : String → String → Nat → Nat} {jitterHasher : String → Nat → Nat}
  {fault : FaultInjectionConfig} {clientKey : String} {requestCount : Nat}

/-- One more than the largest jitter is no `u64`; every other modulus is
one, and is not zero. -/
theorem faultJitter_cases (jitterHasher : String → Nat → Nat) (fault : FaultInjectionConfig)
    (clientKey : String) (requestCount : Nat) :
    (fault.jitterMs.toNat = 2 ^ 64 - 1
      ∧ faultJitter jitterHasher fault clientKey requestCount = .error .overflow)
    ∨ (fault.jitterMs.toNat ≠ 2 ^ 64 - 1
      ∧ ∃ jitter, faultJitter jitterHasher fault clientKey requestCount = .ok jitter) := by
  unfold faultJitter
  have hjitter := fault.jitterMs.toNat_lt
  by_cases hmax : fault.jitterMs.toNat = 2 ^ 64 - 1
  · left
    refine ⟨hmax, ?_⟩
    rw [if_pos (by omega), checkedAdd, if_neg (by omega)]
    rfl
  · right
    refine ⟨hmax, ?_⟩
    by_cases hpos : 0 < fault.jitterMs.toNat
    · refine ⟨jitterHasher clientKey requestCount % (fault.jitterMs.toNat + 1), ?_⟩
      have hrem : checkedRem (jitterHasher clientKey requestCount) (fault.jitterMs.toNat + 1)
          = .ok (jitterHasher clientKey requestCount % (fault.jitterMs.toNat + 1)) :=
        if_neg (Nat.succ_ne_zero _)
      rw [if_pos hpos, checkedAdd, if_pos (by omega)]
      exact hrem
    · exact ⟨0, if_neg hpos⟩

theorem maybeApplyFaultInjection_of_miss
    (h : faultHits bucketHasher fault clientKey requestCount = false) :
    maybeApplyFaultInjection bucketHasher jitterHasher fault clientKey requestCount = .ok {} := by
  simp only [faultHits, Bool.and_eq_false_iff, decide_eq_false_iff_not, Nat.not_lt] at h
  unfold maybeApplyFaultInjection
  rcases h with hdisabled | hbucket
  · simp [hdisabled]
  · simp [hbucket]

/-- An injected fault stops at the largest jitter; otherwise it answers
the request if it has a status. -/
theorem maybeApplyFaultInjection_of_hit (jitterHasher : String → Nat → Nat)
    (h : faultHits bucketHasher fault clientKey requestCount = true) :
    (fault.jitterMs.toNat = 2 ^ 64 - 1
      ∧ maybeApplyFaultInjection bucketHasher jitterHasher fault clientKey requestCount
        = .error .overflow)
    ∨ (fault.jitterMs.toNat ≠ 2 ^ 64 - 1
      ∧ ∃ outcome,
        maybeApplyFaultInjection bucketHasher jitterHasher fault clientKey requestCount
          = .ok outcome
        ∧ (outcome.abort = none ↔ fault.abortStatus = none)) := by
  simp only [faultHits, Bool.and_eq_true, decide_eq_true_eq] at h
  obtain ⟨henabled, hbucket⟩ := h
  simp only [maybeApplyFaultInjection, henabled, Bool.not_true, Bool.false_eq_true, if_false,
    if_neg (Nat.not_le_of_lt hbucket)]
  rcases faultJitter_cases jitterHasher fault clientKey requestCount with
    ⟨hmax, hjitter⟩ | ⟨hmax, jitter, hjitter⟩
  · left
    rw [hjitter]
    exact ⟨hmax, rfl⟩
  · right
    rw [hjitter]
    exact ⟨hmax, _, rfl, Option.map_eq_none_iff⟩

/-! ## Picking a target -/

/-- `pick_weighted_target`. The cursor is reduced only by weights that
do not exceed it. -/
def pickWeightedTargetChecked (targets : List UpstreamTarget) (seed : Nat) :
    Except ArithmeticFault (Option UpstreamTarget) := do
  let total ← checkedSum 32 (targets.map fun target => target.weight.toNat)
  if total = 0 then .ok none
  else do
    let cursor ← checkedRem (asU32 seed) total
    .ok (walkWeights targets cursor)

def selectTargetChecked (hasher : String → Nat) (strategy : BalancingStrategy)
    (targets : List UpstreamTarget) (requestKey : Option String) (requestCount : Nat) :
    Except ArithmeticFault (Option UpstreamTarget) :=
  match strategy with
  | .roundRobin => pickWeightedTargetChecked targets requestCount
  | .leastConnections =>
    .ok (minByKey connectionsPerWeight (targets.filter fun target => 0 < target.weight.toNat))
  | .hash =>
    match requestKey with
    | none => .ok none
    | some key => pickWeightedTargetChecked targets (hasher key)

def pickTargetChecked (hasher : String → Nat) (upstream : UpstreamConfig)
    (registry : RuntimeRegistry) (now : Instant) (requestKey : String) (requestCount : Nat) :
    Except ArithmeticFault (Option UpstreamTarget × RuntimeRegistry) :=
  let (available, registry) := availableTargets upstream.name now registry upstream.targets
  if available.isEmpty then .ok (none, registry)
  else do
    let target ← selectTargetChecked hasher upstream.strategy available (some requestKey)
      requestCount
    .ok (target, registry)

/-- A target has a weight that counts. -/
def HasWeight (targets : List UpstreamTarget) : Prop :=
  ∃ target ∈ targets, 0 < target.weight.toNat

/-- The weights fit the strategy: only least-connections never sums
them. -/
def WeightsFit (strategy : BalancingStrategy) (targets : List UpstreamTarget) : Prop :=
  strategy ≠ .leastConnections → (targets.map fun target => target.weight.toNat).sum < 2 ^ 32

instance (strategy : BalancingStrategy) (targets : List UpstreamTarget) :
    Decidable (WeightsFit strategy targets) :=
  inferInstanceAs (Decidable (strategy ≠ .leastConnections →
    (targets.map fun target => target.weight.toNat).sum < 2 ^ 32))

/-! ## Where the arithmetic ends -/

theorem pickWeightedTargetChecked_eq (targets : List UpstreamTarget) (seed : Nat) :
    pickWeightedTargetChecked targets seed
      = if (targets.map fun target => target.weight.toNat).sum < 2 ^ 32 then
          .ok (pickWeightedTarget targets seed)
        else .error .overflow := by
  rw [pickWeightedTargetChecked, checkedSum_eq]
  by_cases hsum : (targets.map fun target => target.weight.toNat).sum < 2 ^ 32
  · have htotal : totalWeight targets = (targets.map fun target => target.weight.toNat).sum :=
      wrappingSum_of_lt hsum
    rw [if_pos hsum, if_pos hsum, pickWeightedTarget, htotal]
    show (if _ then _ else _) = _
    split_ifs with hzero
    · rfl
    · rw [checkedRem, if_neg hzero]
      rfl
  · rw [if_neg hsum, if_neg hsum]
    rfl

theorem selectTargetChecked_eq (hasher : String → Nat) (strategy : BalancingStrategy)
    (targets : List UpstreamTarget) (requestKey : String) (requestCount : Nat) :
    selectTargetChecked hasher strategy targets (some requestKey) requestCount
      = if WeightsFit strategy targets then
          .ok (selectTarget hasher strategy targets (some requestKey) requestCount)
        else .error .overflow := by
  cases strategy with
  | roundRobin => simp [selectTargetChecked, selectTarget, WeightsFit, pickWeightedTargetChecked_eq]
  | leastConnections => simp [selectTargetChecked, selectTarget, WeightsFit]
  | hash => simp [selectTargetChecked, selectTarget, WeightsFit, pickWeightedTargetChecked_eq]

theorem pickTargetChecked_eq (hasher : String → Nat) (upstream : UpstreamConfig)
    (registry : RuntimeRegistry) (now : Instant) (requestKey : String) (requestCount : Nat) :
    pickTargetChecked hasher upstream registry now requestKey requestCount
      = if WeightsFit upstream.strategy
            (availableTargets upstream.name now registry upstream.targets).1 then
          .ok (pickTarget hasher upstream registry now requestKey requestCount)
        else .error .overflow := by
  rw [pickTargetChecked, pickTarget]
  obtain ⟨available, registry'⟩ := availableTargets upstream.name now registry upstream.targets
  cases available with
  | nil =>
    -- nothing is picked, and the empty sum fits
    have hfit : WeightsFit upstream.strategy [] := fun _ => by simp
    rw [if_pos hfit]
    rfl
  | cons target rest =>
    simp only [List.isEmpty_cons, Bool.false_eq_true, if_false]
    rw [selectTargetChecked_eq]
    split_ifs with hfit
    · rfl
    · rfl

/-! ## The weight of the target -/

theorem walkWeights_of_lt {targets : List UpstreamTarget} {cursor : Nat}
    (h : cursor < (targets.map fun target => target.weight.toNat).sum) :
    ∃ target, walkWeights targets cursor = some target ∧ 0 < target.weight.toNat := by
  induction targets generalizing cursor with
  | nil => simp at h
  | cons target rest ih =>
    rw [List.map_cons, List.sum_cons] at h
    simp only [walkWeights]
    split_ifs with hzero hlt
    · exact ih (by omega)
    · exact ⟨target, rfl, by omega⟩
    · exact ih (by omega)

theorem pickWeightedTarget_pos {targets : List UpstreamTarget} (hweight : HasWeight targets)
    (hsum : (targets.map fun target => target.weight.toNat).sum < 2 ^ 32) (seed : Nat) :
    ∃ target, pickWeightedTarget targets seed = some target ∧ 0 < target.weight.toNat := by
  obtain ⟨target, hmem, hpos⟩ := hweight
  have hsumPos : 0 < (targets.map fun target => target.weight.toNat).sum :=
    List.sum_pos_iff_exists_pos_nat.mpr ⟨_, List.mem_map_of_mem hmem, hpos⟩
  have htotal : totalWeight targets = (targets.map fun target => target.weight.toNat).sum :=
    wrappingSum_of_lt hsum
  have hcursor : asU32 seed % totalWeight targets
      < (targets.map fun target => target.weight.toNat).sum := by
    rw [htotal]
    exact Nat.mod_lt _ hsumPos
  simp only [pickWeightedTarget]
  rw [if_neg (by omega)]
  exact walkWeights_of_lt hcursor

theorem selectTarget_pos {strategy : BalancingStrategy} {targets : List UpstreamTarget}
    (hweight : HasWeight targets) (hfit : WeightsFit strategy targets) (hasher : String → Nat)
    (requestKey : String) (requestCount : Nat) :
    ∃ target, selectTarget hasher strategy targets (some requestKey) requestCount = some target
      ∧ 0 < target.weight.toNat := by
  cases strategy with
  | roundRobin => exact pickWeightedTarget_pos hweight (hfit (by decide)) requestCount
  | hash => exact pickWeightedTarget_pos hweight (hfit (by decide)) (hasher requestKey)
  | leastConnections =>
    obtain ⟨target, hmem, hpos⟩ := hweight
    have hne : targets.filter (fun target => decide (0 < target.weight.toNat)) ≠ [] :=
      List.ne_nil_of_mem (List.mem_filter.mpr ⟨hmem, by simpa using hpos⟩)
    have hsome : minByKey connectionsPerWeight
        (targets.filter fun target => decide (0 < target.weight.toNat)) ≠ none :=
      mt minByKey_eq_none_iff.mp hne
    obtain ⟨picked, hpicked⟩ := Option.ne_none_iff_exists'.mp hsome
    have hkept := (List.mem_filter.mp (minByKey_mem hpicked)).2
    exact ⟨picked, hpicked, by simpa using hkept⟩

theorem pickTarget_pos {upstream : UpstreamConfig} {registry : RuntimeRegistry} {now : Instant}
    (hweight : HasWeight (availableTargets upstream.name now registry upstream.targets).1)
    (hfit : WeightsFit upstream.strategy
      (availableTargets upstream.name now registry upstream.targets).1)
    (hasher : String → Nat) (requestKey : String) (requestCount : Nat) :
    ∃ target, (pickTarget hasher upstream registry now requestKey requestCount).1 = some target
      ∧ 0 < target.weight.toNat := by
  rw [pickTarget]
  rcases havailable : availableTargets upstream.name now registry upstream.targets with
    ⟨available, registry'⟩
  rw [havailable] at hweight hfit
  cases available with
  | nil =>
    obtain ⟨target, hmem, -⟩ := hweight
    cases hmem
  | cons target rest => exact selectTarget_pos hweight hfit hasher requestKey requestCount

/-! ## The arithmetic of a request -/

section Request

variable (bucketHasher : String → String → Nat → Nat) (jitterHasher : String → Nat → Nat)
  (hasher : String → Nat) (route : Route) (upstream : UpstreamConfig) (clientKey : String)
  (requestCount : Nat) (registry : RuntimeRegistry) (now : Instant) (attemptCount : Nat)

/-- The pick of an attempt comes to an end, on a target with a weight if
an available one has a weight. -/
def SafePick : Prop :=
  ∃ picked registry',
    pickTargetChecked hasher upstream registry now clientKey attemptCount = .ok (picked, registry')
    ∧ (HasWeight (availableTargets upstream.name now registry upstream.targets).1 →
      ∃ target, picked = some target ∧ 0 < target.weight.toNat)

/-- The fault injection of the request comes to an end, and so does the
pick of an attempt that is made for it. -/
def ArithmeticSafe : Prop :=
  ∃ outcome,
    maybeApplyFaultInjection bucketHasher jitterHasher route.faultInjection clientKey requestCount
      = .ok outcome
    ∧ (outcome.abort = none → SafePick hasher upstream clientKey registry now attemptCount)

/-- A fault that is injected has not the largest jitter; and, unless it
answers the request itself, the weights of the available targets fit. -/
def ArithmeticFits : Prop :=
  (faultHits bucketHasher route.faultInjection clientKey requestCount = true →
    route.faultInjection.jitterMs.toNat ≠ 2 ^ 64 - 1)
  ∧ (¬ (faultHits bucketHasher route.faultInjection clientKey requestCount = true
      ∧ route.faultInjection.abortStatus ≠ none) →
    WeightsFit upstream.strategy
      (availableTargets upstream.name now registry upstream.targets).1)

end Request

variable {hasher : String → Nat} {route : Route} {upstream : UpstreamConfig}
  {registry : RuntimeRegistry} {now : Instant} {attemptCount : Nat}

theorem safePick_iff :
    SafePick hasher upstream clientKey registry now attemptCount
      ↔ WeightsFit upstream.strategy
        (availableTargets upstream.name now registry upstream.targets).1 := by
  rw [SafePick, pickTargetChecked_eq]
  constructor
  · rintro ⟨picked, registry', hpick, -⟩
    by_contra hfit
    rw [if_neg hfit] at hpick
    cases hpick
  · intro hfit
    exact ⟨_, _, if_pos hfit, fun hweight =>
      pickTarget_pos hweight hfit hasher clientKey attemptCount⟩

theorem arithmeticSafe_iff_fits :
    ArithmeticSafe bucketHasher jitterHasher hasher route upstream clientKey requestCount registry
        now attemptCount
      ↔ ArithmeticFits bucketHasher route upstream clientKey requestCount registry now := by
  rw [ArithmeticSafe, ArithmeticFits]
  cases hhits : faultHits bucketHasher route.faultInjection clientKey requestCount with
  | false =>
    rw [maybeApplyFaultInjection_of_miss hhits]
    simp [safePick_iff]
  | true =>
    -- the pick is reached unless the fault has an answer of its own
    rcases maybeApplyFaultInjection_of_hit jitterHasher hhits with
      ⟨hmax, hfault⟩ | ⟨hmax, outcome, hfault, habort⟩
    · rw [hfault]
      simp [hmax]
    · rw [hfault]
      simp only [Except.ok.injEq, exists_eq_left', habort, safePick_iff, true_and, not_not,
        ne_eq, hmax, not_false_eq_true, forall_const]

/-- **The arithmetic of a validated configuration.** A request on a
matched route finds its upstream, and its arithmetic is safe if and only
if the jitter of an injected fault is not the largest `u64` and the
weights of the available targets, where they are summed, have a `u32`
sum. -/
theorem arithmetic_safe_iff {cfg : GatewayConfig} (hvalid : cfg.validate = .ok ())
    {path : String} {protocol : Protocol} {route : Route}
    (hroute : matchRoute cfg.routes path protocol = some route)
    (bucketHasher : String → String → Nat → Nat) (jitterHasher : String → Nat → Nat)
    (hasher : String → Nat) (headers : HeaderMap) (clientKey : String) (requestCount : Nat)
    (registry : RuntimeRegistry) (now : Instant) (attemptCount : Nat) :
    ∃ upstream,
      findUpstream cfg.upstreams
          (selectUpstreamName bucketHasher route headers clientKey requestCount) = some upstream
      ∧ (ArithmeticSafe bucketHasher jitterHasher hasher route upstream clientKey requestCount
          registry now attemptCount
        ↔ ArithmeticFits bucketHasher route upstream clientKey requestCount registry now) := by
  have hne := upstreamsNamed_ne_nil
    (hasUpstream_selected hvalid hroute bucketHasher headers clientKey requestCount)
  refine ⟨(cfg.upstreamsNamed _).head hne, ?_, arithmeticSafe_iff_fits⟩
  rw [findUpstream_eq_head?, List.head?_eq_some_head hne]

/-! ### Two configurations -/

def faultyRoute (fault : FaultInjectionConfig) : Route where
  name := "api"
  pathPrefix := "/"
  upstream := "svc"
  faultInjection := fault

/-- Two targets of one weight. -/
def evenUpstream (weight : UInt32) : UpstreamConfig where
  name := "svc"
  strategy := .roundRobin
  targets := [{ id := "a", address := "10.0.0.1:80", weight },
    { id := "b", address := "10.0.0.2:80", weight }]

def evenConfig (fault : FaultInjectionConfig) (weight : UInt32) : GatewayConfig where
  routes := [faultyRoute fault]
  upstreams := [evenUpstream weight]

def largestJitter : FaultInjectionConfig where
  enabled := true
  probabilityPercent := 100
  jitterMs := 18446744073709551615

theorem small_weights_safe :
    ArithmeticSafe (fun _ _ _ => 0) (fun _ _ => 0) (fun _ => 0) (faultyRoute {}) (evenUpstream 1)
      "api:10.0.0.9" 0 (.new {} {}) 0 0 := by
  obtain ⟨upstream, hfind, hsafe⟩ := arithmetic_safe_iff
    (show (evenConfig {} 1).validate = .ok () from rfl)
    (show matchRoute (evenConfig {} 1).routes "/users" .http1 = some (faultyRoute {}) by decide)
    (fun _ _ _ => 0) (fun _ _ => 0) (fun _ => 0) [] "api:10.0.0.9" 0 (.new {} {}) 0 0
  obtain rfl : evenUpstream 1 = upstream := Option.some.inj hfind
  refine hsafe.mpr ⟨fun hhits => ?_, fun _ => by decide⟩
  exact absurd hhits (by decide)

/-- Two weights of `2 ^ 31` and a jitter of `2 ^ 64 - 1` pass `validate`.
The sum of the weights overflows; wrapped, it is zero and no target is
picked, though both have a weight. The modulus of the jitter overflows;
wrapped, it is zero. -/
theorem extreme_values_not_safe :
    (evenConfig {} 2147483648).validate = .ok ()
      ∧ matchRoute (evenConfig {} 2147483648).routes "/users" .http1 = some (faultyRoute {})
      ∧ ¬ ArithmeticSafe (fun _ _ _ => 0) (fun _ _ => 0) (fun _ => 0) (faultyRoute {})
        (evenUpstream 2147483648) "api:10.0.0.9" 0 (.new {} {}) 0 0
      ∧ (pickTarget (fun _ => 0) (evenUpstream 2147483648) (.new {} {}) 0 "api:10.0.0.9" 0).1
        = none
      ∧ (evenConfig largestJitter 1).validate = .ok ()
      ∧ matchRoute (evenConfig largestJitter 1).routes "/users" .http1
        = some (faultyRoute largestJitter)
      ∧ ¬ ArithmeticSafe (fun _ _ _ => 0) (fun _ _ => 0) (fun _ => 0)
        (faultyRoute largestJitter) (evenUpstream 1) "api:10.0.0.9" 0 (.new {} {}) 0 0 := by
  refine ⟨rfl, by decide, ?_, by decide, rfl, by decide, ?_⟩
  · rw [arithmeticSafe_iff_fits]
    rintro ⟨-, hfit⟩
    exact absurd (hfit (by decide)) (by decide)
  · rw [arithmeticSafe_iff_fits]
    rintro ⟨hjitter, -⟩
    exact hjitter (by decide) (by decide)

end KongGateway.GatewayCore

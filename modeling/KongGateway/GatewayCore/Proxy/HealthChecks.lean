import KongGateway.GatewayCore.Proxy.Attempts

/-!
# Proxy — active health checks

The model of `spawn_active_health_checks`: one task for each upstream
probes its targets in rounds and stores the result of every probe in the
registry, while requests use the registry as well.

The two thresholds of the configuration count probes, but nothing reads
them: one probe decides the flag.
-/

namespace KongGateway.GatewayCore

open RustStd

structure ActiveHealthCheckConfig where
  enabled : Bool := false
  path : String := "/healthz"
  intervalMs : UInt64 := 5000
  timeoutMs : UInt64 := 1000
  healthyThreshold : UInt32 := 2
  unhealthyThreshold : UInt32 := 2
deriving DecidableEq, Repr

/-- `StatusCode::is_success`. -/
def StatusCode.isSuccess (status : StatusCode) : Bool :=
  200 ≤ status.asU16 && status.asU16 < 300

/-- The result of a probe, which is answered within the timeout or
fails. -/
def SendResult.healthy : SendResult → Bool
  | .response status => status.isSuccess
  | .failed => false

/-! ## The task of an upstream -/

structure HealthChecker where
  upstreamName : String
  targets : List UpstreamTarget
  active : ActiveHealthCheckConfig

/-- What a task finds at a tick: the draining flag, and what its probes
of the targets come to. -/
structure ProbeRound where
  draining : Bool := false
  answers : List SendResult

namespace HealthChecker

/-- The probes of one round, as far as they are answered. -/
def probeTargets (checker : HealthChecker) (answers : List SendResult) : List RegistryCall :=
  (checker.targets.zip answers).map fun probe =>
    .setActiveHealth (targetKey checker.upstreamName probe.1.id) probe.2.healthy

/-- The loop of the task. -/
def probeRounds (checker : HealthChecker) : List ProbeRound → List RegistryCall
  | [] => []
  | round :: rest =>
    if round.draining then []
    else checker.probeTargets round.answers ++ checker.probeRounds rest

/-- All that the task writes; it is not there when active checks are
disabled. -/
def probes (checker : HealthChecker) (rounds : List ProbeRound) : List RegistryCall :=
  if checker.active.enabled then checker.probeRounds rounds else []

end HealthChecker

/-! ## The registry under probes and requests -/

def RegistryCall.isProbe : RegistryCall → Bool
  | .setActiveHealth _ _ => true
  | _ => false

/-- The result of a probe of `key`. -/
def RegistryCall.resultOf (key : String) : RegistryCall → Option Bool
  | .setActiveHealth other healthy => if other = key then some healthy else none
  | _ => none

/-- A run of one registry: the operations of requests, in any order and
at any time, and between them the writes of the health checks. -/
structure CheckedRun where
  checker : HealthChecker
  rounds : List ProbeRound
  passiveCfg : PassiveHealthCheckConfig
  breakerCfg : CircuitBreakerConfig
  calls : List (Instant × RegistryCall)
  probes_eq : (calls.map Prod.snd).filter RegistryCall.isProbe = checker.probes rounds

namespace CheckedRun

/-- The results of the probes of `key`, in order. -/
def results (run : CheckedRun) (key : String) : List Bool :=
  (run.checker.probes run.rounds).filterMap (RegistryCall.resultOf key)

/-- `active_healthy` of `key` after some of the calls. -/
def flagAfter (run : CheckedRun) (key : String) (calls : List (Instant × RegistryCall)) : Bool :=
  ((Run.exec RuntimeRegistry.call (.new run.passiveCfg run.breakerCfg) calls).entry key).activeHealthy

end CheckedRun

/-- The results of the probes of `key` among some calls. -/
def probeResults (key : String) (calls : List (Instant × RegistryCall)) : List Bool :=
  calls.filterMap fun input => input.2.resultOf key

/-- How many of the last results in a row are `healthy`. -/
def streak (healthy : Bool) (results : List Bool) : Nat :=
  (results.reverse.takeWhile (· == healthy)).length

/-- The flag of `key` goes down only at the `unhealthy_threshold`-th
failed probe in a row, and up only at the `healthy_threshold`-th
successful one. -/
def CheckedRun.ConsecutiveEvidence (run : CheckedRun) (key : String) : Prop :=
  ∀ pre input post, run.calls = pre ++ input :: post →
    ∀ healthy, run.flagAfter key pre = !healthy → run.flagAfter key (pre ++ [input]) = healthy →
      input.2.resultOf key = some healthy
        ∧ streak healthy (probeResults key (pre ++ [input]))
          = (if healthy then run.checker.active.healthyThreshold
              else run.checker.active.unhealthyThreshold).toNat

/-! ## One probe decides the flag -/

theorem probeResults_append (key : String) (pre post : List (Instant × RegistryCall)) :
    probeResults key (pre ++ post) = probeResults key pre ++ probeResults key post :=
  List.filterMap_append

theorem probeResults_cons (key : String) (input : Instant × RegistryCall)
    (rest : List (Instant × RegistryCall)) :
    probeResults key (input :: rest) = (input.2.resultOf key).toList ++ probeResults key rest := by
  rw [probeResults, List.filterMap_cons]
  cases input.2.resultOf key <;> rfl

theorem CheckedRun.probeResults_calls (run : CheckedRun) (key : String) :
    probeResults key run.calls = run.results key := by
  rw [results, ← run.probes_eq, List.filterMap_filter, List.filterMap_map, probeResults]
  refine List.filterMap_congr fun input _ => ?_
  obtain ⟨now, op⟩ := input
  cases op <;> rfl

theorem TargetRuntime.isAvailable_activeHealthy (cfg : CircuitBreakerConfig) (now : Instant)
    (state : TargetRuntime) :
    (state.isAvailable cfg now).2.activeHealthy = state.activeHealthy := by
  unfold TargetRuntime.isAvailable
  split
  · rfl
  · split
    · rfl
    · split <;> rfl
    · split <;> rfl

section

variable {key : String} {registry : RuntimeRegistry}

theorem activeHealthy_call (registry : RuntimeRegistry) (key : String)
    (input : Instant × RegistryCall) :
    ((registry.call input).entry key).activeHealthy
      = (input.2.resultOf key).getD (registry.entry key).activeHealthy := by
  obtain ⟨now, op⟩ := input
  have hother : ∀ (other : String) (state : TargetRuntime),
      (other = key → state.activeHealthy = (registry.entry key).activeHealthy) →
      ((registry.setEntry other state).entry key).activeHealthy
        = (registry.entry key).activeHealthy := by
    intro other state hstate
    by_cases hk : other = key
    · subst hk
      rw [RuntimeRegistry.entry_setEntry_self, hstate rfl]
    · rw [RuntimeRegistry.entry_setEntry_ne _ _ (Ne.symm hk)]
  cases op with
  | setActiveHealth other healthy =>
    by_cases hk : other = key
    · subst hk
      simp [RuntimeRegistry.call, RuntimeRegistry.setActiveHealth, RegistryCall.resultOf,
        TargetRuntime.setActiveHealth]
    · rw [RegistryCall.resultOf, if_neg hk]
      exact hother other _ fun heq => absurd heq hk
  | isAvailable other =>
    refine hother other _ ?_
    rintro rfl
    exact TargetRuntime.isAvailable_activeHealthy _ now _
  | recordSuccess other => exact hother other _ (by rintro rfl; rfl)
  | recordFailure other => exact hother other _ (by rintro rfl; rfl)

theorem activeHealthy_exec (registry : RuntimeRegistry) (key : String)
    (calls : List (Instant × RegistryCall)) :
    ((Run.exec RuntimeRegistry.call registry calls).entry key).activeHealthy
      = (probeResults key calls).getLast?.getD (registry.entry key).activeHealthy := by
  induction calls generalizing registry with
  | nil => rfl
  | cons input rest ih =>
    rw [Run.exec_cons, ih, activeHealthy_call, probeResults_cons]
    cases input.2.resultOf key with
    | none => rfl
    | some healthy =>
      rw [Option.getD_some, Option.toList_some, List.singleton_append, List.getLast?_cons,
        Option.getD_some]

theorem streak_append (healthy : Bool) {results : List Bool}
    (hlast : results.getLast? ≠ some healthy) : streak healthy (results ++ [healthy]) = 1 := by
  rw [streak, List.reverse_append, List.reverse_singleton, List.singleton_append,
    List.takeWhile_cons_of_pos (by simp)]
  cases hreverse : results.reverse with
  | nil => rfl
  | cons head rest =>
    have hhead : results.getLast? = some head := by
      rw [List.getLast?_eq_head?_reverse, hreverse, List.head?_cons]
    have hne : (head == healthy) = false := by
      rw [beq_eq_false_iff_ne]
      rintro rfl
      exact hlast hhead
    rw [List.takeWhile_cons_of_neg (by simp [hne])]
    rfl

theorem exists_turn {healthy : Bool} {calls : List (Instant × RegistryCall)}
    (hflag : (registry.entry key).activeHealthy = !healthy)
    (hmem : healthy ∈ probeResults key calls) :
    ∃ pre input post, calls = pre ++ input :: post
      ∧ ((Run.exec RuntimeRegistry.call registry pre).entry key).activeHealthy = !healthy
      ∧ input.2.resultOf key = some healthy := by
  induction calls generalizing registry with
  | nil => cases hmem
  | cons input rest ih =>
    by_cases hinput : input.2.resultOf key = some healthy
    · exact ⟨[], input, rest, rfl, hflag, hinput⟩
    · have hrest : healthy ∈ probeResults key rest := by
        rw [probeResults_cons] at hmem
        rcases List.mem_append.mp hmem with hhead | hmem
        · exact absurd (Option.mem_toList.mp hhead) hinput
        · exact hmem
      have hnext : ((registry.call input).entry key).activeHealthy = !healthy := by
        rw [activeHealthy_call]
        cases hresult : input.2.resultOf key with
        | none => exact hflag
        | some other =>
          rw [hresult, Option.some.injEq] at hinput
          cases other <;> cases healthy <;> simp_all
      obtain ⟨pre, turn, post, rfl, hpre, hturn⟩ := ih hnext hrest
      exact ⟨input :: pre, turn, post, rfl, hpre, hturn⟩

end

/-! ## When the thresholds are kept -/

namespace CheckedRun

variable {run : CheckedRun} {key : String}

theorem flagAfter_eq (run : CheckedRun) (key : String) (calls : List (Instant × RegistryCall)) :
    run.flagAfter key calls = (probeResults key calls).getLast?.getD true :=
  activeHealthy_exec _ key calls

theorem turn_spec {pre : List (Instant × RegistryCall)} {input : Instant × RegistryCall}
    {healthy : Bool} (hpre : run.flagAfter key pre = !healthy)
    (hpost : run.flagAfter key (pre ++ [input]) = healthy) :
    input.2.resultOf key = some healthy
      ∧ streak healthy (probeResults key (pre ++ [input])) = 1 := by
  rw [flagAfter_eq] at hpre hpost
  have hsingle : probeResults key [input] = (input.2.resultOf key).toList := by
    rw [probeResults_cons]
    exact List.append_nil _
  rw [probeResults_append, hsingle] at hpost ⊢
  cases hresult : input.2.resultOf key with
  | none =>
    rw [hresult, Option.toList_none, List.append_nil, hpre] at hpost
    cases healthy <;> cases hpost
  | some other =>
    rw [hresult, Option.toList_some, List.getLast?_concat, Option.getD_some] at hpost
    subst hpost
    refine ⟨rfl, ?_⟩
    rw [Option.toList_some]
    refine streak_append other fun hlast => ?_
    rw [hlast, Option.getD_some] at hpre
    cases other <;> cases hpre

theorem turn_of_result {pre : List (Instant × RegistryCall)} {input : Instant × RegistryCall}
    {healthy : Bool} (hinput : input.2.resultOf key = some healthy) :
    run.flagAfter key (pre ++ [input]) = healthy := by
  unfold flagAfter
  rw [Run.exec_append, Run.exec_cons, Run.exec_nil, activeHealthy_call, hinput]
  rfl

end CheckedRun

/-- **Active health, exactly.** In every run of a registry the flag of a
target turns only at the probe that its threshold asks for if and only
if no probe fails or `unhealthy_threshold` is one, and no probe succeeds
after one that has failed or `healthy_threshold` is one. -/
theorem active_health_consecutive_iff (run : CheckedRun) (key : String) :
    run.ConsecutiveEvidence key
      ↔ (false ∉ run.results key ∨ run.checker.active.unhealthyThreshold = 1)
        ∧ (¬ [false, true].Sublist (run.results key)
          ∨ run.checker.active.healthyThreshold = 1) := by
  constructor
  · intro h
    -- a turn of the flag has a streak of one, which is what the threshold asks for
    have hone : ∀ pre input post, run.calls = pre ++ input :: post → ∀ healthy,
        run.flagAfter key pre = !healthy → input.2.resultOf key = some healthy →
        (if healthy then run.checker.active.healthyThreshold
          else run.checker.active.unhealthyThreshold) = 1 := by
      intro pre input post hsplit healthy hpre hinput
      have hpost : run.flagAfter key (pre ++ [input]) = healthy := CheckedRun.turn_of_result hinput
      have hthreshold := (h pre input post hsplit healthy hpre hpost).2
      rw [(CheckedRun.turn_spec hpre hpost).2] at hthreshold
      exact UInt32.toNat_inj.mp hthreshold.symm
    rw [← run.probeResults_calls]
    constructor
    · by_cases hfail : false ∈ probeResults key run.calls
      · have hstart : run.flagAfter key [] = !false := rfl
        obtain ⟨pre, input, post, hsplit, hpre, hinput⟩ := exists_turn hstart hfail
        exact .inr (hone pre input post hsplit false hpre hinput)
      · exact .inl hfail
    · by_cases hsub : [false, true].Sublist (probeResults key run.calls)
      · obtain ⟨before, after, heq, hfail, hsucceed⟩ := List.cons_sublist_iff.mp hsub
        obtain ⟨first, second, rfl⟩ := List.append_of_mem hfail
        rw [List.append_cons first false second, List.append_assoc] at heq
        obtain ⟨calls, rest, hcalls, hdown, hrest⟩ := List.filterMap_eq_append_iff.mp heq
        have hflag : run.flagAfter key calls = !true := by
          rw [CheckedRun.flagAfter_eq, probeResults, hdown, List.getLast?_concat]
          rfl
        have hmem : true ∈ probeResults key rest := by
          rw [probeResults, hrest]
          exact List.mem_append_right second (List.singleton_sublist.mp hsucceed)
        obtain ⟨pre, input, post, rfl, hpre, hinput⟩ := exists_turn hflag hmem
        refine .inr (hone (calls ++ pre) input post ?_ true ?_ hinput)
        · rw [hcalls, List.append_assoc]
        · rw [CheckedRun.flagAfter, Run.exec_append]
          exact hpre
      · exact .inl hsub
  · rintro ⟨hdown, hup⟩ pre input post hsplit healthy hpre hpost
    obtain ⟨hinput, hstreak⟩ := CheckedRun.turn_spec hpre hpost
    refine ⟨hinput, hstreak.trans ?_⟩
    have hresults : run.results key
        = probeResults key pre ++ healthy :: probeResults key post := by
      rw [← run.probeResults_calls, hsplit, probeResults_append, probeResults_cons, hinput]
      rfl
    cases healthy with
    | false =>
      have hmem : false ∈ run.results key := by
        rw [hresults]
        exact List.mem_append_right _ List.mem_cons_self
      rw [if_neg Bool.false_ne_true, hdown.resolve_left (not_not.mpr hmem)]
      rfl
    | true =>
      have hlast : false ∈ probeResults key pre := by
        rw [CheckedRun.flagAfter_eq] at hpre
        cases hget : (probeResults key pre).getLast? with
        | none =>
          rw [hget] at hpre
          cases hpre
        | some last =>
          rw [hget] at hpre
          obtain rfl : last = false := hpre
          exact List.mem_of_getLast? hget
      have hsub : [false, true].Sublist (run.results key) := by
        rw [hresults]
        exact (List.singleton_sublist.mpr hlast).append
          (List.singleton_sublist.mpr List.mem_cons_self)
      rw [if_pos rfl, hup.resolve_left (not_not.mpr hsub)]
      rfl

/-! ### One failed probe -/

/-- A task for one target with the default thresholds, whose only probe
fails. -/
def oneFailedProbe : CheckedRun where
  checker := {
    upstreamName := "svc"
    targets := [{ id := "a", address := "10.0.0.1:8080" }]
    active := { enabled := true } }
  rounds := [{ answers := [.failed] }]
  passiveCfg := {}
  breakerCfg := {}
  calls := [(0, .setActiveHealth "svc:a" false)]
  probes_eq := by decide

/-- One failed probe takes the target out, where two in a row are asked
for. -/
theorem down_at_first_failure :
    oneFailedProbe.checker.active.unhealthyThreshold = 2
      ∧ oneFailedProbe.flagAfter "svc:a" [] = true
      ∧ oneFailedProbe.flagAfter "svc:a" oneFailedProbe.calls = false
      ∧ ¬ oneFailedProbe.ConsecutiveEvidence "svc:a" := by
  refine ⟨rfl, rfl, by decide, fun h => ?_⟩
  have hthreshold := (h [] _ [] rfl false rfl (by decide)).2
  revert hthreshold
  decide

end KongGateway.GatewayCore

import KongGateway.GatewayCore.Proxy
import KongGateway.Lib.Wheel

/-!
# Proxy — weighted round robin over a shared counter

`pick_weighted_target` lays the targets out as a wheel and lets the
request counter point at a place. There is one counter for the whole
gateway: every attempt to every upstream advances it. An upstream
therefore sees a subsequence of the readings, and its rotation is exact
over a window of picks whose readings make a full turn. In a gateway
with a second upstream nothing makes them do so.
-/

namespace KongGateway.GatewayCore

open RustStd Wheel

/-! ## The balancer as a wheel -/

def UpstreamTarget.places (target : UpstreamTarget) : Nat := target.weight.toNat

/-- The sum of the weights, not wrapped. -/
def UpstreamConfig.weightSum (upstream : UpstreamConfig) : Nat :=
  (upstream.targets.map UpstreamTarget.places).sum

theorem length_wheel_targets (upstream : UpstreamConfig) :
    (wheel UpstreamTarget.places upstream.targets).length = upstream.weightSum :=
  length_wheel _

theorem walkWeights_eq (targets : List UpstreamTarget) (cursor : Nat) :
    walkWeights targets cursor = (wheel UpstreamTarget.places targets)[cursor]? := by
  induction targets generalizing cursor with
  | nil => simp [walkWeights]
  | cons target rest ih =>
    rw [wheel_cons]
    simp only [walkWeights]
    split
    · -- a zero weight is skipped, and takes no place on the wheel
      rename_i hzero
      have hnone : List.replicate target.places target = [] := by
        rw [UpstreamTarget.places, hzero, List.replicate_zero]
      rw [hnone, List.nil_append, ih]
    · split
      · rename_i hlt
        rw [List.getElem?_append_left (by simpa [UpstreamTarget.places] using hlt)]
        simp [UpstreamTarget.places, hlt]
      · rename_i hge
        rw [List.getElem?_append_right
            (by simpa [UpstreamTarget.places] using Nat.not_lt.mp hge), ih]
        simp [UpstreamTarget.places]

theorem pickWeightedTarget_eq {targets : List UpstreamTarget} {seed : Nat}
    (hsum : (targets.map UpstreamTarget.places).sum < 2 ^ 32) (hseed : seed < 2 ^ 32) :
    pickWeightedTarget targets seed = spin UpstreamTarget.places targets seed := by
  have htotal : totalWeight targets = (wheel UpstreamTarget.places targets).length := by
    rw [length_wheel]
    exact wrappingSum_of_lt hsum
  have hcast : asU32 seed = seed := Nat.mod_eq_of_lt hseed
  simp only [pickWeightedTarget, htotal, hcast]
  split
  · rename_i hempty
    rw [spin, List.eq_nil_of_length_eq_zero hempty]
    rfl
  · rw [walkWeights_eq, spin]

/-! ## Attempts and picks -/

/-- One attempt as it reaches the balancer: the upstream selected by
name, the registry of that upstream and the clock at the pick, and the
client key. -/
structure Attempt where
  upstreamName : String
  registry : RuntimeRegistry
  now : Instant
  requestKey : String

structure Pick where
  upstream : UpstreamConfig
  requestCount : Nat
  target : Option UpstreamTarget

/-- The picks of a list of attempts in the order of their `fetch_add`,
from a counter value on. An unknown upstream is answered before the
counter is touched. -/
def picks (hasher : String → Nat) (upstreams : List UpstreamConfig) :
    Nat → List Attempt → List Pick
  | _, [] => []
  | counter, attempt :: rest =>
    match findUpstream upstreams attempt.upstreamName with
    | none => picks hasher upstreams counter rest
    | some upstream =>
      { upstream
        requestCount := counter
        target := (pickTarget hasher upstream attempt.registry attempt.now
          attempt.requestKey counter).1 }
      :: picks hasher upstreams (counter + 1) rest

/-- The picks made for one upstream. -/
def picksFor (hasher : String → Nat) (upstreams : List UpstreamConfig) (counter : Nat)
    (attempts : List Attempt) (upstream : UpstreamConfig) : List Pick :=
  (picks hasher upstreams counter attempts).filter fun pick => pick.upstream = upstream

/-- Every attempt finds all targets of its upstream available. -/
def AllAvailable (upstreams : List UpstreamConfig) (attempts : List Attempt) : Prop :=
  ∀ attempt ∈ attempts, ∀ upstream,
    findUpstream upstreams attempt.upstreamName = some upstream →
    (availableTargets upstream.name attempt.now attempt.registry upstream.targets).1
      = upstream.targets

/-- Each target is picked as often as its weight says; a target that is
listed several times, as often as all its listings say. -/
def FairWindow (upstream : UpstreamConfig) (window : List Pick) : Prop :=
  ∀ target ∈ upstream.targets,
    (window.map Pick.target).count (some target)
      = upstream.targets.count target * target.weight.toNat

section Picks

variable {hasher : String → Nat} {upstreams : List UpstreamConfig} {counter : Nat}
  {attempts : List Attempt}

theorem picks_length_le :
    (picks hasher upstreams counter attempts).length ≤ attempts.length := by
  induction attempts generalizing counter with
  | nil => exact Nat.le_refl _
  | cons attempt rest ih =>
    simp only [picks]
    split
    · exact Nat.le_succ_of_le ih
    · simpa using ih

theorem map_requestCount_picks :
    (picks hasher upstreams counter attempts).map Pick.requestCount
      = List.range' counter (picks hasher upstreams counter attempts).length := by
  induction attempts generalizing counter with
  | nil => rfl
  | cons attempt rest ih =>
    simp only [picks]
    split
    · exact ih
    · simp [List.range'_succ, ih]

theorem requestCount_lt {pick : Pick} (h : pick ∈ picks hasher upstreams counter attempts) :
    pick.requestCount < counter + attempts.length := by
  have hmem : pick.requestCount
      ∈ (picks hasher upstreams counter attempts).map Pick.requestCount :=
    List.mem_map_of_mem h
  rw [map_requestCount_picks, List.mem_range'_1] at hmem
  have hlen : (picks hasher upstreams counter attempts).length ≤ attempts.length :=
    picks_length_le
  omega

/-- A pick is a call of `pick_target` for some attempt. -/
theorem mem_picks {pick : Pick} (h : pick ∈ picks hasher upstreams counter attempts) :
    ∃ attempt ∈ attempts, findUpstream upstreams attempt.upstreamName = some pick.upstream
      ∧ pick.target = (pickTarget hasher pick.upstream attempt.registry attempt.now
          attempt.requestKey pick.requestCount).1 := by
  induction attempts generalizing counter with
  | nil => cases h
  | cons attempt rest ih =>
    simp only [picks] at h
    split at h
    · obtain ⟨found, hfound, hpick⟩ := ih h
      exact ⟨found, List.mem_cons_of_mem _ hfound, hpick⟩
    · rename_i upstream hfind
      rcases List.mem_cons.mp h with rfl | hrest
      · exact ⟨attempt, List.mem_cons_self, hfind, rfl⟩
      · obtain ⟨found, hfound, hpick⟩ := ih hrest
        exact ⟨found, List.mem_cons_of_mem _ hfound, hpick⟩

/-- **What a pick is**, when all targets are available: the wheel read
at the counter. -/
theorem pick_target_eq_spin {pick : Pick}
    (h : pick ∈ picks hasher upstreams counter attempts)
    (havail : AllAvailable upstreams attempts) (hbound : counter + attempts.length ≤ 2 ^ 32)
    (hrobin : pick.upstream.strategy = .roundRobin)
    (hsum : pick.upstream.weightSum < 2 ^ 32) :
    pick.target = spin UpstreamTarget.places pick.upstream.targets pick.requestCount := by
  obtain ⟨attempt, hattempt, hfind, htarget⟩ := mem_picks h
  have hall := havail attempt hattempt pick.upstream hfind
  have hlt : pick.requestCount < 2 ^ 32 := Nat.lt_of_lt_of_le (requestCount_lt h) hbound
  rw [htarget]
  simp only [pickTarget, hall, hrobin, selectTarget]
  split
  · rename_i hempty
    rw [List.isEmpty_iff.mp hempty]
    rfl
  · exact pickWeightedTarget_eq hsum hlt

theorem map_target_window {upstream : UpstreamConfig} {window : List Pick}
    (havail : AllAvailable upstreams attempts) (hbound : counter + attempts.length ≤ 2 ^ 32)
    (hrobin : upstream.strategy = .roundRobin) (hsum : upstream.weightSum < 2 ^ 32)
    (hwindow : window <:+: picksFor hasher upstreams counter attempts upstream) :
    window.map Pick.target
      = (window.map Pick.requestCount).map (spin UpstreamTarget.places upstream.targets) := by
  rw [List.map_map]
  apply List.map_congr_left
  intro pick hpick
  obtain ⟨hmem, hup⟩ := List.mem_filter.mp (hwindow.subset hpick)
  have hup' : pick.upstream = upstream := of_decide_eq_true hup
  subst hup'
  exact pick_target_eq_spin hmem havail hbound hrobin hsum

/-- **A full turn is fair.** -/
theorem fairWindow_of_nodup {upstream : UpstreamConfig} {window : List Pick}
    (havail : AllAvailable upstreams attempts) (hbound : counter + attempts.length ≤ 2 ^ 32)
    (hrobin : upstream.strategy = .roundRobin) (hsum : upstream.weightSum < 2 ^ 32)
    (hwindow : window <:+: picksFor hasher upstreams counter attempts upstream)
    (hlen : window.length = upstream.weightSum)
    (hturn : (window.map fun pick => pick.requestCount % upstream.weightSum).Nodup) :
    FairWindow upstream window := by
  intro target _
  rw [map_target_window havail hbound hrobin hsum hwindow]
  refine count_spin_of_nodup ?_ ?_ target
  · rw [List.length_map, hlen, length_wheel_targets]
  · rw [length_wheel_targets, List.map_map]
    exact hturn

end Picks

/-! ## Which gateways are fair -/

/-- The upstream is the one its name selects; of several upstreams of
one name only the first is. -/
def Selectable (upstreams : List UpstreamConfig) (upstream : UpstreamConfig) : Prop :=
  findUpstream upstreams upstream.name = some upstream

/-- Every window of picks for a round-robin upstream is fair, whatever
the other upstreams are sent in between. -/
def FairGateway (hasher : String → Nat) (upstreams : List UpstreamConfig) : Prop :=
  ∀ (counter : Nat) (attempts : List Attempt), AllAvailable upstreams attempts →
    counter + attempts.length ≤ 2 ^ 32 →
    ∀ upstream, Selectable upstreams upstream → upstream.strategy = .roundRobin →
      upstream.weightSum < 2 ^ 32 →
      ∀ window, window <:+: picksFor hasher upstreams counter attempts upstream →
        window.length = upstream.weightSum → FairWindow upstream window

/-- All targets of positive weight are one and the same. -/
def UpstreamConfig.OneTarget (upstream : UpstreamConfig) : Prop :=
  ∀ target ∈ upstream.targets, ∀ other ∈ upstream.targets,
    0 < target.weight.toNat → 0 < other.weight.toNat → target = other

theorem findUpstream_selectable {upstreams : List UpstreamConfig} {name : String}
    {upstream : UpstreamConfig} (h : findUpstream upstreams name = some upstream) :
    Selectable upstreams upstream := by
  have hname : upstream.name = name := by simpa using List.find?_some h
  rw [Selectable, hname, h]

section Fair

variable {hasher : String → Nat} {upstreams : List UpstreamConfig} {counter : Nat}
  {attempts : List Attempt} {upstream : UpstreamConfig} {window : List Pick}

private theorem infix_range' {l : List Nat} {start n : Nat} (h : l <:+: List.range' start n) :
    ∃ s, l = List.range' s l.length := by
  obtain ⟨pre, post, heq⟩ := h
  obtain ⟨k, -, hleft, -⟩ := List.range'_eq_append_iff.mp heq.symm
  obtain ⟨m, -, -, hl⟩ := List.range'_eq_append_iff.mp hleft.symm
  have hlen : l.length = k - m := by rw [hl, List.length_range']
  exact ⟨_, by rw [hlen]; exact hl⟩

theorem fairWindow_of_lone (havail : AllAvailable upstreams attempts)
    (hbound : counter + attempts.length ≤ 2 ^ 32)
    (hlone : ∀ other, Selectable upstreams other → other = upstream)
    (hrobin : upstream.strategy = .roundRobin) (hsum : upstream.weightSum < 2 ^ 32)
    (hwindow : window <:+: picksFor hasher upstreams counter attempts upstream)
    (hlen : window.length = upstream.weightSum) : FairWindow upstream window := by
  refine fairWindow_of_nodup havail hbound hrobin hsum hwindow hlen ?_
  have hall : picksFor hasher upstreams counter attempts upstream
      = picks hasher upstreams counter attempts := by
    refine List.filter_eq_self.mpr fun pick hpick => ?_
    obtain ⟨attempt, -, hfind, -⟩ := mem_picks hpick
    exact decide_eq_true (hlone pick.upstream (findUpstream_selectable hfind))
  -- consecutive readings have pairwise different residues
  rw [hall] at hwindow
  have hreadings := hwindow.map Pick.requestCount
  rw [map_requestCount_picks] at hreadings
  obtain ⟨start, hstart⟩ := infix_range' hreadings
  rw [List.length_map, hlen] at hstart
  have hmod : window.map (fun pick => pick.requestCount % upstream.weightSum)
      = (List.range' start upstream.weightSum).map (· % upstream.weightSum) := by
    rw [← hstart, List.map_map]
    rfl
  rw [hmod]
  exact nodup_range'_mod start upstream.weightSum

theorem fairWindow_of_oneTarget (havail : AllAvailable upstreams attempts)
    (hbound : counter + attempts.length ≤ 2 ^ 32) (hone : upstream.OneTarget)
    (hrobin : upstream.strategy = .roundRobin) (hsum : upstream.weightSum < 2 ^ 32)
    (hwindow : window <:+: picksFor hasher upstreams counter attempts upstream)
    (hlen : window.length = upstream.weightSum) : FairWindow upstream window := by
  -- every pick is some target of positive weight
  have hpicked : ∀ picked ∈ window.map Pick.target,
      ∃ target ∈ wheel UpstreamTarget.places upstream.targets, picked = some target := by
    intro picked hmem
    have hpos : 0 < (wheel UpstreamTarget.places upstream.targets).length := by
      rw [length_wheel_targets, ← hlen, ← List.length_map (f := Pick.target)]
      exact List.length_pos_of_mem hmem
    rw [map_target_window havail hbound hrobin hsum hwindow] at hmem
    obtain ⟨reading, -, rfl⟩ := List.mem_map.mp hmem
    rw [spin, List.getElem?_eq_getElem (Nat.mod_lt _ hpos)]
    exact ⟨_, List.getElem_mem _, rfl⟩
  intro target htarget
  rcases Nat.eq_zero_or_pos target.weight.toNat with hzero | hpos
  · -- a target of weight zero is never picked
    rw [hzero, Nat.mul_zero, List.count_eq_zero]
    intro hmem
    obtain ⟨other, hother, heq⟩ := hpicked _ hmem
    cases heq
    have := (mem_wheel.mp hother).2
    rw [UpstreamTarget.places, hzero] at this
    exact Nat.lt_irrefl 0 this
  · -- and the one of positive weight always is
    have hsame : ∀ other ∈ wheel UpstreamTarget.places upstream.targets, target = other := by
      intro other hother
      obtain ⟨hin, hw⟩ := mem_wheel.mp hother
      exact hone target htarget other hin hpos hw
    have hfull : (window.map Pick.target).count (some target) = window.length := by
      rw [← List.length_map (f := Pick.target), List.count_eq_length]
      intro picked hmem
      obtain ⟨other, hother, rfl⟩ := hpicked _ hmem
      rw [hsame other hother]
    have hwheel : (wheel UpstreamTarget.places upstream.targets).count target
        = (wheel UpstreamTarget.places upstream.targets).length :=
      List.count_eq_length.mpr hsame
    rw [hfull, hlen, ← length_wheel_targets, ← hwheel, count_wheel]
    rfl

end Fair

/-! ### One request to another upstream -/

/-- An attempt that finds a registry no request has touched. -/
def freshAttempt (name : String) : Attempt where
  upstreamName := name
  registry := .new {} {}
  now := 0
  requestKey := "client"

theorem availableTargets_fresh (upstreamName : String) (now : Instant)
    (targets : List UpstreamTarget) {registry : RuntimeRegistry}
    (hfresh : ∀ key, registry.entry key = {}) :
    (availableTargets upstreamName now registry targets).1 = targets := by
  induction targets generalizing registry with
  | nil => rfl
  | cons target rest ih =>
    have hask : registry.isAvailable now (targetKey upstreamName target.id)
        = (true, registry.setEntry (targetKey upstreamName target.id) {}) := by
      simp [RuntimeRegistry.isAvailable, hfresh, TargetRuntime.isAvailable]
    have hnext : ∀ key,
        (registry.setEntry (targetKey upstreamName target.id) {}).entry key = {} := by
      intro key
      by_cases hk : key = targetKey upstreamName target.id
      · subst hk
        rw [RuntimeRegistry.entry_setEntry_self]
      · rw [RuntimeRegistry.entry_setEntry_ne _ _ hk, hfresh]
    simp only [availableTargets, hask, if_true, ih hnext]

theorem allAvailable_of_fresh {upstreams : List UpstreamConfig} {attempts : List Attempt}
    (hfresh : ∀ attempt ∈ attempts, attempt.registry = .new {} {}) :
    AllAvailable upstreams attempts := by
  intro attempt hmem upstream _
  rw [hfresh attempt hmem]
  exact availableTargets_fresh _ _ _ fun _ => rfl

section Skip

variable {hasher : String → Nat} {upstreams : List UpstreamConfig}
  {upstream other : UpstreamConfig}

theorem picks_append (counter : Nat) (pre post : List Attempt) :
    picks hasher upstreams counter (pre ++ post)
      = picks hasher upstreams counter pre
        ++ picks hasher upstreams
            (counter + (picks hasher upstreams counter pre).length) post := by
  induction pre generalizing counter with
  | nil => simp [picks]
  | cons attempt rest ih =>
    simp only [List.cons_append, picks]
    split
    · exact ih counter
    · rw [ih, List.cons_append, List.length_cons]
      congr 3
      omega

theorem picks_fresh (h : Selectable upstreams upstream) (n counter : Nat) :
    picks hasher upstreams counter (List.replicate n (freshAttempt upstream.name))
      = (List.range' counter n).map fun requestCount =>
          { upstream
            requestCount
            target := (pickTarget hasher upstream (.new {} {}) 0 "client" requestCount).1 } := by
  induction n generalizing counter with
  | zero => rfl
  | succ n ih =>
    have hfind : findUpstream upstreams (freshAttempt upstream.name).upstreamName
        = some upstream := h
    simp only [List.replicate_succ, picks, hfind, ih, List.range'_succ, List.map_cons]
    rfl

/-- `x` attempts to the upstream, one to another, and then as many as
make up one turn. -/
def skippingAttempts (upstream other : UpstreamConfig) (x : Nat) : List Attempt :=
  List.replicate x (freshAttempt upstream.name)
    ++ freshAttempt other.name
    :: List.replicate (upstream.weightSum - x) (freshAttempt upstream.name)

theorem skippingAttempts_available (x : Nat) :
    AllAvailable upstreams (skippingAttempts upstream other x) := by
  refine allAvailable_of_fresh fun attempt hmem => ?_
  simp only [skippingAttempts, List.mem_append, List.mem_cons, List.mem_replicate] at hmem
  rcases hmem with ⟨-, rfl⟩ | rfl | ⟨-, rfl⟩
  · rfl
  · rfl
  · rfl

theorem readings_skippingAttempts (hasher : String → Nat) (h : Selectable upstreams upstream)
    (hother : Selectable upstreams other) (hne : other ≠ upstream) (x : Nat) :
    (picksFor hasher upstreams 0 (skippingAttempts upstream other x) upstream).map
        Pick.requestCount
      = List.range x ++ List.range' (x + 1) (upstream.weightSum - x) := by
  have hfind : findUpstream upstreams (freshAttempt other.name).upstreamName = some other :=
    hother
  simp only [picksFor, skippingAttempts, picks_append, picks_fresh h, picks, hfind,
    List.length_map, List.length_range', Nat.zero_add, List.filter_append,
    List.filter_cons, hne, decide_false, Bool.false_eq_true, if_false, List.filter_map,
    List.map_append, List.map_map, Function.comp_def, decide_true, List.filter_true,
    List.map_id_fun', id_eq, List.range_eq_range']

/-- **One request in between is enough**: a window that skips the
reading of some target has one pick of it too few, unless that target
also stands at the first place of the wheel. -/
theorem spin_zero_of_fairGateway (hfair : FairGateway hasher upstreams)
    (h : Selectable upstreams upstream) (hrobin : upstream.strategy = .roundRobin)
    (hsum : upstream.weightSum < 2 ^ 32) (hother : Selectable upstreams other)
    (hne : other ≠ upstream) {target : UpstreamTarget} (htarget : target ∈ upstream.targets)
    (hpos : 0 < target.weight.toNat) :
    spin UpstreamTarget.places upstream.targets 0 = some target := by
  by_contra hdiff
  obtain ⟨x, hx, hat⟩ := List.mem_iff_getElem.mp
    (mem_wheel.mpr ⟨htarget, hpos⟩ : target ∈ wheel UpstreamTarget.places upstream.targets)
  have hspin : spin UpstreamTarget.places upstream.targets x = some target := by
    rw [spin, Nat.mod_eq_of_lt hx, List.getElem?_eq_getElem hx, hat]
  -- give the reading `x` to the other upstream: the window reads the first place twice instead
  have hmiss := count_spin_skip_lt hx hspin hdiff
  have hlenx : x < upstream.weightSum := by rwa [length_wheel_targets] at hx
  have hattempts : 0 + (skippingAttempts upstream other x).length ≤ 2 ^ 32 := by
    simp only [skippingAttempts, List.length_append, List.length_replicate, List.length_cons]
    omega
  have hreadings := readings_skippingAttempts hasher h hother hne x
  have hlen : (picksFor hasher upstreams 0 (skippingAttempts upstream other x)
      upstream).length = upstream.weightSum := by
    rw [← List.length_map (f := Pick.requestCount), hreadings]
    simp only [List.length_append, List.length_range, List.length_range']
    omega
  have hcount := hfair 0 _ (skippingAttempts_available x) hattempts upstream h hrobin hsum
    _ List.infix_rfl hlen target htarget
  rw [map_target_window (skippingAttempts_available x) hattempts hrobin hsum List.infix_rfl,
    hreadings, ← length_wheel_targets] at hcount
  exact Nat.ne_of_lt hmiss hcount

theorem oneTarget_of_fairGateway (hfair : FairGateway hasher upstreams)
    (h : Selectable upstreams upstream) (hrobin : upstream.strategy = .roundRobin)
    (hsum : upstream.weightSum < 2 ^ 32) (hother : Selectable upstreams other)
    (hne : other ≠ upstream) : upstream.OneTarget := by
  intro target htarget peer hpeer hpos hpeerPos
  have hfirst := spin_zero_of_fairGateway hfair h hrobin hsum hother hne htarget hpos
  have hpeerFirst := spin_zero_of_fairGateway hfair h hrobin hsum hother hne hpeer hpeerPos
  exact Option.some.inj (hfirst.symm.trans hpeerFirst)

end Skip

/-- **Weighted round robin, exactly.** A window of picks for an upstream
whose counter readings have pairwise different residues modulo the sum
of its weights picks each target as often as its weight says, in every
run. All windows of all runs are fair if and only if every round-robin
upstream is the only upstream or has one target. -/
theorem round_robin_fair_iff (hasher : String → Nat) (upstreams : List UpstreamConfig) :
    (∀ (counter : Nat) (attempts : List Attempt), AllAvailable upstreams attempts →
      counter + attempts.length ≤ 2 ^ 32 →
      ∀ upstream : UpstreamConfig, upstream.strategy = .roundRobin →
        upstream.weightSum < 2 ^ 32 →
        ∀ window, window <:+: picksFor hasher upstreams counter attempts upstream →
          window.length = upstream.weightSum →
          (window.map fun pick => pick.requestCount % upstream.weightSum).Nodup →
          FairWindow upstream window)
    ∧ (FairGateway hasher upstreams
      ↔ ∀ upstream : UpstreamConfig, Selectable upstreams upstream →
          upstream.strategy = .roundRobin → upstream.weightSum < 2 ^ 32 →
          (∀ other, Selectable upstreams other → other = upstream) ∨ upstream.OneTarget) := by
  refine ⟨?_, ?_, ?_⟩
  · intro counter attempts havail hbound upstream hrobin hsum window hwindow hlen hturn
    exact fairWindow_of_nodup havail hbound hrobin hsum hwindow hlen hturn
  · intro hfair upstream h hrobin hsum
    by_cases hlone : ∀ other, Selectable upstreams other → other = upstream
    · exact .inl hlone
    · push Not at hlone
      obtain ⟨other, hother, hne⟩ := hlone
      exact .inr (oneTarget_of_fairGateway hfair h hrobin hsum hother hne)
  · intro hcond counter attempts havail hbound upstream h hrobin hsum window hwindow hlen
    rcases hcond upstream h hrobin hsum with hlone | hone
    · exact fairWindow_of_lone havail hbound hlone hrobin hsum hwindow hlen
    · exact fairWindow_of_oneTarget havail hbound hone hrobin hsum hwindow hlen

def twoPeers (name : String) : UpstreamConfig where
  name := name
  strategy := .roundRobin
  targets := [{ id := "a", address := "10.0.0.1:80" }, { id := "b", address := "10.0.0.2:80" }]

/-- Two upstreams of two targets each, asked in turn: the picks of the
first all go to the same target. -/
theorem alternating_upstreams_starve_target :
    let upstreams := [twoPeers "orders", twoPeers "users"]
    let attempts := [freshAttempt "orders", freshAttempt "users", freshAttempt "orders",
      freshAttempt "users"]
    let window := picksFor (fun _ => 0) upstreams 0 attempts (twoPeers "orders")
    AllAvailable upstreams attempts
      ∧ window.length = (twoPeers "orders").weightSum
      ∧ window.map (fun pick => pick.target.map UpstreamTarget.id) = [some "a", some "a"]
      ∧ ¬ FairGateway (fun _ => 0) upstreams := by
  have havail : AllAvailable [twoPeers "orders", twoPeers "users"]
      [freshAttempt "orders", freshAttempt "users", freshAttempt "orders",
        freshAttempt "users"] := by
    refine allAvailable_of_fresh fun attempt hmem => ?_
    simp only [List.mem_cons, List.not_mem_nil, or_false] at hmem
    rcases hmem with rfl | rfl | rfl | rfl <;> rfl
  refine ⟨havail, by decide, by decide, fun hfair => ?_⟩
  have hcount := hfair 0 _ havail (by decide) (twoPeers "orders") rfl rfl (by decide) _
    List.infix_rfl (by decide) { id := "b", address := "10.0.0.2:80" } (by decide)
  exact absurd hcount (by decide)

end KongGateway.GatewayCore

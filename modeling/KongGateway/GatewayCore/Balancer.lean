import KongGateway.Lib.RustStd
import Mathlib.Algebra.Order.Floor.Semifield
import Mathlib.Data.Rat.Floor

/-!
# Balancer — choosing one target of an upstream

The model of `balancer.rs`: the three balancing strategies over a list
of weighted targets. Every weight is a `u32`; the total of the weights
is taken modulo `2 ^ 32`, as a build without overflow checks computes
it. The hash strategy goes through the standard library's
`DefaultHasher`, whose algorithm is unspecified, so the hash is a
parameter.
-/

namespace KongGateway.GatewayCore

open RustStd

inductive BalancingStrategy where
  | roundRobin
  | leastConnections
  | hash
deriving DecidableEq, Repr

structure UpstreamTarget where
  id : String
  address : String
  activeConnections : Nat := 0
  weight : UInt32 := 1
deriving DecidableEq, Repr

/-- The loop of `pick_weighted_target`: walk the targets, spending the
cursor on the weights passed over. -/
def walkWeights : List UpstreamTarget → Nat → Option UpstreamTarget
  | [], _ => none
  | target :: rest, cursor =>
    if target.weight.toNat = 0 then walkWeights rest cursor
    else if cursor < target.weight.toNat then some target
    else walkWeights rest (cursor - target.weight.toNat)

/-- `targets.iter().map(|target| target.weight).sum()`. -/
def totalWeight (targets : List UpstreamTarget) : Nat :=
  wrappingSum (targets.map fun target => target.weight.toNat)

def pickWeightedTarget (targets : List UpstreamTarget) (seed : Nat) :
    Option UpstreamTarget :=
  let total := totalWeight targets
  if total = 0 then none
  else walkWeights targets (asU32 seed % total)

/-- The key `LeastConnections` minimises; a zero weight is filtered out
before, and its branch kept as the source has it. -/
def connectionsPerWeight (target : UpstreamTarget) : Nat :=
  if target.weight.toNat = 0 then 2 ^ 64 - 1
  else target.activeConnections / target.weight.toNat

def selectTarget (hasher : String → Nat) (strategy : BalancingStrategy)
    (targets : List UpstreamTarget) (requestKey : Option String)
    (requestCount : Nat) : Option UpstreamTarget :=
  match strategy with
  | .roundRobin => pickWeightedTarget targets requestCount
  | .leastConnections =>
    minByKey connectionsPerWeight
      (targets.filter fun target => 0 < target.weight.toNat)
  | .hash =>
    match requestKey with
    | none => none
    | some key => pickWeightedTarget targets (hasher key)

/-!
## Balancer — least connections by whole quotients

`LeastConnections` compares the targets by `active_connections / weight`
in integer arithmetic and takes the first least one. Targets whose exact
ratios differ by less than one may tie there, and the order of the list
decides between them.
-/

/-- The connections per weight, exactly. -/
def UpstreamTarget.ratio (target : UpstreamTarget) : ℚ :=
  (target.activeConnections : ℚ) / target.weight.toNat

/-- The targets that the strategy chooses among. -/
def weighted (targets : List UpstreamTarget) : List UpstreamTarget :=
  targets.filter fun target => 0 < target.weight.toNat

theorem mem_weighted {targets : List UpstreamTarget} {target : UpstreamTarget} :
    target ∈ weighted targets ↔ target ∈ targets ∧ 0 < target.weight.toNat := by
  simp [weighted]

/-- What the selection is for: a target of positive weight and least
ratio, if there is one of positive weight. -/
structure LeastLoaded (targets : List UpstreamTarget) (selected : Option UpstreamTarget) : Prop where
  none_iff : selected = none ↔ ∀ target ∈ targets, ¬ 0 < target.weight.toNat
  positive : ∀ target, selected = some target → target ∈ targets ∧ 0 < target.weight.toNat
  least : ∀ target, selected = some target →
    ∀ other ∈ targets, 0 < other.weight.toNat → target.ratio ≤ other.ratio

/-- Of the targets of positive weight, one of least ratio stands before
all others of its whole quotient. -/
def LeastRatioFirst (targets : List UpstreamTarget) : Prop :=
  weighted targets ≠ [] → ∃ pre target post, weighted targets = pre ++ target :: post
    ∧ (∀ other ∈ weighted targets, target.ratio ≤ other.ratio)
    ∧ ∀ other ∈ pre, connectionsPerWeight other ≠ connectionsPerWeight target

theorem connectionsPerWeight_eq_floor {target : UpstreamTarget} (h : 0 < target.weight.toNat) :
    connectionsPerWeight target = ⌊target.ratio⌋₊ := by
  rw [connectionsPerWeight, if_neg (by omega), UpstreamTarget.ratio, Nat.floor_div_eq_div]

theorem connectionsPerWeight_mono {target other : UpstreamTarget} (h : 0 < target.weight.toNat)
    (h' : 0 < other.weight.toNat) (hle : target.ratio ≤ other.ratio) :
    connectionsPerWeight target ≤ connectionsPerWeight other := by
  rw [connectionsPerWeight_eq_floor h, connectionsPerWeight_eq_floor h']
  exact Nat.floor_mono hle

section

variable {hasher : String → Nat} {targets : List UpstreamTarget} {requestKey : Option String}
  {requestCount : Nat}

theorem selectTarget_leastConnections :
    selectTarget hasher .leastConnections targets requestKey requestCount
      = minByKey connectionsPerWeight (weighted targets) := rfl

theorem selectTarget_leastConnections_none :
    selectTarget hasher .leastConnections targets requestKey requestCount = none
      ↔ ∀ target ∈ targets, ¬ 0 < target.weight.toNat := by
  rw [selectTarget_leastConnections, minByKey_eq_none_iff, List.eq_nil_iff_forall_not_mem]
  constructor
  · intro h target hmem hpos
    exact h target (mem_weighted.mpr ⟨hmem, hpos⟩)
  · intro h target hmem
    exact h target (mem_weighted.mp hmem).1 (mem_weighted.mp hmem).2

/-- A target of least ratio that no other of its quotient precedes is
selected. -/
theorem selectTarget_of_leastRatioFirst (hasher : String → Nat) (requestKey : Option String)
    (requestCount : Nat) (h : LeastRatioFirst targets) (hne : weighted targets ≠ []) :
    ∃ target, selectTarget hasher .leastConnections targets requestKey requestCount = some target
      ∧ ∀ other ∈ weighted targets, target.ratio ≤ other.ratio := by
  obtain ⟨pre, target, post, hsplit, hleast, hpre⟩ := h hne
  have hmem : ∀ other ∈ pre ++ target :: post, 0 < other.weight.toNat := by
    intro other hother
    rw [← hsplit] at hother
    exact (mem_weighted.mp hother).2
  have htarget : 0 < target.weight.toNat := hmem target (by simp)
  have hkey : ∀ other ∈ pre ++ target :: post,
      connectionsPerWeight target ≤ connectionsPerWeight other := fun other hother =>
    connectionsPerWeight_mono htarget (hmem other hother) (hleast other (hsplit ▸ hother))
  refine ⟨target, ?_, hleast⟩
  rw [selectTarget_leastConnections, hsplit]
  apply minByKey_eq_some
  · intro other hother
    exact Nat.lt_of_le_of_ne (hkey other (by simp [hother])) (hpre other hother).symm
  · intro other hother
    exact hkey other (by simp [hother])

end

/-- **Least connections, exactly.** For every list of targets the
strategy selects nothing if and only if no target has a positive weight,
and it selects one of least exact ratio if and only if a target of least
ratio stands before all others of its whole quotient. -/
theorem least_connections_exact_iff (hasher : String → Nat) (targets : List UpstreamTarget)
    (requestKey : Option String) (requestCount : Nat) :
    LeastLoaded targets
        (selectTarget hasher .leastConnections targets requestKey requestCount)
      ↔ LeastRatioFirst targets := by
  constructor
  · intro h hne
    obtain ⟨target, htarget⟩ : ∃ target,
        selectTarget hasher .leastConnections targets requestKey requestCount = some target := by
      rw [← Option.ne_none_iff_exists', selectTarget_leastConnections, Ne, minByKey_eq_none_iff]
      exact hne
    obtain ⟨pre, post, hsplit, hpre, -⟩ := minByKey_spec htarget
    refine ⟨pre, target, post, hsplit, ?_, ?_⟩
    · intro other hother
      exact h.least target htarget other (mem_weighted.mp hother).1 (mem_weighted.mp hother).2
    · exact fun other hother => (Nat.ne_of_lt (hpre other hother)).symm
  · intro h
    refine ⟨selectTarget_leastConnections_none, ?_, ?_⟩
    · intro target htarget
      exact mem_weighted.mp (minByKey_mem htarget)
    · intro target htarget other hother hpos
      have hmem : other ∈ weighted targets := mem_weighted.mpr ⟨hother, hpos⟩
      obtain ⟨least, hselected, hleast⟩ :=
        selectTarget_of_leastRatioFirst hasher requestKey requestCount h (List.ne_nil_of_mem hmem)
      obtain rfl := Option.some.inj (htarget.symm.trans hselected)
      exact hleast other hmem

/-- Three connections at weight two and one at weight one have the same
whole quotient, and the first of the list is taken. -/
theorem larger_ratio_selected :
    let a : UpstreamTarget := { id := "a", address := "10.0.0.1:8080", activeConnections := 3, weight := 2 }
    let b : UpstreamTarget := { id := "b", address := "10.0.0.2:8080", activeConnections := 1, weight := 1 }
    selectTarget (fun _ => 0) .leastConnections [a, b] none 0 = some a
      ∧ b.ratio < a.ratio
      ∧ ¬ LeastLoaded [a, b] (selectTarget (fun _ => 0) .leastConnections [a, b] none 0) := by
  intro a b
  have hselected : selectTarget (fun _ => 0) .leastConnections [a, b] none 0 = some a := by decide
  have hratio : b.ratio < a.ratio := by
    show ((1 : Nat) : ℚ) / ((1 : Nat) : ℚ) < ((3 : Nat) : ℚ) / ((2 : Nat) : ℚ)
    norm_num
  refine ⟨hselected, hratio, fun h => ?_⟩
  exact not_le_of_gt hratio (h.least a hselected b (by simp) (by decide))

end KongGateway.GatewayCore

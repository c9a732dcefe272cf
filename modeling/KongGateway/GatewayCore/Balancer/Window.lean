import KongGateway.GatewayCore.Proxy.RoundRobin

/-!
# Balancer — the rotation of seeds

`pick_weighted_target` returns a reference into the slice, so two equal
targets are still two places of it. The walk is told here by the
position it stops at, and the positions are laid out as a wheel.
Consecutive seeds whose low words do not wrap read consecutive places,
so as many of them as there are places make a full turn.
-/

namespace KongGateway.GatewayCore

open RustStd Wheel

/-! ## The walk by positions -/

/-- The loop of `pick_weighted_target`, with the position of the target
that the returned reference points to. -/
def walkPositions : List UpstreamTarget → Nat → Nat → Option Nat
  | [], _, _ => none
  | target :: rest, position, cursor =>
    if target.weight.toNat = 0 then walkPositions rest (position + 1) cursor
    else if cursor < target.weight.toNat then some position
    else walkPositions rest (position + 1) (cursor - target.weight.toNat)

def pickWeightedPosition (targets : List UpstreamTarget) (seed : Nat) : Option Nat :=
  let total := totalWeight targets
  if total = 0 then none
  else walkPositions targets 0 (asU32 seed % total)

/-- The position is that of the target returned, and a zero weight is
never returned. -/
theorem walkPositions_target {targets : List UpstreamTarget} {position cursor p : Nat}
    (h : walkPositions targets position cursor = some p) :
    position ≤ p ∧ ∃ target, targets[p - position]? = some target
      ∧ walkWeights targets cursor = some target ∧ 0 < target.weight.toNat := by
  induction targets generalizing position cursor with
  | nil => cases h
  | cons target rest ih =>
    -- what the rest returns is one place further on
    have hstep : ∀ c, walkPositions rest (position + 1) c = some p →
        position ≤ p ∧ ∃ t, (target :: rest)[p - position]? = some t
          ∧ walkWeights rest c = some t ∧ 0 < t.weight.toNat := by
      intro c hc
      obtain ⟨hle, t, hat, hwalk, hpos⟩ := ih hc
      have hsub : p - position = p - (position + 1) + 1 := by omega
      refine ⟨by omega, t, ?_, hwalk, hpos⟩
      rw [hsub, List.getElem?_cons_succ, hat]
    simp only [walkPositions] at h
    simp only [walkWeights]
    split at h
    · rename_i hzero
      rw [if_pos hzero]
      exact hstep _ h
    · rename_i hne
      rw [if_neg hne]
      split at h
      · rename_i hlt
        cases h
        rw [if_pos hlt]
        exact ⟨Nat.le_refl _, target, by simp, rfl, Nat.pos_of_ne_zero hne⟩
      · rename_i hge
        rw [if_neg hge]
        exact hstep _ h

theorem pickWeightedPosition_target {targets : List UpstreamTarget} {seed p : Nat}
    (h : pickWeightedPosition targets seed = some p) :
    ∃ target, targets[p]? = some target ∧ pickWeightedTarget targets seed = some target
      ∧ 0 < target.weight.toNat := by
  simp only [pickWeightedPosition] at h
  simp only [pickWeightedTarget]
  split at h
  · cases h
  · rename_i hne
    rw [if_neg hne]
    exact (walkPositions_target h).2

/-! ## The wheel of positions -/

/-- The weight at a position, zero beyond the slice. -/
def weightAt (targets : List UpstreamTarget) (position : Nat) : Nat :=
  (targets[position]?.map UpstreamTarget.places).getD 0

theorem walkPositions_eq {weight : Nat → Nat} {targets : List UpstreamTarget} {position : Nat}
    (cursor : Nat)
    (hweight : ∀ i target, targets[i]? = some target → weight (position + i) = target.places) :
    walkPositions targets position cursor
      = (wheel weight (List.range' position targets.length))[cursor]? := by
  induction targets generalizing position cursor with
  | nil => rfl
  | cons target rest ih =>
    have hhead : weight position = target.places := hweight 0 target rfl
    have hrest : ∀ i t, rest[i]? = some t → weight (position + 1 + i) = t.places := by
      intro i t hi
      have hindex : position + 1 + i = position + (i + 1) := by omega
      rw [hindex]
      exact hweight (i + 1) t hi
    rw [List.length_cons, List.range'_succ, wheel_cons, hhead]
    simp only [walkPositions]
    split
    · rename_i hzero
      have hnone : List.replicate target.places position = [] := by
        rw [UpstreamTarget.places, hzero, List.replicate_zero]
      rw [hnone, List.nil_append]
      exact ih cursor hrest
    · split
      · rename_i hlt
        rw [List.getElem?_append_left (by simpa [UpstreamTarget.places] using hlt)]
        simp [UpstreamTarget.places, hlt]
      · rename_i hge
        rw [List.getElem?_append_right (by simpa [UpstreamTarget.places] using Nat.not_lt.mp hge),
          ih _ hrest]
        simp [UpstreamTarget.places]

theorem map_weightAt (targets : List UpstreamTarget) :
    (List.range targets.length).map (weightAt targets) = targets.map UpstreamTarget.places := by
  apply List.ext_getElem
  · simp
  · intro i hi hi'
    rw [List.length_map] at hi'
    simp [weightAt, hi']

theorem length_wheel_weightAt (targets : List UpstreamTarget) :
    (wheel (weightAt targets) (List.range targets.length)).length
      = (targets.map UpstreamTarget.places).sum := by
  rw [length_wheel, map_weightAt]

section

variable {targets : List UpstreamTarget} {seed : Nat}

theorem pickWeightedPosition_eq (hpos : 0 < (targets.map UpstreamTarget.places).sum)
    (hsum : (targets.map UpstreamTarget.places).sum < 2 ^ 32) (seed : Nat) :
    pickWeightedPosition targets seed
      = spin (weightAt targets) (List.range targets.length) (asU32 seed) := by
  have htotal : totalWeight targets = (targets.map UpstreamTarget.places).sum :=
    wrappingSum_of_lt hsum
  have hweight : ∀ i target, targets[i]? = some target →
      weightAt targets (0 + i) = target.places := by
    intro i target hi
    rw [Nat.zero_add, weightAt, hi]
    rfl
  simp only [pickWeightedPosition, htotal]
  rw [if_neg (by omega), walkPositions_eq _ hweight, spin, length_wheel_weightAt,
    List.range_eq_range']

theorem map_asU32_window {n : Nat} (h : seed % 2 ^ 32 + n ≤ 2 ^ 32) :
    (List.range n).map (fun k => asU32 (seed + k)) = List.range' (seed % 2 ^ 32) n := by
  apply List.ext_getElem
  · simp
  · intro k hk _
    rw [List.length_map, List.length_range] at hk
    simp only [List.getElem_map, List.getElem_range, List.getElem_range', asU32]
    omega

/-- **A window of seeds is exact.** Over as many consecutive seeds as the
weights sum to, every position is returned as often as its weight, and
what is returned never has weight 0. -/
theorem pickWeightedTarget_window (hpos : 0 < (targets.map UpstreamTarget.places).sum)
    (hsum : (targets.map UpstreamTarget.places).sum < 2 ^ 32)
    (hseed : seed % 2 ^ 32 + (targets.map UpstreamTarget.places).sum ≤ 2 ^ 32) :
    (∀ (p : Nat) (hp : p < targets.length),
      ((List.range (targets.map UpstreamTarget.places).sum).map fun k =>
          pickWeightedPosition targets (seed + k)).count (some p)
        = targets[p].weight.toNat)
    ∧ ∀ k < (targets.map UpstreamTarget.places).sum, ∃ p target,
        pickWeightedPosition targets (seed + k) = some p ∧ targets[p]? = some target
          ∧ pickWeightedTarget targets (seed + k) = some target ∧ 0 < target.weight.toNat := by
  have hlen := length_wheel_weightAt targets
  constructor
  · intro p hp
    have hmap : ((List.range (targets.map UpstreamTarget.places).sum).map fun k =>
          pickWeightedPosition targets (seed + k))
        = (List.range' (seed % 2 ^ 32) (targets.map UpstreamTarget.places).sum).map
            (spin (weightAt targets) (List.range targets.length)) := by
      rw [← map_asU32_window hseed, List.map_map]
      apply List.map_congr_left
      intro k _
      exact pickWeightedPosition_eq hpos hsum (seed + k)
    have hturn : (List.range' (seed % 2 ^ 32) (targets.map UpstreamTarget.places).sum).length
        = (wheel (weightAt targets) (List.range targets.length)).length := by
      rw [hlen, List.length_range']
    rw [hmap, count_spin_of_nodup hturn (by rw [hlen]; exact nodup_range'_mod _ _),
      List.count_eq_one_of_mem List.nodup_range (List.mem_range.mpr hp), Nat.one_mul, weightAt,
      List.getElem?_eq_getElem hp]
    rfl
  · intro k _
    have hplace : asU32 (seed + k)
          % (wheel (weightAt targets) (List.range targets.length)).length
        < (wheel (weightAt targets) (List.range targets.length)).length :=
      Nat.mod_lt _ (by omega)
    have hsome : ∃ p, pickWeightedPosition targets (seed + k) = some p := by
      rw [pickWeightedPosition_eq hpos hsum, spin, List.getElem?_eq_getElem hplace]
      exact ⟨_, rfl⟩
    obtain ⟨p, hp⟩ := hsome
    obtain ⟨target, hat, hpick, hweight⟩ := pickWeightedPosition_target hp
    exact ⟨p, target, hp, hat, hpick, hweight⟩

/-- Two equal targets and one of weight 0, from a seed beyond 32 bits. -/
theorem pickWeightedTarget_window_twins :
    (∀ (p : Nat) (hp : p < [UpstreamTarget.mk "a" "a:80" 0 2, .mk "b" "b:80" 0 0,
        .mk "a" "a:80" 0 2].length),
      ((List.range 4).map fun k =>
          pickWeightedPosition [.mk "a" "a:80" 0 2, .mk "b" "b:80" 0 0, .mk "a" "a:80" 0 2]
            (2 ^ 32 + 7 + k)).count (some p)
        = [UpstreamTarget.mk "a" "a:80" 0 2, .mk "b" "b:80" 0 0,
            .mk "a" "a:80" 0 2][p].weight.toNat)
    ∧ ∀ k < 4, ∃ p target,
        pickWeightedPosition [.mk "a" "a:80" 0 2, .mk "b" "b:80" 0 0, .mk "a" "a:80" 0 2]
            (2 ^ 32 + 7 + k) = some p
          ∧ [UpstreamTarget.mk "a" "a:80" 0 2, .mk "b" "b:80" 0 0, .mk "a" "a:80" 0 2][p]?
              = some target
          ∧ pickWeightedTarget [.mk "a" "a:80" 0 2, .mk "b" "b:80" 0 0, .mk "a" "a:80" 0 2]
              (2 ^ 32 + 7 + k) = some target
          ∧ 0 < target.weight.toNat :=
  @pickWeightedTarget_window [.mk "a" "a:80" 0 2, .mk "b" "b:80" 0 0, .mk "a" "a:80" 0 2]
    (2 ^ 32 + 7) (by decide) (by decide) (by decide)

end

end KongGateway.GatewayCore

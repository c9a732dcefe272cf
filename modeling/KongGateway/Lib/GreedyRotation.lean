import Mathlib.Algebra.BigOperators.Ring.Finset
import Mathlib.Algebra.Order.BigOperators.Group.Finset
import Mathlib.Algebra.Order.Field.Basic
import Mathlib.Tactic.Linarith
import Mathlib.Tactic.Ring

/-!
# GreedyRotation — weighted rotation by running counters

Every item has a weight and a counter. A step adds to each counter the
weight of its item, picks an item whose counter is then largest, and
takes the sum of all weights off its counter. From counters at zero, as
many steps as the weights sum to pick each item as often as its weight
and bring the counters back to zero. When the counters determine the
pick, this holds of as many consecutive steps from anywhere.
-/

namespace GreedyRotation

variable {ι R : Type*} [Fintype ι] [DecidableEq ι]

/-- The sum of the weights. -/
def total (weight : ι → ℕ) : ℕ := ∑ i, weight i

variable [Field R] [LinearOrder R]

/-- The counters and the picks of a run from zero. -/
structure Trace (R : Type*) [Field R] [LinearOrder R] (weight : ι → ℕ) where
  counter : ℕ → ι → R
  pick : ℕ → ι
  start : ∀ i, counter 0 i = 0
  step : ∀ t i, counter (t + 1) i
    = counter t i + weight i - if i = pick t then (total weight : R) else 0
  greedy : ∀ t i, counter t i + weight i ≤ counter t (pick t) + weight (pick t)
  determined : ∀ t u, counter t = counter u → pick t = pick u

namespace Trace

variable {weight : ι → ℕ} (trace : Trace R weight)

theorem sum_counter (t : ℕ) : ∑ i, trace.counter t i = 0 := by
  induction t with
  | zero => exact Finset.sum_eq_zero fun i _ => trace.start i
  | succ t ih =>
    have htaken : ∑ i, (if i = trace.pick t then (total weight : R) else 0) = total weight := by
      rw [Finset.sum_ite_eq' Finset.univ (trace.pick t), if_pos (Finset.mem_univ _)]
    calc ∑ i, trace.counter (t + 1) i
        = ∑ i, (trace.counter t i + weight i
            - if i = trace.pick t then (total weight : R) else 0) :=
          Finset.sum_congr rfl fun i _ => trace.step t i
      _ = ∑ i, trace.counter t i + ∑ i, (weight i : R) - total weight := by
          rw [Finset.sum_sub_distrib, Finset.sum_add_distrib, htaken]
      _ = 0 := by rw [ih, ← Nat.cast_sum, ← total, zero_add, sub_self]

/-- How often an item is picked in the first steps. -/
def picks (t : ℕ) (i : ι) : ℕ := ((List.range t).map trace.pick).count i

theorem picks_add (t n : ℕ) (i : ι) :
    trace.picks (t + n) i
      = trace.picks t i + ((List.range n).map fun k => trace.pick (t + k)).count i := by
  rw [picks, picks, List.range_add, List.map_append, List.count_append, List.map_map]
  rfl

theorem counter_eq (t : ℕ) (i : ι) :
    trace.counter t i = t * weight i - total weight * trace.picks t i := by
  induction t with
  | zero => simp [trace.start, picks]
  | succ t ih =>
    have hone := trace.picks_add t 1 i
    rw [trace.step, ih]
    by_cases hpick : i = trace.pick t
    · have hcount : trace.picks (t + 1) i = trace.picks t i + 1 := by
        rw [hone]
        simp [hpick]
      rw [if_pos hpick, hcount]
      push_cast
      ring
    · have hcount : trace.picks (t + 1) i = trace.picks t i := by
        rw [hone]
        simp [Ne.symm hpick]
      rw [if_neg hpick, hcount]
      push_cast
      ring

variable [IsStrictOrderedRing R]

theorem pick_pos (hpos : 0 < total weight) (t : ℕ) :
    0 < trace.counter t (trace.pick t) + weight (trace.pick t) := by
  by_contra hle
  have hnonpos : ∀ i ∈ Finset.univ, trace.counter t i + (weight i : R) ≤ 0 :=
    fun i _ => (trace.greedy t i).trans (not_lt.mp hle)
  have hsum : ∑ i, (trace.counter t i + (weight i : R)) = total weight := by
    rw [Finset.sum_add_distrib, trace.sum_counter, ← Nat.cast_sum, ← total, zero_add]
  have hle' := Finset.sum_nonpos hnonpos
  rw [hsum] at hle'
  have hpos' : (0 : R) < total weight := Nat.cast_pos.mpr hpos
  exact absurd hle' (not_le.mpr hpos')

theorem neg_total_lt (hpos : 0 < total weight) (t : ℕ) (i : ι) :
    -(total weight : R) < trace.counter t i := by
  have hpos' : (0 : R) < total weight := Nat.cast_pos.mpr hpos
  induction t generalizing i with
  | zero =>
    rw [trace.start]
    exact neg_lt_zero.mpr hpos'
  | succ t ih =>
    have hweight : (0 : R) ≤ weight i := Nat.cast_nonneg _
    rw [trace.step]
    split
    · rename_i hpick
      subst hpick
      have hbest := trace.pick_pos hpos t
      linarith
    · have hbelow := ih i
      linarith

/-- **After as many steps as the weights sum to the counters are zero.**
No item is picked more often than its weight, since its counter would be
too low; and the counters sum to zero. -/
theorem counter_total (hpos : 0 < total weight) (i : ι) :
    trace.counter (total weight) i = 0 := by
  have hpos' : (0 : R) < total weight := Nat.cast_pos.mpr hpos
  have hfactor : ∀ j, trace.counter (total weight) j
      = total weight * ((weight j : R) - trace.picks (total weight) j) := by
    intro j
    rw [trace.counter_eq]
    ring
  have hnonneg : ∀ j ∈ Finset.univ, 0 ≤ trace.counter (total weight) j := by
    intro j _
    have hlow := trace.neg_total_lt hpos (total weight) j
    rw [hfactor] at hlow ⊢
    have hpicks : trace.picks (total weight) j ≤ weight j := by
      by_contra hmore
      have hcast : (weight j : R) + 1 ≤ trace.picks (total weight) j := by
        exact_mod_cast Nat.lt_of_not_le hmore
      have hmul := mul_le_mul_of_nonneg_left
        (by linarith : (weight j : R) - trace.picks (total weight) j ≤ -1) hpos'.le
      linarith
    exact mul_nonneg hpos'.le (sub_nonneg.mpr (Nat.cast_le.mpr hpicks))
  exact (Finset.sum_eq_zero_iff_of_nonneg hnonneg).mp (trace.sum_counter _) i (Finset.mem_univ i)

theorem counter_period (hpos : 0 < total weight) (t : ℕ) :
    trace.counter (t + total weight) = trace.counter t := by
  induction t with
  | zero =>
    funext i
    rw [Nat.zero_add, trace.counter_total hpos, trace.start]
  | succ t ih =>
    funext i
    rw [Nat.add_right_comm, trace.step, trace.step, ih, trace.determined _ _ ih]

/-- **Any window is exact.** -/
theorem count_window (hpos : 0 < total weight) (t : ℕ) (i : ι) :
    ((List.range (total weight)).map fun k => trace.pick (t + k)).count i = weight i := by
  have hpos' : (0 : R) < total weight := Nat.cast_pos.mpr hpos
  have hround : trace.counter (t + total weight) i = trace.counter t i := by
    rw [trace.counter_period hpos]
  rw [trace.counter_eq, trace.counter_eq, trace.picks_add] at hround
  push_cast at hround
  have hmul : (total weight : R)
        * ((List.range (total weight)).map fun k => trace.pick (t + k)).count i
      = total weight * weight i := by linarith
  exact_mod_cast mul_left_cancel₀ hpos'.ne' hmul

end Trace

section OfPick

variable (weight : ι → ℕ) (pick : (ι → R) → ι)

/-- The counters when `pick` picks. -/
def counters : ℕ → ι → R
  | 0 => fun _ => 0
  | t + 1 => fun i => counters t i + weight i
      - if i = pick (counters t) then (total weight : R) else 0

/-- The run of a greedy rule that picks by the counters alone. -/
def Trace.ofPick (hgreedy : ∀ c i, c i + (weight i : R) ≤ c (pick c) + weight (pick c)) :
    Trace R weight where
  counter := counters weight pick
  pick t := pick (counters weight pick t)
  start _ := rfl
  step _ _ := rfl
  greedy t := hgreedy (counters weight pick t)
  determined _ _ h := congrArg pick h

end OfPick

end GreedyRotation

import Mathlib.Algebra.Order.Field.Rat
import Mathlib.Algebra.Order.Field.Basic

/-!
# RatioKey — keys that are quotients

A key is a numerator and a denominator, which may be 0: over a positive
numerator the quotient is infinite then. Keys are compared by their
products. `least` picks the first entry of a least key from a list.
-/

namespace RatioKey

abbrev Key := Int × Nat

/-- `n / w ≤ n' / w'`. -/
def le (k k' : Key) : Prop := k.1 * k'.2 ≤ k'.1 * k.2

instance (k k' : Key) : Decidable (le k k') :=
  inferInstanceAs (Decidable (k.1 * k'.2 ≤ k'.1 * k.2))

theorem le_of_zero {k k' : Key} (hk' : 0 < k'.1) (hzero : k'.2 = 0) : le k k' := by
  have hnonneg : 0 ≤ k'.1 * k.2 := Int.mul_nonneg (Int.le_of_lt hk') (Int.natCast_nonneg _)
  simpa [le, hzero] using hnonneg

theorem le_refl (k : Key) : le k k := Int.le_refl _

theorem le_total (k k' : Key) : le k k' ∨ le k' k := Int.le_total _ _

theorem le_trans {k k' k'' : Key} (hk' : 0 < k'.1) (hk'' : 0 < k''.1) (h : le k k')
    (h' : le k' k'') : le k k'' := by
  rw [le] at h h' ⊢
  rcases Nat.eq_zero_or_pos k'.2 with hzero | hpos
  · -- then the last key is infinite too
    rw [hzero] at h'
    have hw : k''.2 = 0 := by
      by_contra hne
      have hposw : (0 : Int) < k''.2 := Int.natCast_pos.mpr (Nat.pos_of_ne_zero hne)
      have := Int.mul_pos hk' hposw
      simp only [Int.natCast_zero, Int.mul_zero] at h'
      omega
    exact le_of_zero hk'' hw
  · have hposw : (0 : Int) < k'.2 := Int.natCast_pos.mpr hpos
    refine Int.le_of_mul_le_mul_right (a := k'.2) ?_ hposw
    calc k.1 * k''.2 * k'.2 = k.1 * k'.2 * k''.2 := Int.mul_right_comm _ _ _
      _ ≤ k'.1 * k.2 * k''.2 := Int.mul_le_mul_of_nonneg_right h (Int.natCast_nonneg _)
      _ = k'.1 * k''.2 * k.2 := Int.mul_right_comm _ _ _
      _ ≤ k''.1 * k'.2 * k.2 := Int.mul_le_mul_of_nonneg_right h' (Int.natCast_nonneg _)
      _ = k''.1 * k.2 * k'.2 := Int.mul_right_comm _ _ _

variable {α : Type*}

/-- The first entry of a least key. -/
def least : List (Key × α) → Option (Key × α)
  | [] => none
  | entry :: rest =>
    match least rest with
    | none => some entry
    | some best => if le entry.1 best.1 then some entry else some best

theorem least_eq_none {entries : List (Key × α)} : least entries = none ↔ entries = [] := by
  cases entries with
  | nil => simp [least]
  | cons entry rest =>
    rw [least]
    split
    · simp
    · split <;> simp

theorem least_mem {entries : List (Key × α)} {entry : Key × α} (h : least entries = some entry) :
    entry ∈ entries := by
  induction entries generalizing entry with
  | nil => cases h
  | cons first rest ih =>
    rw [least] at h
    split at h
    · rw [← Option.some.inj h]
      exact List.mem_cons_self
    · rename_i best hbest
      split at h
      · rw [← Option.some.inj h]
        exact List.mem_cons_self
      · rw [← Option.some.inj h]
        exact List.mem_cons_of_mem _ (ih hbest)

theorem least_le {entries : List (Key × α)} (hpos : ∀ entry ∈ entries, 0 < entry.1.1)
    {best : Key × α} (h : least entries = some best) : ∀ entry ∈ entries, le best.1 entry.1 := by
  induction entries generalizing best with
  | nil => cases h
  | cons first rest ih =>
    have hrest : ∀ entry ∈ rest, 0 < entry.1.1 :=
      fun entry hentry => hpos entry (List.mem_cons_of_mem _ hentry)
    rw [least] at h
    intro entry hentry
    split at h
    · rename_i hnone
      rw [least_eq_none.mp hnone] at hentry
      rw [← Option.some.inj h, List.mem_singleton.mp hentry]
      exact le_refl _
    · rename_i best' hbest
      have hlater := ih hrest hbest
      split at h
      · rename_i hle
        rw [← Option.some.inj h]
        rcases List.mem_cons.mp hentry with rfl | hmem
        · exact le_refl _
        · exact le_trans (hrest _ (least_mem hbest)) (hrest _ hmem) hle (hlater _ hmem)
      · rename_i hnot
        rw [← Option.some.inj h]
        rcases List.mem_cons.mp hentry with rfl | hmem
        · exact (le_total _ _).resolve_left hnot
        · exact hlater _ hmem

end RatioKey

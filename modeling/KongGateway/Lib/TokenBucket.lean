import Mathlib.Algebra.Order.Field.Basic
import Mathlib.Tactic.Linarith
import Mathlib.Tactic.Ring

/-!
# TokenBucket — refilling, taking, and the burst bound

A bucket holds tokens up to a capacity and is refilled at a constant
rate. Tokens and time are elements of an ordered field. `none` is a
bucket that has not been used; its first use fills it.

Refilling twice is refilling once, so looking at a bucket leaves no
trace. The burst bound (no more than `capacity + rate * (e - s)` tokens
are taken between `s` and `e`) is a potential argument: `potential s e`
bounds the tokens that can still be taken in the interval, refilling
does not raise it, and a token taken inside lowers it by one.
-/

namespace TokenBucket

variable {K : Type*} [Field K] [LinearOrder K]

structure Bucket (K : Type*) where
  tokens : K
  last : K

/-- The bucket at `now`, refilled since its last use. -/
def refill (capacity rate now : K) : Option (Bucket K) → Bucket K
  | none => ⟨capacity, now⟩
  | some b => ⟨min (b.tokens + (now - b.last) * rate) capacity, now⟩

variable {capacity rate : K}

@[simp] theorem refill_last (now : K) (b : Option (Bucket K)) :
    (refill capacity rate now b).last = now := by
  cases b <;> rfl

theorem mk_refill_tokens (now : K) (b : Option (Bucket K)) :
    (⟨(refill capacity rate now b).tokens, now⟩ : Bucket K) = refill capacity rate now b := by
  cases b <;> rfl

theorem refill_tokens_le (now : K) (b : Option (Bucket K)) :
    (refill capacity rate now b).tokens ≤ capacity := by
  cases b with
  | none => exact le_refl _
  | some b => exact min_le_right _ _

section Ordered

variable [IsStrictOrderedRing K]

/-- **Refilling twice is refilling once.** -/
theorem refill_refill (hrate : 0 ≤ rate) {t t' : K} (h : t ≤ t') (b : Option (Bucket K)) :
    refill capacity rate t' (some (refill capacity rate t b)) = refill capacity rate t' b := by
  have hgain : 0 ≤ (t' - t) * rate := mul_nonneg (sub_nonneg.mpr h) hrate
  cases b with
  | none =>
    have hfull : min (capacity + (t' - t) * rate) capacity = capacity :=
      min_eq_right (by linarith)
    simp only [refill, hfull]
  | some b =>
    simp only [refill, Bucket.mk.injEq, and_true]
    rcases le_total (b.tokens + (t - b.last) * rate) capacity with hle | hle
    · rw [min_eq_left hle]
      congr 1
      ring
    · -- the first refill filled the bucket, so a later one alone does too
      have hfull : capacity ≤ b.tokens + (t' - b.last) * rate := by
        calc capacity ≤ b.tokens + (t - b.last) * rate := hle
          _ ≤ b.tokens + (t - b.last) * rate + (t' - t) * rate := by linarith
          _ = b.tokens + (t' - b.last) * rate := by ring
      rw [min_eq_right hle, min_eq_right hfull, min_eq_right (by linarith)]

theorem refill_tokens_nonneg (hrate : 0 ≤ rate) (hcap : 0 ≤ capacity) {now : K}
    {b : Option (Bucket K)} (htokens : ∀ used, b = some used → 0 ≤ used.tokens)
    (hlast : ∀ used, b = some used → used.last ≤ now) :
    0 ≤ (refill capacity rate now b).tokens := by
  cases b with
  | none => exact hcap
  | some b =>
    have hgain : 0 ≤ (now - b.last) * rate :=
      mul_nonneg (sub_nonneg.mpr (hlast b rfl)) hrate
    exact le_min (add_nonneg (htokens b rfl) hgain) hcap

end Ordered

/-! ## The burst bound -/

/-- A bound on the tokens that can still be taken between `s` and `e` by
uses that come no earlier than the last one. -/
def potential (capacity rate s e : K) : Option (Bucket K) → K
  | none => capacity + (e - s) * rate
  | some b =>
    if b.last < s then capacity + (e - s) * rate
    else if b.last ≤ e then b.tokens + (e - b.last) * rate
    else 0

variable {s e now : K}

/-- **A token taken inside the interval** lowers the potential by one;
outside, taking tokens does not change it. -/
theorem potential_take (b : Bucket K) :
    potential capacity rate s e (some ⟨b.tokens - 1, b.last⟩)
      = potential capacity rate s e (some b) - if s ≤ b.last ∧ b.last ≤ e then 1 else 0 := by
  simp only [potential]
  split_ifs with hbefore hinside hwithin hinside' hinside''
  · exact absurd hinside.1 (not_le.mpr hbefore)
  · exact (sub_zero _).symm
  · ring
  · exact absurd ⟨not_lt.mp hbefore, hwithin⟩ hinside'
  · exact absurd hinside''.2 hwithin
  · exact (sub_zero _).symm

section Ordered

variable [IsStrictOrderedRing K]

theorem potential_nonneg (hrate : 0 ≤ rate) (hle : s ≤ e) (hcap : 0 ≤ capacity)
    (b : Option (Bucket K)) (htokens : ∀ used, b = some used → 0 ≤ used.tokens) :
    0 ≤ potential capacity rate s e b := by
  have hspan : 0 ≤ (e - s) * rate := mul_nonneg (sub_nonneg.mpr hle) hrate
  cases b with
  | none => exact add_nonneg hcap hspan
  | some b =>
    simp only [potential]
    split_ifs with hbefore hwithin
    · exact add_nonneg hcap hspan
    · exact add_nonneg (htokens b rfl) (mul_nonneg (sub_nonneg.mpr hwithin) hrate)
    · exact le_refl _

/-- **Refilling does not raise the potential.** -/
theorem potential_refill_le (hrate : 0 ≤ rate) (hle : s ≤ e) (hcap : 0 ≤ capacity)
    {b : Option (Bucket K)} (htokens : ∀ used, b = some used → 0 ≤ used.tokens)
    (hlast : ∀ used, b = some used → used.last ≤ now) :
    potential capacity rate s e (some (refill capacity rate now b))
      ≤ potential capacity rate s e b := by
  simp only [potential, refill_last]
  split_ifs with hbefore hwithin
  · -- still in front of the interval: so was the last use
    cases b with
    | none => exact le_refl _
    | some b =>
      have hb : b.last < s := lt_of_le_of_lt (hlast b rfl) hbefore
      simp only [if_pos hb]
      exact le_refl _
  · have hfull : (refill capacity rate now b).tokens ≤ capacity := refill_tokens_le now b
    have hspan : (e - now) * rate ≤ (e - s) * rate :=
      mul_le_mul_of_nonneg_right (by linarith) hrate
    cases b with
    | none => exact add_le_add hfull hspan
    | some b =>
      simp only
      split_ifs with hb hb'
      · exact add_le_add hfull hspan
      · have hgain : (refill capacity rate now (some b)).tokens
            ≤ b.tokens + (now - b.last) * rate := min_le_left _ _
        calc (refill capacity rate now (some b)).tokens + (e - now) * rate
            ≤ b.tokens + (now - b.last) * rate + (e - now) * rate := by linarith
          _ = b.tokens + (e - b.last) * rate := by ring
      · exact absurd (le_trans (hlast b rfl) hwithin) hb'
  · exact potential_nonneg hrate hle hcap b htokens

end Ordered

end TokenBucket

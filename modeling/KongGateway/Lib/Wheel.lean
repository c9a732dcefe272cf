import Mathlib.Algebra.Ring.Nat
import Mathlib.Data.List.Count
import Mathlib.Data.List.Nodup
import Mathlib.Data.List.Range
import Mathlib.Data.Option.Basic

/-!
# Wheel — weighted rotation

A list of weighted items laid out as a wheel: each item takes as many
consecutive places as its weight says. A reading is a number, and it
points at the place of its residue. Readings that cover every residue
once (a full turn, in any order) point at each item as often as its
places.
-/

namespace Wheel

variable {α : Type*} {weight : α → Nat}

/-- Every item, repeated by its weight. -/
def wheel (weight : α → Nat) (items : List α) : List α :=
  items.flatMap fun a => List.replicate (weight a) a

/-- What a reading points at. -/
def spin (weight : α → Nat) (items : List α) (reading : Nat) : Option α :=
  (wheel weight items)[reading % (wheel weight items).length]?

@[simp] theorem wheel_nil : wheel weight [] = [] := rfl

theorem wheel_cons (a : α) (rest : List α) :
    wheel weight (a :: rest) = List.replicate (weight a) a ++ wheel weight rest :=
  List.flatMap_cons

theorem length_wheel (items : List α) :
    (wheel weight items).length = (items.map weight).sum := by
  induction items with
  | nil => rfl
  | cons a rest ih => simp [wheel_cons, ih]

theorem mem_wheel {items : List α} {a : α} :
    a ∈ wheel weight items ↔ a ∈ items ∧ 0 < weight a := by
  simp only [wheel, List.mem_flatMap, List.mem_replicate]
  constructor
  · rintro ⟨b, hb, hw, rfl⟩
    exact ⟨hb, Nat.pos_of_ne_zero hw⟩
  · rintro ⟨ha, hw⟩
    exact ⟨a, ha, Nat.ne_of_gt hw, rfl⟩

theorem count_wheel [DecidableEq α] (items : List α) (a : α) :
    (wheel weight items).count a = items.count a * weight a := by
  induction items with
  | nil => simp
  | cons b rest ih =>
    rw [wheel_cons, List.count_append, ih]
    by_cases h : b = a
    · subst h
      rw [List.count_replicate_self, List.count_cons_self, Nat.add_mul, Nat.one_mul,
        Nat.add_comm]
    · have hnone : (List.replicate (weight b) b).count a = 0 :=
        List.count_eq_zero.mpr fun hmem => h (List.eq_of_mem_replicate hmem).symm
      rw [hnone, List.count_cons_of_ne h, Nat.zero_add]

section Turns

variable [DecidableEq α] {items : List α}

theorem count_spin_range (items : List α) (a : α) :
    ((List.range (wheel weight items).length).map (spin weight items)).count (some a)
      = items.count a * weight a := by
  have hturn : (List.range (wheel weight items).length).map (spin weight items)
      = (wheel weight items).map some := by
    apply List.ext_getElem
    · simp
    · intro i hi _
      rw [List.length_map, List.length_range] at hi
      simp [spin, Nat.mod_eq_of_lt hi]
  rw [hturn, List.count_map_of_injective _ _ (Option.some_injective _), count_wheel]

/-- **A full turn in any order.** As many readings as there are places,
no two of the same residue, point at each item once for each of its
places. -/
theorem count_spin_of_nodup {readings : List Nat}
    (hlen : readings.length = (wheel weight items).length)
    (hnodup : (readings.map (· % (wheel weight items).length)).Nodup) (a : α) :
    (readings.map (spin weight items)).count (some a) = items.count a * weight a := by
  -- distinct residues, as many as there are places, are all the residues
  have hperm : (readings.map (· % (wheel weight items).length)).Perm
      (List.range (wheel weight items).length) := by
    refine (List.subperm_of_subset hnodup fun r hr => ?_).perm_of_length_le (by simp [hlen])
    obtain ⟨reading, hreading, rfl⟩ := List.mem_map.mp hr
    have hpos : 0 < (wheel weight items).length := by
      rw [← hlen]
      exact List.length_pos_of_mem hreading
    exact List.mem_range.mpr (Nat.mod_lt _ hpos)
  have hmod : readings.map (spin weight items)
      = (readings.map (· % (wheel weight items).length)).map (spin weight items) := by
    rw [List.map_map]
    apply List.map_congr_left
    intro reading _
    simp [spin]
  rw [hmod, (hperm.map _).count_eq, count_spin_range]

private theorem eq_of_mod_eq_of_le {n a b : Nat} (hle : a ≤ b) (hlt : b < a + n)
    (hmod : a % n = b % n) : a = b := by
  have hzero : (b - a) % n = 0 := Nat.sub_mod_eq_zero_of_mod_eq hmod.symm
  rw [Nat.mod_eq_of_lt (by omega)] at hzero
  omega

theorem nodup_range'_mod (start n : Nat) :
    ((List.range' start n).map (· % n)).Nodup := by
  refine List.Nodup.map_on (fun a ha b hb hab => ?_) List.nodup_range'
  rw [List.mem_range'_1] at ha hb
  rcases Nat.le_total a b with hle | hle
  · exact eq_of_mod_eq_of_le hle (by omega) hab
  · exact (eq_of_mod_eq_of_le hle (by omega) hab.symm).symm

/-- A turn that skips reading `x` and makes up for it with one more
reading at the end misses a place of the item at `x`. -/
theorem count_spin_skip_lt {x : Nat} {a : α} (hx : x < (wheel weight items).length)
    (hat : spin weight items x = some a) (hfirst : spin weight items 0 ≠ some a) :
    ((List.range x ++ List.range' (x + 1) ((wheel weight items).length - x)).map
        (spin weight items)).count (some a)
      < items.count a * weight a := by
  have hsplit : List.range (wheel weight items).length ++ [(wheel weight items).length]
      = List.range x ++ x :: List.range' (x + 1) ((wheel weight items).length - x) := by
    have hrest : List.range' x ((wheel weight items).length - x + 1)
        = List.range' (0 + x) ((wheel weight items).length - x + 1) := by
      rw [Nat.zero_add]
    rw [← List.range_succ, List.range_eq_range', List.range_eq_range', ← List.range'_succ,
      hrest, List.range'_append_1]
    congr 1
    omega
  -- the reading at the end points at the first place again, which is not one of `a`
  have hlast : spin weight items (wheel weight items).length = spin weight items 0 := by
    simp [spin]
  have hcount := congrArg (fun l => (l.map (spin weight items)).count (some a)) hsplit
  simp only [List.map_append, List.map_cons, List.map_nil, List.count_append,
    count_spin_range, hlast, hat, List.count_cons_self, List.count_cons_of_ne hfirst,
    List.count_nil] at hcount
  rw [List.map_append, List.count_append]
  omega

end Turns

end Wheel

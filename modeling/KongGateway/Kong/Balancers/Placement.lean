import KongGateway.Kong.Balancers.ConsistentHashing
import KongGateway.Kong.Balancers.Continuum
import KongGateway.Kong.Balancers.Refresh
import Mathlib.Order.Interval.Finset.Nat

/-!
# Placement — which addresses have a point on the continuum

An address that asks for `n` points tries one index after another and
takes the free ones, until it has `n` or has tried as often as the
continuum has points. So a build is given up exactly when some address
meets too few free indices, and a build that is not given up leaves
every address its points.
-/

namespace KongGateway.Kong.Balancers

open Finset

/-! ## The points of one address -/

section Address

variable (lib : Lib) (points : Nat) (label : String) (continuum : Nat → Option AddressId)

/-- The index of the `k`-th try, counting from 1. -/
def tryIndex (k : Nat) : Nat := getContinuumIndex lib (label ++ toString k) points

/-- The free indices among the first `k` tries. -/
def freeIndices (k : Nat) : Finset Nat :=
  ((range k).image fun j => tryIndex lib points label (j + 1)).filter fun i =>
    (continuum i).isNone

/-- The continuum once an address has taken what it met in `k` tries. -/
def taken (a : AddressId) (k : Nat) : Nat → Option AddressId := fun i =>
  if i ∈ freeIndices lib points label continuum k then some a else continuum i

theorem freeIndices_zero : freeIndices lib points label continuum 0 = ∅ := rfl

theorem taken_zero (a : AddressId) : taken lib points label continuum a 0 = continuum := rfl

theorem freeIndices_succ (k : Nat) :
    freeIndices lib points label continuum (k + 1)
      = if (continuum (tryIndex lib points label (k + 1))).isNone then
          insert (tryIndex lib points label (k + 1)) (freeIndices lib points label continuum k)
        else freeIndices lib points label continuum k := by
  rw [freeIndices, range_add_one, image_insert, filter_insert, freeIndices]

theorem freeIndices_mono {k m : Nat} (h : k ≤ m) :
    freeIndices lib points label continuum k ⊆ freeIndices lib points label continuum m :=
  filter_subset_filter _ (image_subset_image (range_subset_range.mpr h))

theorem card_freeIndices_le (k : Nat) : #(freeIndices lib points label continuum k) ≤ k := by
  calc #(freeIndices lib points label continuum k)
      ≤ #((range k).image fun j => tryIndex lib points label (j + 1)) := card_filter_le _ _
    _ ≤ #(range k) := card_image_le
    _ = k := card_range k

variable {lib points label continuum}

theorem mem_freeIndices {k i : Nat} (h : i ∈ freeIndices lib points label continuum k) :
    (∃ j < k, tryIndex lib points label (j + 1) = i) ∧ continuum i = none := by
  rw [freeIndices, mem_filter, mem_image] at h
  obtain ⟨⟨j, hj, htry⟩, hfree⟩ := h
  exact ⟨⟨j, mem_range.mp hj, htry⟩, Option.isNone_iff_eq_none.mp hfree⟩

theorem taken_isSome (a : AddressId) (k i : Nat) :
    (taken lib points label continuum a k i).isSome = true
      ↔ i ∈ freeIndices lib points label continuum k ∨ (continuum i).isNone = false := by
  rw [taken]
  split
  · rename_i hmem
    simp [hmem]
  · rename_i hmem
    cases continuum i <;> simp [hmem]

theorem freeIndices_succ_of_taken {a : AddressId} {k : Nat}
    (h : (taken lib points label continuum a k (tryIndex lib points label (k + 1))).isSome = true) :
    freeIndices lib points label continuum (k + 1) = freeIndices lib points label continuum k := by
  rw [freeIndices_succ]
  split
  · rename_i hnone
    rcases (taken_isSome a k _).mp h with hmem | hsome
    · exact insert_eq_of_mem hmem
    · rw [hsome] at hnone
      cases hnone
  · rfl

theorem freeIndices_succ_of_free {a : AddressId} {k : Nat}
    (h : ¬ (taken lib points label continuum a k (tryIndex lib points label (k + 1))).isSome = true) :
    freeIndices lib points label continuum (k + 1)
        = insert (tryIndex lib points label (k + 1)) (freeIndices lib points label continuum k)
      ∧ tryIndex lib points label (k + 1) ∉ freeIndices lib points label continuum k := by
  rw [taken_isSome, not_or, Bool.not_eq_false] at h
  rw [freeIndices_succ, if_pos h.2]
  exact ⟨rfl, h.1⟩

theorem taken_succ_of_taken {a : AddressId} {k : Nat}
    (h : (taken lib points label continuum a k (tryIndex lib points label (k + 1))).isSome = true) :
    taken lib points label continuum a (k + 1) = taken lib points label continuum a k := by
  funext i
  rw [taken, taken, freeIndices_succ_of_taken h]

theorem taken_succ_of_free {a : AddressId} {k : Nat}
    (h : ¬ (taken lib points label continuum a k (tryIndex lib points label (k + 1))).isSome = true) :
    taken lib points label continuum a (k + 1)
      = Function.update (taken lib points label continuum a k) (tryIndex lib points label (k + 1))
          (some a) := by
  funext i
  rw [taken, (freeIndices_succ_of_free h).1]
  by_cases hi : i = tryIndex lib points label (k + 1)
  · rw [hi, Function.update_self, if_pos (mem_insert_self _ _)]
  · rw [Function.update_of_ne hi, taken]
    simp only [mem_insert, hi, false_or]

/-- The loop after `k` tries. It ends with the `n` points it is to
place, or gives up after the try before the last. -/
theorem placeAddress_from (a : AddressId) {n fuel k : Nat} (hfuel : points + 1 ≤ fuel + k)
    (hk : k ≤ points - 1) (hn : #(freeIndices lib points label continuum k) ≤ n) :
    (n ≤ #(freeIndices lib points label continuum (points - 1)) →
        ∃ m ≤ points - 1, #(freeIndices lib points label continuum m) = n
          ∧ placeAddress lib points label a fuel (k + 1)
              (n + (k - #(freeIndices lib points label continuum k)))
              (taken lib points label continuum a k)
            = some (taken lib points label continuum a m))
      ∧ (#(freeIndices lib points label continuum (points - 1)) < n →
        placeAddress lib points label a fuel (k + 1)
            (n + (k - #(freeIndices lib points label continuum k)))
            (taken lib points label continuum a k)
          = none) := by
  induction fuel generalizing k with
  | zero => omega
  | succ fuel ih =>
    have hcard := card_freeIndices_le lib points label continuum k
    have hmono := card_le_card (freeIndices_mono lib points label continuum hk)
    rw [placeAddress]
    by_cases hmore : #(freeIndices lib points label continuum k) < n
    · rw [if_pos (by omega)]
      dsimp only
      by_cases hlast : points < k + 1 + 1
      · rw [if_pos hlast]
        obtain rfl : k = points - 1 := by omega
        exact ⟨fun hle => absurd hle (by omega), fun _ => rfl⟩
      · rw [if_neg hlast]
        have hcard' := card_freeIndices_le lib points label continuum (k + 1)
        by_cases htaken : (taken lib points label continuum a k
            (tryIndex lib points label (k + 1))).isSome = true
        · have hsame := freeIndices_succ_of_taken htaken
          have hnext := @ih (k + 1) (by omega) (by omega) (by rw [hsame]; omega)
          rw [hsame, taken_succ_of_taken htaken] at hnext
          rw [← tryIndex, if_pos htaken, if_pos htaken]
          have hcount : n + (k - #(freeIndices lib points label continuum k)) + 1
              = n + (k + 1 - #(freeIndices lib points label continuum k)) := by omega
          rw [hcount]
          exact hnext
        · obtain ⟨hinsert, hnew⟩ := freeIndices_succ_of_free htaken
          have hone : #(freeIndices lib points label continuum (k + 1))
              = #(freeIndices lib points label continuum k) + 1 := by
            rw [hinsert, card_insert_of_notMem hnew]
          have hnext := @ih (k + 1) (by omega) (by omega) (by omega)
          rw [hone, taken_succ_of_free htaken] at hnext
          rw [← tryIndex, if_neg htaken, if_neg htaken]
          have hcount : n + (k - #(freeIndices lib points label continuum k))
              = n + (k + 1 - (#(freeIndices lib points label continuum k) + 1)) := by omega
          rw [hcount]
          exact hnext
    · rw [if_neg (by omega)]
      exact ⟨fun _ => ⟨k, hk, by omega, rfl⟩, fun hlt => absurd hmono (by omega)⟩

theorem placeAddress_enough (a : AddressId) {n : Nat}
    (h : n ≤ #(freeIndices lib points label continuum (points - 1))) :
    ∃ m ≤ points - 1, #(freeIndices lib points label continuum m) = n
      ∧ placeAddress lib points label a (points + 1) 1 n continuum
        = some (taken lib points label continuum a m) := by
  have hfrom := (@placeAddress_from lib points label continuum a n (points + 1) 0 (by omega)
    (by omega) (by simp [freeIndices_zero])).1 h
  simpa [freeIndices_zero, taken_zero] using hfrom

theorem placeAddress_few (a : AddressId) {n : Nat}
    (h : #(freeIndices lib points label continuum (points - 1)) < n) :
    placeAddress lib points label a (points + 1) 1 n continuum = none := by
  have hfrom := (@placeAddress_from lib points label continuum a n (points + 1) 0 (by omega)
    (by omega) (by simp [freeIndices_zero])).2 h
  simpa [freeIndices_zero, taken_zero] using hfrom

end Address

/-! ## The points of all addresses -/

section Build

variable (lib : Lib) (b : Balancer) (points : Nat)

/-- What an address puts before the number of a try. -/
def labelOf (a : AddressId) : String :=
  (b.address a).ip ++ ":" ++ (":" ++ toString (b.address a).port) ++ " "

/-- The step of the build. -/
def placeNext (continuum : Nat → Option AddressId) (a : AddressId) :
    Option (Nat → Option AddressId) :=
  placeAddress lib points (labelOf b a) a (points + 1) 1 (pointsOf lib b a) continuum

/-- Some address meets too few free indices on the continuum that those
before it leave. -/
def GivesUp : Prop :=
  ∃ before a after continuum, b.allAddresses = before ++ a :: after
    ∧ before.foldlM (placeNext lib b points) (fun _ => none) = some continuum
    ∧ #(freeIndices lib points (labelOf b a) continuum (points - 1)) < pointsOf lib b a

variable {lib b points}

theorem pointsOf_pos {a : AddressId} (h : 0 < (b.address a).weight) : 0 < pointsOf lib b a := by
  rw [pointsOf]
  split
  · omega
  · rename_i hnot
    rw [not_and] at hnot
    exact Nat.pos_of_ne_zero (hnot h)

theorem placeNext_some {continuum continuum' : Nat → Option AddressId} {a : AddressId}
    (h : placeNext lib b points continuum a = some continuum') :
    (∀ i a', continuum i = some a' → continuum' i = some a')
      ∧ (0 < pointsOf lib b a → ∃ i, 1 ≤ i ∧ i ≤ points ∧ continuum' i = some a) := by
  rw [placeNext] at h
  rcases Nat.lt_or_ge #(freeIndices lib points (labelOf b a) continuum (points - 1))
    (pointsOf lib b a) with hfew | henough
  · rw [placeAddress_few a hfew] at h
    cases h
  · obtain ⟨m, hm, hcount, hplace⟩ := placeAddress_enough a henough
    rw [hplace] at h
    obtain rfl := Option.some.inj h
    constructor
    · intro i a' hi
      rw [taken, if_neg]
      · exact hi
      · intro hmem
        rw [(mem_freeIndices hmem).2] at hi
        cases hi
    · intro hpos
      obtain ⟨i, hi⟩ := card_pos.mp (hcount ▸ hpos)
      obtain ⟨⟨j, hj, htry⟩, -⟩ := mem_freeIndices hi
      obtain ⟨hlow, hhigh⟩ := @getContinuumIndex_bounds lib (labelOf b a ++ toString (j + 1)) points
        (by omega)
      rw [← tryIndex, htry] at hlow hhigh
      exact ⟨i, hlow, hhigh, by rw [taken, if_pos hi]⟩

theorem foldlM_placeNext_some {as : List AddressId} {continuum continuum' : Nat → Option AddressId}
    (h : as.foldlM (placeNext lib b points) continuum = some continuum') :
    (∀ i a', continuum i = some a' → continuum' i = some a')
      ∧ ∀ a ∈ as, 0 < pointsOf lib b a → ∃ i, 1 ≤ i ∧ i ≤ points ∧ continuum' i = some a := by
  induction as generalizing continuum with
  | nil =>
    obtain rfl : continuum = continuum' := Option.some.inj h
    exact ⟨fun _ _ hi => hi, fun a ha => absurd ha List.not_mem_nil⟩
  | cons first rest ih =>
    rw [List.foldlM_cons] at h
    obtain ⟨next, hplace, hrest⟩ := Option.bind_eq_some_iff.mp h
    obtain ⟨hkept, hplaced⟩ := placeNext_some hplace
    obtain ⟨hkept', hplaced'⟩ := ih hrest
    refine ⟨fun i a' hi => hkept' i a' (hkept i a' hi), fun a ha hpos => ?_⟩
    rcases List.mem_cons.mp ha with rfl | hmem
    · obtain ⟨i, hlow, hhigh, hi⟩ := hplaced hpos
      exact ⟨i, hlow, hhigh, hkept' i a hi⟩
    · exact hplaced' a hmem hpos

theorem foldlM_placeNext_none {as : List AddressId} {continuum : Nat → Option AddressId} :
    as.foldlM (placeNext lib b points) continuum = none
      ↔ ∃ before a after reached, as = before ++ a :: after
        ∧ before.foldlM (placeNext lib b points) continuum = some reached
        ∧ #(freeIndices lib points (labelOf b a) reached (points - 1)) < pointsOf lib b a := by
  constructor
  · intro h
    induction as generalizing continuum with
    | nil => cases h
    | cons first rest ih =>
      rw [List.foldlM_cons] at h
      cases hplace : placeNext lib b points continuum first with
      | none =>
        refine ⟨[], first, rest, continuum, rfl, rfl, ?_⟩
        by_contra henough
        obtain ⟨m, -, -, hsome⟩ := placeAddress_enough first (Nat.le_of_not_lt henough)
        rw [placeNext, hsome] at hplace
        cases hplace
      | some next =>
        rw [hplace] at h
        obtain ⟨before, a, after, reached, rfl, hreached, hfew⟩ := ih h
        refine ⟨first :: before, a, after, reached, rfl, ?_, hfew⟩
        rw [List.foldlM_cons, hplace]
        exact hreached
  · rintro ⟨before, a, after, reached, rfl, hreached, hfew⟩
    rw [List.foldlM_append, hreached]
    show (a :: after).foldlM (placeNext lib b points) reached = none
    rw [List.foldlM_cons, placeNext, placeAddress_few a hfew]
    rfl

theorem newContinuum_eq : newContinuum lib b points
    = b.allAddresses.foldlM (placeNext lib b points) fun _ => none := rfl

theorem newContinuum_none_iff : newContinuum lib b points = none ↔ GivesUp lib b points :=
  foldlM_placeNext_none

end Build

/-! ## What the balancer has afterwards -/

/-- Every address with a weight has a point of the continuum, and no
others have one. -/
structure Covers (b : Balancer) (self : ConsistentHashing) : Prop where
  owns : ∀ a ∈ b.allAddresses, 0 < (b.address a).weight →
    ∃ index, 1 ≤ index ∧ index ≤ self.points ∧ self.continuum index = some a
  current : ∀ index a, self.continuum index = some a → a ∈ b.allAddresses

theorem Covers.length_le {b : Balancer} {self : ConsistentHashing} (h : Covers b self)
    (hnodup : b.allAddresses.Nodup) (hweight : ∀ a ∈ b.allAddresses, 0 < (b.address a).weight) :
    b.allAddresses.length ≤ self.points := by
  have hsub : b.allAddresses.toFinset.map .some ⊆ (Icc 1 self.points).image self.continuum := by
    intro entry hentry
    obtain ⟨a, ha, rfl⟩ := mem_map.mp hentry
    obtain ⟨index, hlow, hhigh, hindex⟩ :=
      Covers.owns h a (List.mem_toFinset.mp ha) (hweight a (List.mem_toFinset.mp ha))
    exact mem_image.mpr ⟨index, mem_Icc.mpr ⟨hlow, hhigh⟩, hindex⟩
  calc b.allAddresses.length
      = #(b.allAddresses.toFinset.map .some) := by
        rw [card_map, List.toFinset_card_of_nodup hnodup]
    _ ≤ #((Icc 1 self.points).image self.continuum) := card_le_card hsub
    _ ≤ #(Icc 1 self.points) := card_image_le
    _ = self.points := by rw [Nat.card_Icc, Nat.add_sub_cancel]

/-- A build is given up exactly when some address meets too few free
indices; the balancer then keeps the continuum it had. Otherwise the
new continuum covers the addresses. -/
theorem afterHostUpdate_covers (lib : Lib) {b : Balancer} {self : ConsistentHashing}
    (halgorithm : b.algorithm = some (.consistentHashing self)) :
    ∃ built : ConsistentHashing, (afterHostUpdate lib b).algorithm = some (.consistentHashing built)
      ∧ built.points = self.points
      ∧ (GivesUp lib (sortHostsAndAddresses lib b) self.points → built.continuum = self.continuum)
      ∧ (¬ GivesUp lib (sortHostsAndAddresses lib b) self.points →
        Covers (afterHostUpdate lib b) built) := by
  rw [← newContinuum_none_iff, afterHostUpdate, halgorithm]
  dsimp only
  rw [consistentHashingAfterHostUpdate]
  cases hnew : newContinuum lib (sortHostsAndAddresses lib b) self.points with
  | none => exact ⟨self, rfl, rfl, fun _ => rfl, fun hnot => absurd rfl hnot⟩
  | some continuum =>
    refine ⟨{ self with continuum := continuum }, rfl, rfl, fun hnone => (by cases hnone),
      fun _ => ⟨?_, ?_⟩⟩
    · intro a ha hweight
      rw [newContinuum_eq] at hnew
      exact (foldlM_placeNext_some hnew).2 a ha (pointsOf_pos hweight)
    · intro index a hindex
      exact newContinuum_mem lib self.points hnew hindex

theorem afterHostUpdate_covers_two_targets :
    ∃ built : ConsistentHashing,
      (afterHostUpdate Lib.plain (twoTargets [0, 1] [0, 1])).algorithm
          = some (.consistentHashing built)
        ∧ built.points = emptyRing.points
        ∧ (GivesUp Lib.plain (sortHostsAndAddresses Lib.plain (twoTargets [0, 1] [0, 1]))
            emptyRing.points → built.continuum = emptyRing.continuum)
        ∧ (¬ GivesUp Lib.plain (sortHostsAndAddresses Lib.plain (twoTargets [0, 1] [0, 1]))
            emptyRing.points →
          Covers (afterHostUpdate Lib.plain (twoTargets [0, 1] [0, 1])) built) :=
  afterHostUpdate_covers Lib.plain rfl

/-! ## More addresses than points -/

/-- One target with `n` addresses of weight 1. -/
def crowd (n : Nat) : Balancer where
  address := fun a => ⟨"10.0.0.1", a, 1, 0, .ipv4, none, true, false, none⟩
  made := n
  target := fun _ => ⟨"example.com", 80, 1, List.range n, n, 0, none, none⟩
  targets := [0]
  totalWeight := n
  unavailableWeight := 0
  healthy := true
  healthThreshold := 0
  useSRVname := false
  requeryInterval := 30000
  ttl0Interval := 60000
  algorithm := none
  draws := 0

theorem crowd_not_covered (lib : Lib) {points n : Nat} (hpoints : minContinuumSize ≤ points)
    (hmax : points ≤ maxContinuumSize) (hcrowd : points < n) :
    ∃ built, (newAlgorithm lib (.consistentHashing points) (crowd n)).algorithm
        = some (.consistentHashing built)
      ∧ built.points = points
      ∧ ¬ Covers (newAlgorithm lib (.consistentHashing points) (crowd n)) built := by
  have hrearranged := afterHostUpdate_rearranged lib
    { crowd n with algorithm := some (AlgorithmType.consistentHashing points).empty }
  obtain ⟨built, halgorithm, hsize, -⟩ := @afterHostUpdate_covers lib
    { crowd n with algorithm := some (AlgorithmType.consistentHashing points).empty } _ rfl
  have hsize' : built.points = points := by rw [hsize, if_pos ⟨hpoints, hmax⟩]
  have hperm : (newAlgorithm lib (.consistentHashing points) (crowd n)).allAddresses.Perm
      (List.range n) := by
    have hall := hrearranged.allAddresses
    rwa [show Balancer.allAddresses { crowd n with
        algorithm := some (AlgorithmType.consistentHashing points).empty } = List.range n from
      List.append_nil _] at hall
  refine ⟨built, halgorithm, hsize', fun hcovers => ?_⟩
  have hlength := hcovers.length_le (hperm.nodup_iff.mpr List.nodup_range) fun a _ => by
    rw [newAlgorithm, hrearranged.weight]
    exact Nat.one_pos
  rw [hperm.length_eq, List.length_range, hsize'] at hlength
  omega

/-- A thousand points are accepted, and 1001 addresses do not fit. -/
theorem thousand_points_not_covered :
    ∃ built, (newAlgorithm Lib.plain (.consistentHashing 1000) (crowd 1001)).algorithm
        = some (.consistentHashing built)
      ∧ built.points = 1000
      ∧ ¬ Covers (newAlgorithm Lib.plain (.consistentHashing 1000) (crowd 1001)) built :=
  crowd_not_covered Lib.plain (by decide) (by decide) (by decide)

end KongGateway.Kong.Balancers

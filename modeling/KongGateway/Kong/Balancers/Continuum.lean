import KongGateway.Kong.Balancers.HostUpdate
import KongGateway.Kong.Balancers.SortKeys
import Mathlib.Data.Multiset.MapFold
import Mathlib.Data.Prod.Lex

/-!
# Continuum — the order of the targets does not count

A collision moves an entry forward, so where an address ends up depends
on all addresses placed before it. The two sorts put the targets and
their addresses into one order first: two lists of the same content,
with keys that differ, sort to the same content. The addresses of the
two balancers need not be the same tables; they are compared by what
can be seen of them.
-/

namespace KongGateway.Kong.Balancers

open LuaStd

/-! ## What is listed -/

/-- The target, ip and port of an address. -/
abbrev Spot := (String × Nat) × String × Nat

namespace Balancer

def targetKey (b : Balancer) (t : TargetId) : String × Nat :=
  ((b.target t).name, (b.target t).port)

def spot (b : Balancer) (a : AddressId) : Spot :=
  (b.targetKey (b.address a).target, (b.address a).ip, (b.address a).port)

/-- What a build of the continuum reads of an address. -/
def listed (b : Balancer) (a : AddressId) : Spot × Nat := (b.spot a, (b.address a).weight)

/-- A target and the set of its addresses. -/
def listedTarget (b : Balancer) (t : TargetId) : (String × Nat) × Multiset (Spot × Nat) :=
  (b.targetKey t, ((b.target t).addresses.map b.listed : List (Spot × Nat)))

end Balancer

/-- The targets of two balancers, and the addresses of each, are the
same in some order. -/
structure Relisted (b b' : Balancer) : Prop where
  targets : (b.targets.map b.listedTarget).Perm (b'.targets.map b'.listedTarget)
  totalWeight : b'.totalWeight = b.totalWeight

/-- No two targets have one name and port, no two addresses of a target
one ip and port. -/
structure Distinct (b : Balancer) : Prop where
  targets : (b.targets.map b.targetKey).Nodup
  addresses : ∀ t ∈ b.targets,
    ((b.target t).addresses.map fun a => ((b.address a).ip, (b.address a).port)).Nodup

/-! ## One content, one order -/

/-- The key the addresses are sorted by. -/
def addressKey (ip : String) (port : Nat) : String := ip ++ ":" ++ toString port

theorem addressKey_inj {ip ip' : String} {port port' : Nat}
    (h : addressKey ip port = addressKey ip' port') : ip = ip' ∧ port = port' := by
  have hchars := congrArg String.toList h
  simp only [addressKey, String.toList_append, List.append_assoc] at hchars
  obtain ⟨hip, hport⟩ := append_sep_inj hchars (colon_not_mem_toString port)
    (colon_not_mem_toString port')
  exact ⟨String.toList_injective hip, toString_nat_inj (String.toList_injective hport)⟩

section Order

variable (lib : Lib) {b b' : Balancer}

/-- The key the targets are sorted by. -/
def sortedBy (entry : (String × Nat) × Multiset (Spot × Nat)) : String ×ₗ Nat := toLex entry.1

theorem sortHostsAndAddresses_targets (h : Relisted b b') (hdistinct : Distinct b) :
    (sortHostsAndAddresses lib b).targets.map b.listedTarget
      = (sortHostsAndAddresses lib b').targets.map b'.listedTarget := by
  refine sort_map_eq lib.tables sortedBy ?_ ?_ h.targets ?_
  · intro s _ t _
    simp [sortedBy, Balancer.listedTarget, Balancer.targetKey, Prod.Lex.toLex_lt_toLex]
  · intro s _ t _
    simp [sortedBy, Balancer.listedTarget, Balancer.targetKey, Prod.Lex.toLex_lt_toLex]
  · intro u hu v hv hkey
    obtain ⟨s, hs, rfl⟩ := List.mem_map.mp hu
    obtain ⟨t, ht, rfl⟩ := List.mem_map.mp hv
    rw [List.inj_on_of_nodup_map hdistinct.targets hs ht (toLex.injective hkey)]

theorem sortHostsAndAddresses_addresses {t t' : TargetId} (ht : t ∈ b.targets)
    (ht' : t' ∈ b'.targets) (h : b.listedTarget t = b'.listedTarget t')
    (hdistinct : Distinct b) :
    ((sortHostsAndAddresses lib b).target t).addresses.map b.listed
      = ((sortHostsAndAddresses lib b').target t').addresses.map b'.listed := by
  have hperm := Multiset.coe_eq_coe.mp (Prod.mk.inj h).2
  simp only [sortHostsAndAddresses, ht, ht', if_true]
  refine sort_map_eq lib.tables (fun entry : Spot × Nat => addressKey entry.1.2.1 entry.1.2.2)
    ?_ ?_ hperm ?_
  · intro x _ y _
    exact decide_eq_true_iff
  · intro x _ y _
    exact decide_eq_true_iff
  · intro u hu v hv hkey
    obtain ⟨x, hx, rfl⟩ := List.mem_map.mp hu
    obtain ⟨y, hy, rfl⟩ := List.mem_map.mp hv
    obtain ⟨hip, hport⟩ := addressKey_inj hkey
    rw [List.inj_on_of_nodup_map (hdistinct.addresses t ht) hx hy (Prod.ext hip hport)]

theorem sortHostsAndAddresses_allAddresses (h : Relisted b b') (hdistinct : Distinct b) :
    (sortHostsAndAddresses lib b).allAddresses.map b.listed
      = (sortHostsAndAddresses lib b').allAddresses.map b'.listed := by
  have hmem : ∀ t ∈ (sortHostsAndAddresses lib b).targets, t ∈ b.targets :=
    fun t ht => (lib.tables.perm _ _).mem_iff.mp ht
  have hmem' : ∀ t ∈ (sortHostsAndAddresses lib b').targets, t ∈ b'.targets :=
    fun t ht => (lib.tables.perm _ _).mem_iff.mp ht
  have htargets := sortHostsAndAddresses_targets lib h hdistinct
  rw [Balancer.allAddresses, Balancer.allAddresses, List.map_flatMap, List.map_flatMap]
  revert hmem hmem' htargets
  generalize (sortHostsAndAddresses lib b).targets = ts
  generalize (sortHostsAndAddresses lib b').targets = ts'
  induction ts generalizing ts' with
  | nil =>
    intro _ _ htargets
    rw [List.map_eq_nil_iff.mp htargets.symm]
    rfl
  | cons t rest ih =>
    intro hmem hmem' htargets
    cases ts' with
    | nil => cases htargets
    | cons t' rest' =>
      rw [List.map_cons, List.map_cons, List.cons.injEq] at htargets
      rw [List.flatMap_cons, List.flatMap_cons,
        sortHostsAndAddresses_addresses lib (hmem t List.mem_cons_self)
          (hmem' t' List.mem_cons_self) htargets.1 hdistinct,
        ih rest' (fun s hs => hmem s (List.mem_cons_of_mem t hs))
          (fun s hs => hmem' s (List.mem_cons_of_mem t' hs)) htargets.2]

end Order

/-! ## Two builds side by side -/

/-- Two continua assign the same spots. -/
def SameSpots (b b' : Balancer) (continuum continuum' : Nat → Option AddressId) : Prop :=
  ∀ index, (continuum index).map b.spot = (continuum' index).map b'.spot

section Build

variable (lib : Lib) {b b' : Balancer}

theorem SameSpots.update {continuum continuum' : Nat → Option AddressId}
    (h : SameSpots b b' continuum continuum') {a a' : AddressId} (hspot : b.spot a = b'.spot a')
    (index : Nat) :
    SameSpots b b' (Function.update continuum index (some a))
      (Function.update continuum' index (some a')) := by
  intro i
  by_cases hi : i = index
  · subst hi
    simp [hspot]
  · rw [Function.update_of_ne hi, Function.update_of_ne hi]
    exact h i

theorem SameSpots.isSome {continuum continuum' : Nat → Option AddressId}
    (h : SameSpots b b' continuum continuum') (index : Nat) :
    (continuum index).isSome = (continuum' index).isSome := by
  have := congrArg Option.isSome (h index)
  simpa using this

theorem placeAddress_sameSpots (points : Nat) (label : String) {a a' : AddressId}
    (hspot : b.spot a = b'.spot a') (fuel i entries : Nat)
    {continuum continuum' : Nat → Option AddressId} (h : SameSpots b b' continuum continuum') :
    Option.Rel (SameSpots b b') (placeAddress lib points label a fuel i entries continuum)
      (placeAddress lib points label a' fuel i entries continuum') := by
  induction fuel generalizing i entries continuum continuum' with
  | zero => exact .some h
  | succ fuel ih =>
    rw [placeAddress, placeAddress]
    split
    · dsimp only
      rw [← h.isSome]
      split
      · exact .none
      · apply ih
        split
        · exact h
        · exact h.update hspot _
    · exact .some h

theorem foldlM_sameSpots {points : Nat} (hcount : b'.targets.length = b.targets.length)
    (htotal : b'.totalWeight = b.totalWeight) {as as' : List AddressId}
    (has : as.map b.listed = as'.map b'.listed) {continuum continuum' : Nat → Option AddressId}
    (h : SameSpots b b' continuum continuum') :
    Option.Rel (SameSpots b b')
      (as.foldlM (fun continuum a => placeAddress lib points
        ((b.address a).ip ++ ":" ++ (":" ++ toString (b.address a).port) ++ " ") a (points + 1) 1
        (pointsOf lib b a) continuum) continuum)
      (as'.foldlM (fun continuum a => placeAddress lib points
        ((b'.address a).ip ++ ":" ++ (":" ++ toString (b'.address a).port) ++ " ") a (points + 1) 1
        (pointsOf lib b' a) continuum) continuum') := by
  induction as generalizing as' continuum continuum' with
  | nil =>
    rw [List.map_eq_nil_iff.mp has.symm]
    exact .some h
  | cons a rest ih =>
    cases as' with
    | nil => cases has
    | cons a' rest' =>
      rw [List.map_cons, List.map_cons, List.cons.injEq] at has
      obtain ⟨hspot, hweight⟩ := Prod.mk.inj has.1
      obtain ⟨hip, hport⟩ := Prod.mk.inj (Prod.mk.inj hspot).2
      have hpoints : pointsOf lib b' a' = pointsOf lib b a := by
        rw [pointsOf, pointsOf, ← hweight, hcount, htotal]
      rw [List.foldlM_cons, List.foldlM_cons, ← hip, ← hport, hpoints]
      have hstep := placeAddress_sameSpots lib points
        ((b.address a).ip ++ ":" ++ (":" ++ toString (b.address a).port) ++ " ") hspot
        (points + 1) 1 (pointsOf lib b a) h
      revert hstep
      generalize placeAddress lib points _ a _ _ _ _ = built
      generalize placeAddress lib points _ a' _ _ _ _ = built'
      intro hstep
      cases hstep with
      | none => exact .none
      | some hsame => exact ih has.2 hsame

theorem sortHostsAndAddresses_spot (b : Balancer) (a : AddressId) :
    (sortHostsAndAddresses lib b).spot a = b.spot a := by
  rw [Balancer.spot, Balancer.spot, Balancer.targetKey, Balancer.targetKey]
  simp only [sortHostsAndAddresses]
  split <;> rfl

theorem newContinuum_sameSpots (points : Nat) (h : Relisted b b') (hdistinct : Distinct b) :
    Option.Rel (SameSpots b b') (newContinuum lib (sortHostsAndAddresses lib b) points)
      (newContinuum lib (sortHostsAndAddresses lib b') points) := by
  have hspots : SameSpots (sortHostsAndAddresses lib b) (sortHostsAndAddresses lib b')
      = SameSpots b b' := by
    funext continuum continuum'
    rw [SameSpots, SameSpots, funext (sortHostsAndAddresses_spot lib b),
      funext (sortHostsAndAddresses_spot lib b')]
  have hlisted : ∀ b : Balancer, (sortHostsAndAddresses lib b).listed = b.listed := by
    intro b
    funext a
    rw [Balancer.listed, Balancer.listed, sortHostsAndAddresses_spot]
    rfl
  have hlength := h.targets.length_eq
  rw [List.length_map, List.length_map] at hlength
  rw [newContinuum, newContinuum, ← hspots]
  have hempty : SameSpots (sortHostsAndAddresses lib b) (sortHostsAndAddresses lib b')
      (fun _ => none) fun _ => none := fun index => rfl
  have htotal : (sortHostsAndAddresses lib b').totalWeight
      = (sortHostsAndAddresses lib b).totalWeight := h.totalWeight
  refine foldlM_sameSpots lib ?_ htotal ?_ hempty
  · exact (lib.tables.perm _ _).length_eq.trans (hlength.symm.trans
      (lib.tables.perm _ _).length_eq.symm)
  · rw [hlisted, hlisted]
    exact sortHostsAndAddresses_allAddresses lib h hdistinct

theorem consistentHashingAfterHostUpdate_spot (self : ConsistentHashing) (b : Balancer) :
    (consistentHashingAfterHostUpdate lib self b).spot = b.spot := by
  funext a
  rw [consistentHashingAfterHostUpdate]
  split
  · exact sortHostsAndAddresses_spot lib b a
  · exact sortHostsAndAddresses_spot lib b a

end Build

/-- Whatever the order of the targets and of their addresses, the
continua that are built assign the same target, ip and port to every
index. Where there are too many points neither is built, and both
balancers keep what they had. -/
theorem afterHostUpdate_order_independent (lib : Lib) {b b' : Balancer}
    {self self' : ConsistentHashing} (halgorithm : b.algorithm = some (.consistentHashing self))
    (halgorithm' : b'.algorithm = some (.consistentHashing self'))
    (hpoints : self'.points = self.points) (hrelisted : Relisted b b') (hdistinct : Distinct b) :
    ∃ built built' : ConsistentHashing,
      (afterHostUpdate lib b).algorithm = some (.consistentHashing built)
        ∧ (afterHostUpdate lib b').algorithm = some (.consistentHashing built')
        ∧ ((newContinuum lib (sortHostsAndAddresses lib b) self.points = none
              ∧ newContinuum lib (sortHostsAndAddresses lib b') self'.points = none
              ∧ built = self ∧ built' = self')
            ∨ ∀ index, (built.continuum index).map (afterHostUpdate lib b).spot
              = (built'.continuum index).map (afterHostUpdate lib b').spot) := by
  have hbuilt := newContinuum_sameSpots lib self.points hrelisted hdistinct
  have hafter : afterHostUpdate lib b = consistentHashingAfterHostUpdate lib self b := by
    rw [afterHostUpdate, halgorithm]
  have hafter' : afterHostUpdate lib b' = consistentHashingAfterHostUpdate lib self' b' := by
    rw [afterHostUpdate, halgorithm']
  rw [hafter, hafter', consistentHashingAfterHostUpdate_spot, consistentHashingAfterHostUpdate_spot,
    consistentHashingAfterHostUpdate, consistentHashingAfterHostUpdate, hpoints]
  revert hbuilt
  generalize newContinuum lib (sortHostsAndAddresses lib b) self.points = continuum
  generalize newContinuum lib (sortHostsAndAddresses lib b') self.points = continuum'
  intro hbuilt
  cases hbuilt with
  | none => exact ⟨self, self', rfl, rfl, .inl ⟨rfl, rfl, rfl, rfl⟩⟩
  | some hsame => exact ⟨_, _, rfl, rfl, .inr hsame⟩

/-! ## Two orders of one set -/

def emptyRing : ConsistentHashing := ⟨1000, fun _ => none⟩

/-- Two targets, one of them with two addresses; the lists are the
parameters. -/
def twoTargets (targets : List TargetId) (addresses : List AddressId) : Balancer where
  address := fun a =>
    ⟨if a = 1 then "10.0.0.2" else "10.0.0.1", 80, 10, if a = 2 then 1 else 0, .ipv4, none, true,
      false, none⟩
  made := 3
  target := fun t => ⟨if t = 0 then "a.example" else "b.example", 80, 10,
    if t = 0 then addresses else [2], if t = 0 then 20 else 10, 0, none, none⟩
  targets := targets
  totalWeight := 30
  unavailableWeight := 0
  healthy := true
  healthThreshold := 0
  useSRVname := false
  requeryInterval := 30000
  ttl0Interval := 60000
  algorithm := some (.consistentHashing emptyRing)
  draws := 0

theorem twoTargets_relisted : Relisted (twoTargets [0, 1] [0, 1]) (twoTargets [1, 0] [1, 0]) where
  targets := by
    have hswap : (twoTargets [0, 1] [0, 1]).listedTarget 0
        = (twoTargets [1, 0] [1, 0]).listedTarget 0 :=
      Prod.ext rfl (Multiset.coe_eq_coe.mpr (List.Perm.swap _ _ _))
    have hlists : (twoTargets [0, 1] [0, 1]).targets.map (twoTargets [0, 1] [0, 1]).listedTarget
        = [(twoTargets [1, 0] [1, 0]).listedTarget 0,
          (twoTargets [1, 0] [1, 0]).listedTarget 1] := by
      rw [← hswap]
      rfl
    rw [hlists]
    exact List.Perm.swap _ _ _
  totalWeight := rfl

theorem twoTargets_distinct : Distinct (twoTargets [0, 1] [0, 1]) := by
  refine ⟨by decide, fun t ht => ?_⟩
  rcases List.mem_pair.mp ht with rfl | rfl
  · decide
  · decide

theorem afterHostUpdate_two_orders :
    ∃ built built' : ConsistentHashing,
      (afterHostUpdate Lib.plain (twoTargets [0, 1] [0, 1])).algorithm
          = some (.consistentHashing built)
        ∧ (afterHostUpdate Lib.plain (twoTargets [1, 0] [1, 0])).algorithm
          = some (.consistentHashing built')
        ∧ ((newContinuum Lib.plain
                (sortHostsAndAddresses Lib.plain (twoTargets [0, 1] [0, 1])) emptyRing.points = none
              ∧ newContinuum Lib.plain
                (sortHostsAndAddresses Lib.plain (twoTargets [1, 0] [1, 0])) emptyRing.points = none
              ∧ built = emptyRing ∧ built' = emptyRing)
            ∨ ∀ index, (built.continuum index).map
                (afterHostUpdate Lib.plain (twoTargets [0, 1] [0, 1])).spot
              = (built'.continuum index).map
                (afterHostUpdate Lib.plain (twoTargets [1, 0] [1, 0])).spot) :=
  afterHostUpdate_order_independent Lib.plain rfl rfl rfl twoTargets_relisted twoTargets_distinct

end KongGateway.Kong.Balancers

import KongGateway.Kong.Balancers
import Mathlib.Data.List.Perm.Basic

/-!
# HostUpdate — what `afterHostUpdate` leaves alone

The algorithms rebuild their own structures. On the way they sort the
targets and the addresses of a target (consistent hashing), count
connections (least connections) and write the total weight (round
robin); everything else of the balancer stays.
-/

namespace KongGateway.Kong.Balancers

/-- The second balancer is the first one in another order: the
algorithm, the connection counts, the random draws and the total weight
apart, which is as before or summed up again. -/
structure Rearranged (b b' : Balancer) : Prop where
  address : ∀ a, { b'.address a with connectionCount := (b.address a).connectionCount } = b.address a
  target : ∀ t, { b'.target t with addresses := (b.target t).addresses } = b.target t
  addresses : ∀ t, (b'.target t).addresses.Perm (b.target t).addresses
  targets : b'.targets.Perm b.targets
  made : b'.made = b.made
  totalWeight : b'.totalWeight = b.totalWeight
    ∨ b'.totalWeight = ((b.allAddresses.map fun a => (b.address a).weight).sum : Nat)
  unavailableWeight : b'.unavailableWeight = b.unavailableWeight
  healthy : b'.healthy = b.healthy
  healthThreshold : b'.healthThreshold = b.healthThreshold
  useSRVname : b'.useSRVname = b.useSRVname

namespace Rearranged

variable {b b' : Balancer}

theorem of_algorithm (b : Balancer) (algorithm : Option Algorithm) (draws : Nat) :
    Rearranged b { b with algorithm := algorithm, draws := draws } where
  address := fun _ => rfl
  target := fun _ => rfl
  addresses := fun _ => .refl _
  targets := .refl _
  made := rfl
  totalWeight := .inl rfl
  unavailableWeight := rfl
  healthy := rfl
  healthThreshold := rfl
  useSRVname := rfl

theorem weight (h : Rearranged b b') (a : AddressId) :
    (b'.address a).weight = (b.address a).weight := (congrArg Address.weight (h.address a) :)

theorem ip (h : Rearranged b b') (a : AddressId) : (b'.address a).ip = (b.address a).ip :=
  (congrArg Address.ip (h.address a) :)

theorem port (h : Rearranged b b') (a : AddressId) : (b'.address a).port = (b.address a).port :=
  (congrArg Address.port (h.address a) :)

theorem owner (h : Rearranged b b') (a : AddressId) :
    (b'.address a).target = (b.address a).target := (congrArg Address.target (h.address a) :)

theorem available (h : Rearranged b b') (a : AddressId) :
    (b'.address a).available = (b.address a).available := (congrArg Address.available (h.address a) :)

theorem disabled (h : Rearranged b b') (a : AddressId) :
    (b'.address a).disabled = (b.address a).disabled := (congrArg Address.disabled (h.address a) :)

theorem targetTotal (h : Rearranged b b') (t : TargetId) :
    (b'.target t).totalWeight = (b.target t).totalWeight :=
  (congrArg Target.totalWeight (h.target t) :)

theorem targetUnavailable (h : Rearranged b b') (t : TargetId) :
    (b'.target t).unavailableWeight = (b.target t).unavailableWeight :=
  (congrArg Target.unavailableWeight (h.target t) :)

theorem targetPort (h : Rearranged b b') (t : TargetId) :
    (b'.target t).port = (b.target t).port := (congrArg Target.port (h.target t) :)

theorem targetWeight (h : Rearranged b b') (t : TargetId) :
    (b'.target t).weight = (b.target t).weight := (congrArg Target.weight (h.target t) :)

theorem lastSorted (h : Rearranged b b') (t : TargetId) :
    (b'.target t).lastSorted = (b.target t).lastSorted := (congrArg Target.lastSorted (h.target t) :)

theorem allAddresses (h : Rearranged b b') : b'.allAddresses.Perm b.allAddresses :=
  h.targets.flatMap fun t _ => h.addresses t

end Rearranged

/-! ## The four algorithms -/

theorem roundRobinAfterHostUpdate_rearranged (lib : Lib) (self : RoundRobin) (b : Balancer) :
    Rearranged b (roundRobinAfterHostUpdate lib self b) := by
  rw [roundRobinAfterHostUpdate]
  split
  · exact ⟨fun _ => rfl, fun _ => rfl, fun _ => .refl _, .refl _, rfl, .inr rfl, rfl, rfl, rfl, rfl⟩
  · exact ⟨fun _ => rfl, fun _ => rfl, fun _ => .refl _, .refl _, rfl, .inr rfl, rfl, rfl, rfl, rfl⟩

theorem sortHostsAndAddresses_rearranged (lib : Lib) (b : Balancer) :
    Rearranged b (sortHostsAndAddresses lib b) where
  address := fun _ => rfl
  target := by
    intro t
    by_cases ht : t ∈ b.targets
    · simp [sortHostsAndAddresses, ht]
    · simp [sortHostsAndAddresses, ht]
  addresses := by
    intro t
    by_cases ht : t ∈ b.targets
    · simp only [sortHostsAndAddresses, ht, if_true]
      exact lib.tables.perm _ _
    · simp [sortHostsAndAddresses, ht]
  targets := lib.tables.perm _ _
  made := rfl
  totalWeight := .inl rfl
  unavailableWeight := rfl
  healthy := rfl
  healthThreshold := rfl
  useSRVname := rfl

theorem consistentHashingAfterHostUpdate_rearranged (lib : Lib) (self : ConsistentHashing)
    (b : Balancer) : Rearranged b (consistentHashingAfterHostUpdate lib self b) := by
  have h := sortHostsAndAddresses_rearranged lib b
  rw [consistentHashingAfterHostUpdate]
  split
  · exact ⟨h.address, h.target, h.addresses, h.targets, rfl, .inl rfl, rfl, rfl, rfl, rfl⟩
  · exact ⟨h.address, h.target, h.addresses, h.targets, rfl, .inl rfl, rfl, rfl, rfl, rfl⟩

/-- Connections are counted in the addresses, and nothing else
changes. -/
theorem foldl_insertAddr (as : List AddressId) (b : Balancer)
    (heap : List (HeapValue × AddressId)) :
    ∃ address, (as.foldl (fun (b, heap) a => insertAddr b heap a) (b, heap)).1
        = { b with address := address }
      ∧ ∀ a, { address a with connectionCount := (b.address a).connectionCount } = b.address a := by
  induction as generalizing b heap with
  | nil => exact ⟨b.address, rfl, fun _ => rfl⟩
  | cons a rest ih =>
    rw [List.foldl_cons]
    obtain ⟨heap', hinsert⟩ : ∃ heap', insertAddr b heap a
        = (b.modifyAddress a fun address => { address with
          connectionCount := some ((b.address a).connectionCount.getD 0) }, heap') := by
      rw [insertAddr]
      split
      · exact ⟨_, rfl⟩
      · exact ⟨_, rfl⟩
    obtain ⟨address, hfold, hkeeps⟩ := ih (b.modifyAddress a fun address => { address with
      connectionCount := some ((b.address a).connectionCount.getD 0) }) heap'
    refine ⟨address, ?_, ?_⟩
    · dsimp only
      rw [hinsert, hfold]
      rfl
    · intro a'
      have hkeep := hkeeps a'
      rw [Balancer.modifyAddress] at hkeep
      dsimp only at hkeep
      by_cases heq : a' = a
      · subst heq
        rw [Function.update_self] at hkeep
        have := congrArg (fun x : Address => { x with
          connectionCount := (b.address a').connectionCount }) hkeep
        exact this
      · rwa [Function.update_of_ne heq] at hkeep

theorem leastConnectionsAfterHostUpdate_rearranged (b : Balancer) :
    Rearranged b (leastConnectionsAfterHostUpdate b) := by
  obtain ⟨address, hfold, hkeeps⟩ := foldl_insertAddr b.allAddresses b []
  have heq : leastConnectionsAfterHostUpdate b = { b with
      address := address
      algorithm := (leastConnectionsAfterHostUpdate b).algorithm } := by
    simp only [leastConnectionsAfterHostUpdate, hfold]
  rw [heq]
  exact ⟨hkeeps, fun _ => rfl, fun _ => .refl _, .refl _, rfl, .inl rfl, rfl, rfl, rfl, rfl⟩

theorem latencyAfterHostUpdate_rearranged (self : Latency) (b : Balancer) :
    Rearranged b (latencyAfterHostUpdate self b) := by
  rw [latencyAfterHostUpdate]
  split
  · exact .of_algorithm b _ b.draws
  · exact .of_algorithm b _ b.draws

theorem afterHostUpdate_rearranged (lib : Lib) (b : Balancer) :
    Rearranged b (afterHostUpdate lib b) := by
  rw [afterHostUpdate]
  split
  · exact .of_algorithm b b.algorithm b.draws
  · exact roundRobinAfterHostUpdate_rearranged lib _ b
  · exact consistentHashingAfterHostUpdate_rearranged lib _ b
  · exact leastConnectionsAfterHostUpdate_rearranged b
  · exact latencyAfterHostUpdate_rearranged _ b

end KongGateway.Kong.Balancers

import KongGateway.Kong.Balancers.Placement
import KongGateway.Kong.Balancers.Steps

/-!
# Rebuild — a build that is repeated

A build of the continuum reads names, ips, ports, weights and totals. As
long as these are what they were, the next build gives the continuum
there is, given that the lists sort to one order: two addresses of a
target with one ip and port may change places with every sort.
-/

namespace KongGateway.Kong.Balancers

open LuaStd

/-! ## What a build reads -/

/-- The second balancer gives a build the same to read, in some order. -/
structure SameInputs (b b' : Balancer) : Prop where
  key : ∀ t, b'.targetKey t = b.targetKey t
  ip : ∀ a, (b'.address a).ip = (b.address a).ip
  port : ∀ a, (b'.address a).port = (b.address a).port
  weight : ∀ a, (b'.address a).weight = (b.address a).weight
  targets : b'.targets.Perm b.targets
  addresses : ∀ t, (b'.target t).addresses.Perm (b.target t).addresses
  totalWeight : b'.totalWeight = b.totalWeight

section Inputs

variable (lib : Lib) {b b' b'' : Balancer}

theorem SameInputs.trans (h : SameInputs b b') (h' : SameInputs b' b'') : SameInputs b b'' where
  key t := (h'.key t).trans (h.key t)
  ip a := (h'.ip a).trans (h.ip a)
  port a := (h'.port a).trans (h.port a)
  weight a := (h'.weight a).trans (h.weight a)
  targets := h'.targets.trans h.targets
  addresses t := (h'.addresses t).trans (h.addresses t)
  totalWeight := h'.totalWeight.trans h.totalWeight

theorem SameInputs.symm (h : SameInputs b b') : SameInputs b' b where
  key t := (h.key t).symm
  ip a := (h.ip a).symm
  port a := (h.port a).symm
  weight a := (h.weight a).symm
  targets := h.targets.symm
  addresses t := (h.addresses t).symm
  totalWeight := h.totalWeight.symm

theorem SameInputs.of_rearranged (h : Rearranged b b') (htotal : b'.totalWeight = b.totalWeight) :
    SameInputs b b' where
  key t := Prod.ext (congrArg Target.name (h.target t) :) (h.targetPort t)
  ip := h.ip
  port := h.port
  weight := h.weight
  targets := h.targets
  addresses := h.addresses
  totalWeight := htotal

theorem SameInputs.of_target {t : TargetId} {f : Target → Target}
    (hkey : (f (b.target t)).name = (b.target t).name ∧ (f (b.target t)).port = (b.target t).port)
    (haddresses : (f (b.target t)).addresses.Perm (b.target t).addresses) :
    SameInputs b (b.modifyTarget t f) where
  key t' := by
    rw [Balancer.targetKey, Balancer.targetKey, Balancer.modifyTarget]
    by_cases heq : t' = t
    · subst heq
      simp [hkey.1, hkey.2]
    · simp [heq]
  ip _ := rfl
  port _ := rfl
  weight _ := rfl
  targets := .refl _
  addresses t' := by
    rw [Balancer.modifyTarget]
    by_cases heq : t' = t
    · subst heq
      simpa using haddresses
    · simp [heq]
  totalWeight := rfl

theorem SameInputs.markDisabled (b : Balancer) (a : AddressId) :
    SameInputs b (markDisabled b a) where
  key _ := rfl
  ip a' := (markDisabled_address b a a').2.2.2.1
  port a' := (markDisabled_address b a a').2.2.2.2
  weight a' := (markDisabled_address b a a').2.1
  targets := .refl _
  addresses _ := .refl _
  totalWeight := rfl

theorem SameInputs.restatus (b : Balancer) (a : AddressId) (available : Bool) :
    SameInputs b (updateStatus (reprice b a (b.address a).weight available)) where
  key t := by
    rw [Balancer.targetKey, Balancer.targetKey, updateStatus]
    by_cases heq : t = (b.address a).target
    · subst heq
      simp [reprice]
    · simp [reprice, heq]
  ip a' := (reprice_address b a _ available a').2.2.1
  port a' := (reprice_address b a _ available a').2.2.2
  weight a' := by
    by_cases heq : a' = a
    · subst heq
      exact (congrArg Address.weight (reprice_self b a' (b.address a').weight available) :)
    · exact congrArg Address.weight (reprice_of_ne b a _ available heq)
  targets := .refl _
  addresses t := by
    rw [updateStatus]
    exact .of_eq (reprice_target b a _ available t).1
  totalWeight := by
    rw [updateStatus, reprice]
    dsimp only
    omega

theorem SameInputs.targets_sorted (h : SameInputs b b') (hdistinct : Distinct b) :
    (sortHostsAndAddresses lib b').targets = (sortHostsAndAddresses lib b).targets := by
  have hname : ∀ t, (b'.target t).name = (b.target t).name := fun t => congrArg Prod.fst (h.key t)
  have hport : ∀ t, (b'.target t).port = (b.target t).port := fun t => congrArg Prod.snd (h.key t)
  simp only [sortHostsAndAddresses, hname, hport]
  refine (sort_eq_of_perm lib.tables (fun t => toLex (b.targetKey t)) ?_ h.targets.symm ?_).symm
  · intro s t
    simp [Balancer.targetKey, Prod.Lex.toLex_lt_toLex]
  · intro s hs t ht hkey
    exact List.inj_on_of_nodup_map hdistinct.targets hs ht (toLex.injective hkey)

theorem SameInputs.addresses_sorted (h : SameInputs b b') (hdistinct : Distinct b) {t : TargetId}
    (ht : t ∈ b.targets) :
    ((sortHostsAndAddresses lib b').target t).addresses
      = ((sortHostsAndAddresses lib b).target t).addresses := by
  simp only [sortHostsAndAddresses, h.targets.mem_iff, ht, if_true, h.ip, h.port]
  refine (sort_eq_of_perm lib.tables
    (fun a => addressKey (b.address a).ip (b.address a).port) ?_ (h.addresses t).symm ?_).symm
  · intro a a'
    exact decide_eq_true_iff
  · intro a ha a' ha' hkey
    obtain ⟨hip, hport⟩ := addressKey_inj hkey
    exact List.inj_on_of_nodup_map (hdistinct.addresses t ht) ha ha' (Prod.ext hip hport)

theorem SameInputs.newContinuum_eq (h : SameInputs b b') (hdistinct : Distinct b) (points : Nat) :
    newContinuum lib (sortHostsAndAddresses lib b') points
      = newContinuum lib (sortHostsAndAddresses lib b) points := by
  have htargets := h.targets_sorted lib hdistinct
  have hall : (sortHostsAndAddresses lib b').allAddresses
      = (sortHostsAndAddresses lib b).allAddresses := by
    rw [Balancer.allAddresses, Balancer.allAddresses, htargets, List.flatMap_def, List.flatMap_def]
    congr 1
    refine List.map_congr_left fun t ht => h.addresses_sorted lib hdistinct ?_
    exact (lib.tables.perm _ _).mem_iff.mp ht
  have hcount : (sortHostsAndAddresses lib b').targets.length
      = (sortHostsAndAddresses lib b).targets.length := by rw [htargets]
  have hstep : placeNext lib (sortHostsAndAddresses lib b') points
      = placeNext lib (sortHostsAndAddresses lib b) points := by
    funext continuum a
    have hip : ((sortHostsAndAddresses lib b').address a).ip
        = ((sortHostsAndAddresses lib b).address a).ip := h.ip a
    have hport : ((sortHostsAndAddresses lib b').address a).port
        = ((sortHostsAndAddresses lib b).address a).port := h.port a
    have hweight : ((sortHostsAndAddresses lib b').address a).weight
        = ((sortHostsAndAddresses lib b).address a).weight := h.weight a
    have htotal : (sortHostsAndAddresses lib b').totalWeight
        = (sortHostsAndAddresses lib b).totalWeight := h.totalWeight
    rw [placeNext, placeNext, labelOf, labelOf, pointsOf, pointsOf, hip, hport, hweight, htotal,
      hcount]
  rw [Balancers.newContinuum_eq, Balancers.newContinuum_eq, hall, hstep]

end Inputs

/-! ## The continuum is the one of the last build -/

/-- The continuum is the one that a build from what the balancer holds
gave, unless that was given up. -/
def Built (lib : Lib) (b : Balancer) : Prop :=
  ∀ self, b.algorithm = some (.consistentHashing self) →
    ∃ b₀, SameInputs b₀ b ∧ ∀ continuum,
      newContinuum lib (sortHostsAndAddresses lib b₀) self.points = some continuum →
        self.continuum = continuum

section Built

variable {lib : Lib} {b b' : Balancer}

theorem Built.of_same (h : Built lib b) (hsame : SameInputs b b')
    (halgorithm : b'.algorithm = b.algorithm) : Built lib b' := by
  intro self hself
  obtain ⟨b₀, hinputs, hbuilt⟩ := h self (halgorithm ▸ hself)
  exact ⟨b₀, hinputs.trans hsame, hbuilt⟩

theorem Built.continuum_eq (h : Built lib b) (hdistinct : Distinct b) {self : ConsistentHashing}
    (hself : b.algorithm = some (.consistentHashing self)) {continuum : Nat → Option AddressId}
    (hnew : newContinuum lib (sortHostsAndAddresses lib b) self.points = some continuum) :
    self.continuum = continuum := by
  obtain ⟨b₀, hinputs, hbuilt⟩ := h self hself
  exact hbuilt continuum ((hinputs.symm.newContinuum_eq lib hdistinct self.points).trans hnew)

theorem consistentHashingAfterHostUpdate_algorithm (self : ConsistentHashing) (b : Balancer) :
    ∃ built : ConsistentHashing,
      (consistentHashingAfterHostUpdate lib self b).algorithm = some (.consistentHashing built)
        ∧ built.points = self.points
        ∧ built.continuum = (newContinuum lib (sortHostsAndAddresses lib b) self.points).getD
          self.continuum := by
  rw [consistentHashingAfterHostUpdate]
  cases newContinuum lib (sortHostsAndAddresses lib b) self.points with
  | none => exact ⟨self, rfl, rfl, rfl⟩
  | some continuum => exact ⟨{ self with continuum := continuum }, rfl, rfl, rfl⟩

theorem afterHostUpdate_hashing {self : ConsistentHashing}
    (hself : b.algorithm = some (.consistentHashing self)) :
    afterHostUpdate lib b = consistentHashingAfterHostUpdate lib self b := by
  rw [afterHostUpdate, hself]

/-- The algorithm of a balancer hashes, over at least one point. -/
def Hashes (b : Balancer) : Prop :=
  ∃ self, b.algorithm = some (.consistentHashing self) ∧ 0 < self.points

theorem Hashes.afterHostUpdate (h : Hashes b) : Hashes (afterHostUpdate lib b) := by
  obtain ⟨self, hself, hpos⟩ := h
  obtain ⟨built, hbuilt, hpoints, -⟩ := @consistentHashingAfterHostUpdate_algorithm lib self b
  rw [afterHostUpdate_hashing hself]
  exact ⟨built, hbuilt, hpoints ▸ hpos⟩

theorem SameInputs.afterHostUpdate (h : Hashes b) : SameInputs b (afterHostUpdate lib b) := by
  obtain ⟨self, hself, -⟩ := h
  refine .of_rearranged (afterHostUpdate_rearranged lib b) ?_
  rw [afterHostUpdate_hashing hself, consistentHashingAfterHostUpdate]
  split
  · rfl
  · rfl

theorem Built.afterHostUpdate (h : Hashes b) : Built lib (afterHostUpdate lib b) := by
  have hsame := @SameInputs.afterHostUpdate lib b h
  obtain ⟨self, hself, -⟩ := h
  obtain ⟨built, hbuilt, hpoints, hcontinuum⟩ :=
    @consistentHashingAfterHostUpdate_algorithm lib self b
  intro self' hself'
  rw [afterHostUpdate_hashing hself, hbuilt] at hself'
  obtain rfl : built = self' := Algorithm.consistentHashing.inj (Option.some.inj hself')
  refine ⟨b, hsame, fun continuum hnew => ?_⟩
  rw [hcontinuum, ← hpoints, hnew]
  rfl

/-- A status change keeps the continuum: the build it asks for reads
what the last one read. -/
theorem setAddressStatus_algorithm (h : Built lib b) (hdistinct : Distinct b)
    {self : ConsistentHashing} (hself : b.algorithm = some (.consistentHashing self))
    (a : AddressId) (available : Bool) :
    (setAddressStatus lib b a available).2.algorithm = some (.consistentHashing self) := by
  refine setAddressStatus_induction lib
    (P := fun b => b.algorithm = some (.consistentHashing self)) hself fun _ _ => ?_
  have hinputs := SameInputs.restatus b a available
  have hself' : (updateStatus (reprice b a (b.address a).weight available)).algorithm
      = some (.consistentHashing self) := hself
  have hnew := hinputs.newContinuum_eq lib hdistinct self.points
  rw [afterHostUpdate_hashing hself', consistentHashingAfterHostUpdate, hnew]
  cases hbuild : newContinuum lib (sortHostsAndAddresses lib b) self.points with
  | none => rfl
  | some continuum => rw [← h.continuum_eq hdistinct hself hbuild]

end Built

/-! ## Steps of an update -/

section Steps

variable (lib : Lib) {b b' : Balancer} {t : TargetId}

theorem Hashes.of_algorithm (h : Hashes b) (halgorithm : b'.algorithm = b.algorithm) :
    Hashes b' := by
  rw [Hashes, halgorithm]
  exact h

theorem SameInputs.dropDisabled (h : ¬ (b.target t).addresses.any fun a => (b.address a).disabled) :
    SameInputs b (dropDisabled b t) := .of_target ⟨rfl, rfl⟩ (.of_eq (filter_enabled h))

/-- Every step of an update keeps the continuum that of the last
build. -/
theorem DnsStep.built (h : DnsStep lib t b b') (hb : Hashes b ∧ Built lib b) :
    Hashes b' ∧ Built lib b' := by
  obtain ⟨hhashes, hbuilt⟩ := hb
  have hafter : ∀ b, Hashes b → Hashes (afterHostUpdate lib b) ∧ Built lib (afterHostUpdate lib b) :=
    fun b hb => ⟨hb.afterHostUpdate, .afterHostUpdate hb⟩
  cases h with
  | add entry ht => exact hafter _ (hhashes.of_algorithm rfl)
  | reweigh weight ha henabled => exact hafter _ (hhashes.of_algorithm rfl)
  | @disable a ha =>
    obtain ⟨hhashes', hbuilt'⟩ := hafter
      (updateStatus (reprice b a 0 (b.address a).available)) (hhashes.of_algorithm rfl)
    exact ⟨hhashes'.of_algorithm rfl, hbuilt'.of_same (.markDisabled _ a) rfl⟩
  | remember query sorted =>
    exact ⟨hhashes.of_algorithm rfl, hbuilt.of_same (.of_target ⟨rfl, rfl⟩ (.refl _)) rfl⟩
  | finish =>
    obtain ⟨hhashes', hbuilt'⟩ := hafter b hhashes
    rw [deleteDisabledAddresses_eq]
    split
    · exact hafter _ (hhashes'.of_algorithm rfl)
    · rename_i hnone
      exact ⟨hhashes'.of_algorithm rfl, hbuilt'.of_same (.dropDisabled hnone) rfl⟩
  | prolong lastQuery =>
    exact ⟨hhashes.of_algorithm rfl, hbuilt.of_same (.of_target ⟨rfl, rfl⟩ (.refl _)) rfl⟩

end Steps

end KongGateway.Kong.Balancers

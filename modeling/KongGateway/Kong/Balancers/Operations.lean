import KongGateway.Kong.Balancers.HostUpdate
import Mathlib.Data.List.Nodup

/-!
# Operations — what the methods of a balancer change

Each method is a small change of the tables, followed by
`updateStatus` and `afterHostUpdate`. The changes are `withAddress`,
`reprice`, `markDisabled` and `dropDisabled`. `Registered` says that the
address lists are in order: every address is in the list of its own
target, unless it is disabled.
-/

namespace KongGateway.Kong.Balancers

/-! ## The changes -/

section Changes

variable (b : Balancer)

/-- A new address at the end of a target's list. -/
def withAddress (t : TargetId) (entry : Entry) : Balancer :=
  Balancer.modifyTarget
    { b with
      address := Function.update b.address b.made (newAddress b t entry)
      made := b.made + 1
      totalWeight := b.totalWeight + entryWeight (b.target t) entry } t fun target =>
    { target with
      addresses := target.addresses ++ [b.made]
      totalWeight := target.totalWeight + entryWeight (b.target t) entry }

/-- What an address adds to the unavailable weight. -/
def Address.unavailable (address : Address) : Int :=
  if address.available then 0 else address.weight

/-- An address gets another weight or another status, and the counters
move by the differences. -/
def reprice (a : AddressId) (weight : Nat) (available : Bool) : Balancer :=
  let old := b.address a
  let new : Address := { old with weight := weight, available := available }
  let delta : Int := weight - old.weight
  let unavailableDelta := new.unavailable - old.unavailable
  { b with
    address := Function.update b.address a new
    target := Function.update b.target old.target
      { b.target old.target with
        totalWeight := (b.target old.target).totalWeight + delta
        unavailableWeight := (b.target old.target).unavailableWeight + unavailableDelta }
    totalWeight := b.totalWeight + delta
    unavailableWeight := b.unavailableWeight + unavailableDelta }

def markDisabled (a : AddressId) : Balancer :=
  b.modifyAddress a fun addr => { addr with disabled := true }

/-- The disabled addresses leave a target's list. -/
def dropDisabled (t : TargetId) : Balancer :=
  b.modifyTarget t fun target =>
    { target with addresses := target.addresses.filter fun a => !(b.address a).disabled }

end Changes

/-! ## The methods -/

section Methods

variable (lib : Lib) {b : Balancer} {t : TargetId}

theorem findAddress_mem {entry : Entry} {a : AddressId} (h : findAddress b t entry = some a) :
    a ∈ (b.target t).addresses := List.mem_of_find?_eq_some h

theorem addAddress_eq (ht : t ∈ b.targets) (entry : Entry) :
    addAddress lib b t entry
      = (.ok (), afterHostUpdate lib (updateStatus (withAddress b t entry))) := by
  rw [addAddress, if_neg (not_not.mpr ht)]
  rfl

theorem changeWeight_eq {entry : Entry} {a : AddressId} (hfind : findAddress b t entry = some a)
    (howner : (b.address a).target = t) (newWeight : Nat) :
    changeWeight lib b t entry newWeight
      = (some a, afterHostUpdate lib (updateStatus
        (reprice b a newWeight (b.address a).available))) := by
  subst howner
  cases havailable : (b.address a).available with
  | false => simp [changeWeight, hfind, reprice, Balancer.modifyTarget, Balancer.modifyAddress,
      Address.unavailable, havailable]
  | true => simp [changeWeight, hfind, reprice, Balancer.modifyTarget, Balancer.modifyAddress,
      Address.unavailable, havailable]

theorem changeWeight_none {entry : Entry} (hfind : findAddress b t entry = none) (newWeight : Nat) :
    changeWeight lib b t entry newWeight = (none, b) := by
  rw [changeWeight, hfind]

theorem disableAddress_eq {entry : Entry} {a : AddressId} (hfind : findAddress b t entry = some a)
    (howner : (b.address a).target = t) :
    disableAddress lib b t entry
      = markDisabled (afterHostUpdate lib (updateStatus
        (reprice b a 0 (b.address a).available))) a := by
  rw [disableAddress, changeWeight_eq lib hfind howner]
  rfl

theorem disableAddress_none {entry : Entry} (hfind : findAddress b t entry = none) :
    disableAddress lib b t entry = b := by
  rw [disableAddress, changeWeight_none lib hfind]

theorem deleteDisabledAddresses_eq (b : Balancer) (t : TargetId) :
    deleteDisabledAddresses lib b t
      = if (b.target t).addresses.any fun a => (b.address a).disabled then
          afterHostUpdate lib (dropDisabled b t)
        else dropDisabled b t := rfl

theorem filter_enabled (h : ¬ (b.target t).addresses.any fun a => (b.address a).disabled) :
    ((b.target t).addresses.filter fun a => !(b.address a).disabled) = (b.target t).addresses := by
  refine List.filter_eq_self.mpr fun a ha => ?_
  cases hdisabled : (b.address a).disabled with
  | false => rfl
  | true => exact absurd (List.any_eq_true.mpr ⟨a, ha, hdisabled⟩) h

theorem setAddressStatus_eq {a : AddressId} {available : Bool}
    (hknown : a < b.made ∧ (b.address a).target ∈ b.targets)
    (hset : (b.address a).available ≠ available) :
    setAddressStatus lib b a available
      = (.ok none, afterHostUpdate lib (updateStatus
        (reprice b a (b.address a).weight available))) := by
  rw [setAddressStatus, if_neg (not_not.mpr hknown), if_neg hset]
  cases hold : (b.address a).available with
  | false =>
    obtain rfl : available = true := by simpa [hold] using hset
    simp [reprice, Address.unavailable, hold, Balancer.modifyAddress, Balancer.modifyTarget]
  | true =>
    obtain rfl : available = false := by simpa [hold] using hset
    simp [reprice, Address.unavailable, hold, Balancer.modifyAddress, Balancer.modifyTarget]

theorem setAddressStatus_of_not {a : AddressId} {available : Bool}
    (h : ¬ ((a < b.made ∧ (b.address a).target ∈ b.targets)
      ∧ (b.address a).available ≠ available)) : (setAddressStatus lib b a available).2 = b := by
  rw [setAddressStatus]
  by_cases hknown : a < b.made ∧ (b.address a).target ∈ b.targets
  · rw [if_neg (not_not.mpr hknown), if_pos (not_not.mp fun hset => h ⟨hknown, hset⟩)]
  · rw [if_pos hknown]

/-- `setAddressStatus` does nothing, or changes one mark and builds. -/
theorem setAddressStatus_induction {P : Balancer → Prop} {a : AddressId} {available : Bool}
    (hsame : P b)
    (hset : a < b.made ∧ (b.address a).target ∈ b.targets → (b.address a).available ≠ available →
      P (afterHostUpdate lib (updateStatus (reprice b a (b.address a).weight available)))) :
    P (setAddressStatus lib b a available).2 := by
  by_cases hchanges : (a < b.made ∧ (b.address a).target ∈ b.targets)
      ∧ (b.address a).available ≠ available
  · rw [setAddressStatus_eq lib hchanges.1 hchanges.2]
    exact hset hchanges.1 hchanges.2
  · rw [setAddressStatus_of_not lib hchanges]
    exact hsame

end Methods

/-! ## The fields after a change -/

section Fields

variable (b : Balancer)

theorem withAddress_of_ne {t : TargetId} (entry : Entry) {a : AddressId} (ha : a ≠ b.made) :
    (withAddress b t entry).address a = b.address a := Function.update_of_ne ha _ _

theorem withAddress_made (t : TargetId) (entry : Entry) :
    (withAddress b t entry).address b.made = newAddress b t entry := Function.update_self _ _ _

theorem withAddress_addresses (t : TargetId) (entry : Entry) (t' : TargetId) :
    ((withAddress b t entry).target t').addresses
      = if t' = t then (b.target t).addresses ++ [b.made] else (b.target t').addresses := by
  by_cases heq : t' = t
  · subst heq
    simp [withAddress, Balancer.modifyTarget]
  · simp [withAddress, Balancer.modifyTarget, heq]

theorem withAddress_target (t : TargetId) (entry : Entry) (t' : TargetId) :
    ((withAddress b t entry).target t').port = (b.target t').port
      ∧ ((withAddress b t entry).target t').weight = (b.target t').weight
      ∧ ((withAddress b t entry).target t').lastQuery = (b.target t').lastQuery
      ∧ ((withAddress b t entry).target t').lastSorted = (b.target t').lastSorted := by
  by_cases heq : t' = t
  · subst heq
    simp [withAddress, Balancer.modifyTarget]
  · simp [withAddress, Balancer.modifyTarget, heq]

variable (a : AddressId) (weight : Nat) (available : Bool)

theorem reprice_self : (reprice b a weight available).address a
    = { b.address a with weight := weight, available := available } := Function.update_self _ _ _

theorem reprice_of_ne {a' : AddressId} (h : a' ≠ a) :
    (reprice b a weight available).address a' = b.address a' := Function.update_of_ne h _ _

theorem reprice_address (a' : AddressId) :
    ((reprice b a weight available).address a').target = (b.address a').target
      ∧ ((reprice b a weight available).address a').disabled = (b.address a').disabled
      ∧ ((reprice b a weight available).address a').ip = (b.address a').ip
      ∧ ((reprice b a weight available).address a').port = (b.address a').port := by
  by_cases heq : a' = a
  · subst heq
    simp [reprice_self]
  · simp [reprice_of_ne b a weight available heq]

theorem reprice_target (t : TargetId) :
    ((reprice b a weight available).target t).addresses = (b.target t).addresses
      ∧ ((reprice b a weight available).target t).port = (b.target t).port
      ∧ ((reprice b a weight available).target t).weight = (b.target t).weight
      ∧ ((reprice b a weight available).target t).lastQuery = (b.target t).lastQuery
      ∧ ((reprice b a weight available).target t).lastSorted = (b.target t).lastSorted := by
  by_cases heq : t = (b.address a).target
  · subst heq
    simp [reprice]
  · simp [reprice, heq]

theorem markDisabled_self : (markDisabled b a).address a = { b.address a with disabled := true } :=
  Function.update_self _ _ _

theorem markDisabled_of_ne {a' : AddressId} (h : a' ≠ a) :
    (markDisabled b a).address a' = b.address a' := Function.update_of_ne h _ _

theorem markDisabled_address (a' : AddressId) :
    ((markDisabled b a).address a').target = (b.address a').target
      ∧ ((markDisabled b a).address a').weight = (b.address a').weight
      ∧ ((markDisabled b a).address a').available = (b.address a').available
      ∧ ((markDisabled b a).address a').ip = (b.address a').ip
      ∧ ((markDisabled b a).address a').port = (b.address a').port := by
  by_cases heq : a' = a
  · subst heq
    simp [markDisabled_self]
  · simp [markDisabled_of_ne b a heq]

theorem dropDisabled_addresses (t t' : TargetId) :
    ((dropDisabled b t).target t').addresses
      = if t' = t then (b.target t).addresses.filter fun a => !(b.address a).disabled
        else (b.target t').addresses := by
  by_cases heq : t' = t
  · subst heq
    simp [dropDisabled, Balancer.modifyTarget]
  · simp [dropDisabled, Balancer.modifyTarget, heq]

theorem dropDisabled_target (t t' : TargetId) :
    ((dropDisabled b t).target t').totalWeight = (b.target t').totalWeight
      ∧ ((dropDisabled b t).target t').unavailableWeight = (b.target t').unavailableWeight
      ∧ ((dropDisabled b t).target t').port = (b.target t').port
      ∧ ((dropDisabled b t).target t').weight = (b.target t').weight
      ∧ ((dropDisabled b t).target t').lastQuery = (b.target t').lastQuery
      ∧ ((dropDisabled b t).target t').lastSorted = (b.target t').lastSorted := by
  by_cases heq : t' = t
  · subst heq
    simp [dropDisabled, Balancer.modifyTarget]
  · simp [dropDisabled, Balancer.modifyTarget, heq]

end Fields

/-! ## Address lists in order -/

structure Registered (b : Balancer) : Prop where
  targets : b.targets.Nodup
  owned : ∀ t, t ∉ b.targets → (b.target t).addresses = []
  known : ∀ t, ∀ a ∈ (b.target t).addresses, a < b.made ∧ (b.address a).target = t
  nodup : ∀ t, (b.target t).addresses.Nodup
  listed : ∀ a < b.made, (b.address a).disabled = false →
    a ∈ (b.target (b.address a).target).addresses

section Registered

variable {b b' : Balancer}

theorem Registered.made_not_mem (h : Registered b) (t : TargetId) :
    b.made ∉ (b.target t).addresses :=
  fun hmem => Nat.lt_irrefl _ (h.known t b.made hmem).1

theorem Registered.ne_made (h : Registered b) {t : TargetId} {a : AddressId}
    (ha : a ∈ (b.target t).addresses) : a ≠ b.made := Nat.ne_of_lt (h.known t a ha).1

theorem Registered.mem_targets (h : Registered b) {t : TargetId} {a : AddressId}
    (ha : a ∈ (b.target t).addresses) : t ∈ b.targets := by
  by_contra hnot
  rw [h.owned t hnot] at ha
  exact List.not_mem_nil ha

theorem Registered.nodup_allAddresses (h : Registered b) : b.allAddresses.Nodup := by
  refine List.nodup_flatMap.mpr ⟨fun t _ => h.nodup t, h.targets.imp fun hne a hs ht => ?_⟩
  exact hne ((h.known _ a hs).2.symm.trans (h.known _ a ht).2)

theorem Rearranged.registered (h : Rearranged b b') (hb : Registered b) : Registered b' where
  targets := h.targets.nodup_iff.mpr hb.targets
  owned := by
    intro t ht
    have hnil := hb.owned t (fun hmem => ht (h.targets.mem_iff.mpr hmem))
    have hperm := h.addresses t
    rw [hnil] at hperm
    exact hperm.eq_nil
  known := by
    intro t a ha
    rw [h.made, h.owner]
    exact hb.known t a ((h.addresses t).mem_iff.mp ha)
  nodup := fun t => (h.addresses t).nodup_iff.mpr (hb.nodup t)
  listed := by
    intro a ha hdisabled
    rw [h.owner]
    rw [h.made] at ha
    rw [h.disabled] at hdisabled
    exact (h.addresses _).mem_iff.mpr (hb.listed a ha hdisabled)

theorem Registered.of_lists (h : Registered b) (haddress : b'.address = b.address)
    (hmade : b'.made = b.made) (htargets : b'.targets = b.targets)
    (hlists : ∀ t, (b'.target t).addresses = (b.target t).addresses) : Registered b' := by
  refine ⟨htargets ▸ h.targets, ?_, ?_, ?_, ?_⟩
  · intro t ht
    rw [hlists]
    exact h.owned t (htargets ▸ ht)
  · intro t a ha
    rw [haddress, hmade]
    exact h.known t a (hlists t ▸ ha)
  · intro t
    rw [hlists]
    exact h.nodup t
  · intro a ha hdisabled
    rw [hlists, haddress]
    rw [haddress] at hdisabled
    exact h.listed a (hmade ▸ ha) hdisabled

theorem Registered.updateStatus (h : Registered b) : Registered (updateStatus b) :=
  ⟨h.targets, h.owned, h.known, h.nodup, h.listed⟩

theorem Registered.withAddress (h : Registered b) {t : TargetId} (ht : t ∈ b.targets)
    (entry : Entry) : Registered (withAddress b t entry) where
  targets := h.targets
  owned := by
    intro t' ht'
    have hne : t' ≠ t := by
      rintro rfl
      exact ht' ht
    rw [withAddress_addresses, if_neg hne]
    exact h.owned t' ht'
  known := by
    intro t' a ha
    have hold : ∀ t'', a ∈ (b.target t'').addresses → a < (Balancers.withAddress b t entry).made
        ∧ ((Balancers.withAddress b t entry).address a).target = t'' := by
      intro t'' hmem
      rw [withAddress_of_ne b entry (h.ne_made hmem)]
      exact ⟨Nat.lt_succ_of_lt (h.known t'' a hmem).1, (h.known t'' a hmem).2⟩
    rw [withAddress_addresses] at ha
    split at ha
    · rename_i heq
      rcases List.mem_append.mp ha with hmem | hnew
      · rw [heq]
        exact hold t hmem
      · obtain rfl := List.mem_singleton.mp hnew
        rw [withAddress_made, heq]
        exact ⟨Nat.lt_succ_self _, rfl⟩
    · exact hold t' ha
  nodup := by
    intro t'
    rw [withAddress_addresses]
    split
    · exact List.Nodup.append (h.nodup t) (List.nodup_singleton _)
        (by simpa using h.made_not_mem t)
    · exact h.nodup t'
  listed := by
    intro a ha hdisabled
    rw [withAddress_addresses]
    by_cases hnew : a = b.made
    · subst hnew
      rw [withAddress_made]
      simp [newAddress]
    · have ha' : a < b.made := Nat.lt_of_le_of_ne (Nat.le_of_lt_succ ha) hnew
      rw [withAddress_of_ne b entry hnew] at hdisabled ⊢
      have hmem := h.listed a ha' hdisabled
      split
      · rename_i heq
        rw [heq] at hmem
        exact List.mem_append_left _ hmem
      · exact hmem

theorem Registered.reprice (h : Registered b) (a : AddressId) (weight : Nat) (available : Bool) :
    Registered (reprice b a weight available) where
  targets := h.targets
  owned := by
    intro t ht
    rw [(reprice_target b a weight available t).1]
    exact h.owned t ht
  known := by
    intro t a' ha'
    rw [(reprice_target b a weight available t).1] at ha'
    rw [(reprice_address b a weight available a').1]
    exact h.known t a' ha'
  nodup := by
    intro t
    rw [(reprice_target b a weight available t).1]
    exact h.nodup t
  listed := by
    intro a' ha' hdisabled
    rw [(reprice_address b a weight available a').2.1] at hdisabled
    rw [(reprice_address b a weight available a').1, (reprice_target b a weight available _).1]
    exact h.listed a' ha' hdisabled

theorem Registered.markDisabled (h : Registered b) (a : AddressId) :
    Registered (markDisabled b a) where
  targets := h.targets
  owned := h.owned
  known := by
    intro t a' ha'
    rw [(markDisabled_address b a a').1]
    exact h.known t a' ha'
  nodup := h.nodup
  listed := by
    intro a' ha' hdisabled
    have hne : a' ≠ a := by
      rintro rfl
      rw [markDisabled_self] at hdisabled
      cases hdisabled
    rw [markDisabled_of_ne b a hne] at hdisabled ⊢
    exact h.listed a' ha' hdisabled

theorem Registered.dropDisabled (h : Registered b) (t : TargetId) :
    Registered (dropDisabled b t) where
  targets := h.targets
  owned := by
    intro t' ht'
    rw [dropDisabled_addresses]
    split
    · rename_i heq
      rw [← heq, h.owned t' ht']
      rfl
    · exact h.owned t' ht'
  known := by
    intro t' a ha
    rw [dropDisabled_addresses] at ha
    split at ha
    · rename_i heq
      rw [heq]
      exact h.known t a (List.mem_of_mem_filter ha)
    · exact h.known t' a ha
  nodup := by
    intro t'
    rw [dropDisabled_addresses]
    split
    · exact (h.nodup t).filter _
    · exact h.nodup t'
  listed := by
    intro a ha hdisabled
    have hmem := h.listed a ha hdisabled
    rw [dropDisabled_addresses]
    split
    · rename_i heq
      have howner : (b.address a).target = t := heq
      rw [howner] at hmem
      exact List.mem_filter.mpr ⟨hmem, by
        have : (b.address a).disabled = false := hdisabled
        rw [this]
        rfl⟩
    · exact hmem

variable (lib : Lib)

theorem Registered.afterHostUpdate (h : Registered b) : Registered (afterHostUpdate lib b) :=
  (afterHostUpdate_rearranged lib b).registered h

end Registered

end KongGateway.Kong.Balancers

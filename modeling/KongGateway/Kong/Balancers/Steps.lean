import KongGateway.Kong.Balancers.Current

/-!
# Steps — a DNS update as a sequence of small steps

Whatever the answer, `queryDns` adds, reweighs and disables addresses of
one target one by one, each time followed by `updateStatus` and
`afterHostUpdate`, keeps the answer, and deletes what it disabled. A
property that each of these steps keeps is kept by the query.
-/

namespace KongGateway.Kong.Balancers

/-- One step of an update of the target. -/
inductive DnsStep (lib : Lib) (t : TargetId) : Balancer → Balancer → Prop
  | add {b : Balancer} (entry : Entry) (ht : t ∈ b.targets) :
      DnsStep lib t b (afterHostUpdate lib (updateStatus (withAddress b t entry)))
  | reweigh {b : Balancer} {a : AddressId} (weight : Nat) (ha : a ∈ (b.target t).addresses)
      (henabled : (b.address a).disabled = false) :
      DnsStep lib t b
        (afterHostUpdate lib (updateStatus (reprice b a weight (b.address a).available)))
  | disable {b : Balancer} {a : AddressId} (ha : a ∈ (b.target t).addresses) :
      DnsStep lib t b
        (markDisabled
          (afterHostUpdate lib (updateStatus (reprice b a 0 (b.address a).available))) a)
  | remember {b : Balancer} (query : Query) (sorted : List Entry) :
      DnsStep lib t b (remember b t query sorted)
  | finish {b : Balancer} : DnsStep lib t b (deleteDisabledAddresses lib (afterHostUpdate lib b) t)
  | prolong {b : Balancer} (lastQuery : Option Query) :
      DnsStep lib t b (b.modifyTarget t fun target => { target with lastQuery := lastQuery })

/-- No listed address is disabled. -/
def AllEnabled (b : Balancer) : Prop :=
  ∀ t, ∀ a ∈ (b.target t).addresses, (b.address a).disabled = false

section Steps

variable (lib : Lib) {b : Balancer} {t : TargetId}

theorem AllEnabled.afterHostUpdate (h : AllEnabled b) :
    AllEnabled (afterHostUpdate lib (updateStatus b)) := by
  intro t a ha
  have hrearranged := afterHostUpdate_rearranged lib (updateStatus b)
  rw [hrearranged.disabled]
  exact h t a ((hrearranged.addresses t).mem_iff.mp ha)

theorem AllEnabled.withAddress (hb : Registered b) (h : AllEnabled b) (entry : Entry) :
    AllEnabled (withAddress b t entry) := by
  have hold : ∀ t', ∀ a ∈ (b.target t').addresses,
      ((Balancers.withAddress b t entry).address a).disabled = false := by
    intro t' a ha
    rw [withAddress_of_ne b entry (hb.ne_made ha)]
    exact h t' a ha
  intro t' a ha
  rw [withAddress_addresses] at ha
  split at ha
  · rcases List.mem_append.mp ha with hmem | hnew
    · exact hold t a hmem
    · rw [List.mem_singleton.mp hnew, withAddress_made]
      rfl
  · exact hold t' a ha

theorem AllEnabled.reprice (h : AllEnabled b) (a : AddressId) (weight : Nat) (available : Bool) :
    AllEnabled (reprice b a weight available) := by
  intro t' a' ha'
  rw [(reprice_target b a weight available t').1] at ha'
  rw [(reprice_address b a weight available a').2.1]
  exact h t' a' ha'

theorem foldl_keeps {M : Balancer → Prop} {b : Balancer} {f : Balancer → Entry → Balancer}
    (hturn : ∀ b entry, M b → M (f b entry)) (hM : M b) (entries : List Entry) :
    M (entries.foldl f b) := Run.exec_invariant hturn hM entries

variable {P : Balancer → Prop}
  (hstep : ∀ {b b' : Balancer}, Updating t b → DnsStep lib t b b' → P b → P b')

include hstep

theorem addAddress_keeps (h : Updating t b) (hP : P b) (entry : Entry) :
    P (addAddress lib b t entry).2 := by
  by_cases ht : t ∈ b.targets
  · rw [addAddress_eq lib ht]
    exact hstep h (.add entry ht) hP
  · rw [addAddress, if_pos ht]
    exact hP

theorem disableAddress_keeps (h : Updating t b) (hP : P b) (entry : Entry) :
    P (disableAddress lib b t entry) := by
  cases hfind : findAddress b t entry with
  | none =>
    rw [disableAddress_none lib hfind]
    exact hP
  | some a =>
    have ha := findAddress_mem hfind
    rw [disableAddress_eq lib hfind (h.registered.known t a ha).2]
    exact hstep h (.disable ha) hP

theorem mergeEntry_keeps (h : Updating t b) (henabled : AllEnabled b) (hP : P b)
    (oldSorted : List Entry) (entry : Entry) :
    AllEnabled (mergeEntry lib t oldSorted b entry) ∧ P (mergeEntry lib t oldSorted b entry) := by
  cases hkey : entryOfKey oldSorted entry.sortKey with
  | none =>
    rw [mergeEntry_new lib hkey]
    refine ⟨?_, addAddress_keeps lib hstep h hP entry⟩
    by_cases ht : t ∈ b.targets
    · rw [addAddress_eq lib ht]
      exact (henabled.withAddress h.registered entry).afterHostUpdate lib
    · rw [addAddress, if_pos ht]
      exact henabled
  | some o =>
    rw [mergeEntry_known lib (b.target t) hkey]
    split
    · cases hfind : findAddress b t o with
      | none =>
        rw [changeWeight_none lib hfind]
        exact ⟨henabled, hP⟩
      | some a =>
        have ha := findAddress_mem hfind
        rw [changeWeight_eq lib hfind (h.registered.known t a ha).2]
        exact ⟨(henabled.reprice a _ _).afterHostUpdate lib,
          hstep h (.reweigh _ ha (henabled t a ha)) hP⟩
    · exact ⟨henabled, hP⟩

theorem foldl_disableAddress_keeps (h : Updating t b) (hP : P b) (entries : List Entry) :
    Updating t (entries.foldl (fun b entry => disableAddress lib b t entry) b)
      ∧ P (entries.foldl (fun b entry => disableAddress lib b t entry) b) :=
  foldl_keeps (M := fun b => Updating t b ∧ P b)
    (fun _ entry hb =>
      ⟨hb.1.disableAddress lib entry, disableAddress_keeps lib hstep hb.1 hb.2 entry⟩)
    ⟨h, hP⟩ entries

theorem applyAnswer_keeps (h : Quiet b) (hP : P b) (entries : List Entry) :
    Updating t (applyAnswer lib b t entries).1 ∧ P (applyAnswer lib b t entries).1 := by
  rw [applyAnswer]
  split
  · exact foldl_keeps (M := fun b => Updating t b ∧ P b)
      (fun _ entry hb => ⟨hb.1.addAddress lib entry, addAddress_keeps lib hstep hb.1 hb.2 entry⟩)
      (foldl_disableAddress_keeps lib hstep (h.updating t) hP _) _
  · obtain ⟨done, -, hfold⟩ := foldl_updateEntry lib t (b.target t).known
      (topEntries (sortEntries lib entries)) b false []
    have hmerged := foldl_keeps (b := b)
      (M := fun b => Updating t b ∧ AllEnabled b ∧ P b)
      (fun _ entry hb => ⟨hb.1.mergeEntry lib (b.target t).known entry,
        mergeEntry_keeps lib hstep hb.1 hb.2.1 hb.2.2 (b.target t).known entry⟩)
      ⟨h.updating t, h.enabled, hP⟩ (topEntries (sortEntries lib entries))
    rw [mergeAddresses, hfold]
    dsimp only
    split
    · exact foldl_disableAddress_keeps lib hstep hmerged.1 hmerged.2.2 _
    · exact ⟨hmerged.1, hmerged.2.2⟩

theorem queryDns_induction (dns : Dns) (h : Quiet b) (hP : P b) : P (queryDns lib dns b t) := by
  rcases queryDns_cases lib dns b t with ⟨query, -, heq⟩ | ⟨-, lastQuery, heq⟩
  · obtain ⟨happlied, hPapplied⟩ := applyAnswer_keeps lib hstep h hP query.entries
    have hstored := hstep happlied (.remember query (sortEntries lib query.entries)) hPapplied
    rw [heq, updateAddresses_eq, keepAnswer]
    split
    · exact hstep (happlied.remember query _) .finish hstored
    · exact hstored
  · rw [heq]
    exact hstep (h.updating t) (.prolong lastQuery) hP

end Steps

/-! ## The counters -/

section Counters

variable (lib : Lib) {b b' : Balancer} {t : TargetId}

theorem Accounted.of_target (hb : Accounted b) {f : Target → Target}
    (hlist : (f (b.target t)).addresses = (b.target t).addresses)
    (htotal : (f (b.target t)).totalWeight = (b.target t).totalWeight)
    (hunavailable : (f (b.target t)).unavailableWeight = (b.target t).unavailableWeight) :
    Accounted (b.modifyTarget t f) := by
  have hsame : ∀ t', ((b.modifyTarget t f).target t').addresses = (b.target t').addresses
      ∧ ((b.modifyTarget t f).target t').totalWeight = (b.target t').totalWeight
      ∧ ((b.modifyTarget t f).target t').unavailableWeight = (b.target t').unavailableWeight := by
    intro t'
    by_cases heq : t' = t
    · subst heq
      simp [Balancer.modifyTarget, hlist, htotal, hunavailable]
    · simp [Balancer.modifyTarget, heq]
  refine ⟨hb.registered.of_lists rfl rfl rfl fun t' => (hsame t').1, hb.disabled, ?_, ?_, ?_, ?_⟩
  · intro t'
    rw [(hsame t').1, (hsame t').2.1]
    exact hb.total t'
  · intro t'
    rw [(hsame t').1, (hsame t').2.2]
    exact hb.unavailable t'
  · exact hb.totals.trans (congrArg List.sum (List.map_congr_left fun t' _ => (hsame t').2.1.symm))
  · exact hb.unavailables.trans
      (congrArg List.sum (List.map_congr_left fun t' _ => (hsame t').2.2.symm))

theorem DnsStep.consistent (h : DnsStep lib t b b') (hb : Consistent b) : Consistent b' := by
  have hknown := fun a ha => (hb.accounted.registered.known t a ha).1
  cases h with
  | add entry ht => exact (hb.accounted.withAddress ht entry).afterHostUpdate lib
  | reweigh weight ha henabled =>
    refine (hb.accounted.reprice (hknown _ ha) fun hdisabled => ?_).afterHostUpdate lib
    rw [henabled] at hdisabled
    cases hdisabled
  | @disable a ha =>
    have hpriced : Consistent (afterHostUpdate lib
        (updateStatus (reprice b a 0 (b.address a).available))) :=
      (hb.accounted.reprice (hknown a ha) fun _ => rfl).afterHostUpdate lib
    refine hpriced.markDisabled ?_
    rw [(afterHostUpdate_rearranged lib _).weight]
    exact congrArg Address.weight (reprice_self b a 0 _)
  | remember query sorted => exact ⟨hb.accounted.of_target rfl rfl rfl, hb.status⟩
  | finish =>
    have hrearranged := afterHostUpdate_rearranged lib b
    have hafter : Consistent (afterHostUpdate lib b) :=
      ⟨hrearranged.accounted hb.accounted, hrearranged.statusHolds hb.accounted hb.status⟩
    exact hafter.deleteDisabledAddresses lib t
  | prolong lastQuery => exact ⟨hb.accounted.of_target rfl rfl rfl, hb.status⟩

theorem DnsStep.healthThreshold (h : DnsStep lib t b b') :
    b'.healthThreshold = b.healthThreshold := by
  have hafter : ∀ b, (afterHostUpdate lib b).healthThreshold = b.healthThreshold :=
    fun b => (afterHostUpdate_rearranged lib b).healthThreshold
  cases h with
  | add entry ht => exact hafter _
  | reweigh weight ha henabled => exact hafter _
  | disable ha => exact hafter _
  | remember query sorted => rfl
  | finish =>
    rw [deleteDisabledAddresses_eq]
    split
    · exact (hafter _).trans (hafter b)
    · exact hafter b
  | prolong lastQuery => rfl

theorem Consistent.queryDns (hb : Consistent b) (h : Quiet b) (dns : Dns) (t : TargetId) :
    Consistent (queryDns lib dns b t) :=
  queryDns_induction lib (P := Consistent) (fun _ hstep hP => hstep.consistent lib hP) dns h hb

theorem queryDns_healthThreshold (h : Quiet b) (dns : Dns) (t : TargetId) :
    (queryDns lib dns b t).healthThreshold = b.healthThreshold :=
  queryDns_induction lib (P := fun b' => b'.healthThreshold = b.healthThreshold)
    (fun _ hstep hP => (hstep.healthThreshold lib).trans hP) dns h rfl

theorem Consistent.with_algorithm (h : Consistent b) (algorithm : Option Algorithm) :
    Consistent { b with algorithm := algorithm } :=
  have hb := h.accounted
  ⟨⟨hb.registered.of_lists rfl rfl rfl fun _ => rfl, hb.disabled, hb.total, hb.unavailable,
    hb.totals, hb.unavailables⟩, h.status⟩

theorem Consistent.newAlgorithm (h : Consistent b) (type : AlgorithmType) :
    Consistent (newAlgorithm lib type b) := by
  have hstarted := h.with_algorithm (some type.empty)
  have hrearranged := afterHostUpdate_rearranged lib { b with algorithm := some type.empty }
  exact ⟨hrearranged.accounted hstarted.accounted,
    hrearranged.statusHolds hstarted.accounted hstarted.status⟩

end Counters

/-! ## Between the calls -/

/-- What holds of a balancer between the calls, whatever its algorithm. -/
structure Steady (b : Balancer) : Prop where
  quiet : Quiet b
  consistent : Consistent b
  healthThreshold : 0 ≤ b.healthThreshold

namespace Steady

variable (lib : Lib) {b : Balancer}

theorem of_fresh (hfresh : Fresh b) (hnew : b.algorithm = none) : Steady b :=
  ⟨hfresh.quiet hnew, hfresh.consistent, hfresh.healthThreshold⟩

theorem queryDns (h : Steady b) (dns : Dns) (t : TargetId) : Steady (queryDns lib dns b t) := by
  refine ⟨h.quiet.queryDns lib dns t, h.consistent.queryDns lib h.quiet dns t, ?_⟩
  rw [queryDns_healthThreshold lib h.quiet]
  exact h.healthThreshold

theorem setAddressStatus (h : Steady b) (a : AddressId) (available : Bool) :
    Steady (setAddressStatus lib b a available).2 := by
  refine ⟨h.quiet.setAddressStatus lib a available, h.consistent.setAddressStatus lib a available, ?_⟩
  refine setAddressStatus_induction lib (P := fun b => 0 ≤ b.healthThreshold) h.healthThreshold
    fun _ _ => ?_
  rw [(afterHostUpdate_rearranged lib _).healthThreshold]
  exact h.healthThreshold

theorem newAlgorithm (h : Steady b) (type : AlgorithmType) : Steady (newAlgorithm lib type b) := by
  refine ⟨h.quiet.newAlgorithm lib type, h.consistent.newAlgorithm lib type, ?_⟩
  rw [Balancers.newAlgorithm, (afterHostUpdate_rearranged lib _).healthThreshold]
  exact h.healthThreshold

theorem resolved (h : Steady b) (queries : List (Dns × TargetId)) :
    Steady (Run.exec (fun b query => Balancers.queryDns lib query.1 b query.2) b queries) :=
  Run.exec_invariant (fun b query (hb : Steady b) => hb.queryDns lib query.1 query.2) h queries

end Steady

/-!
## AddressPeer — the peer of an address

An update of a target moves weights and marks addresses; what
`getAddressPeer` makes of an address made before stays what it is. So
the refresh within a call does not change what the call gets.
-/

section Peers

variable (lib : Lib) {b b' : Balancer} {t : TargetId}

/-- The peer of an address made before stays what it is. -/
structure SamePeers (b b' : Balancer) : Prop where
  made : b.made ≤ b'.made
  peer : ∀ a < b.made, ∀ dns, addressPeer dns (b'.address a) = addressPeer dns (b.address a)

theorem SamePeers.refl (b : Balancer) : SamePeers b b := ⟨Nat.le_refl _, fun _ _ _ => rfl⟩

theorem SamePeers.trans {b'' : Balancer} (h : SamePeers b b') (h' : SamePeers b' b'') :
    SamePeers b b'' :=
  ⟨h.made.trans h'.made, fun a ha dns =>
    (h'.peer a (Nat.lt_of_lt_of_le ha h.made) dns).trans (h.peer a ha dns)⟩

theorem SamePeers.afterHostUpdate (b : Balancer) :
    SamePeers b (afterHostUpdate lib (updateStatus b)) := by
  have hrearranged := afterHostUpdate_rearranged lib (updateStatus b)
  refine ⟨hrearranged.made.ge, fun a _ dns => ?_⟩
  exact (congrArg (addressPeer dns) (hrearranged.address a) :)

theorem SamePeers.reprice (b : Balancer) (a : AddressId) (weight : Nat) (available : Bool) :
    SamePeers b (reprice b a weight available) := by
  refine ⟨Nat.le_refl _, fun a' _ dns => ?_⟩
  by_cases heq : a' = a
  · subst heq
    rw [reprice_self]
    rfl
  · rw [reprice_of_ne b a _ available heq]

theorem SamePeers.markDisabled (b : Balancer) (a : AddressId) : SamePeers b (markDisabled b a) := by
  refine ⟨Nat.le_refl _, fun a' _ dns => ?_⟩
  by_cases heq : a' = a
  · subst heq
    rw [markDisabled_self]
    rfl
  · rw [markDisabled_of_ne b a heq]

theorem DnsStep.samePeers (h : DnsStep lib t b b') : SamePeers b b' := by
  cases h with
  | add entry ht =>
    refine SamePeers.trans ⟨Nat.le_succ _, fun a ha dns => ?_⟩ (.afterHostUpdate lib _)
    rw [withAddress_of_ne b entry (Nat.ne_of_lt ha)]
  | reweigh weight ha henabled => exact (SamePeers.reprice b _ _ _).trans (.afterHostUpdate lib _)
  | disable ha =>
    exact ((SamePeers.reprice b _ _ _).trans (.afterHostUpdate lib _)).trans (.markDisabled _ _)
  | remember query sorted => exact ⟨Nat.le_refl _, fun _ _ _ => rfl⟩
  | finish =>
    have hrearranged : ∀ b, SamePeers b (Balancers.afterHostUpdate lib b) := fun b =>
      ⟨(afterHostUpdate_rearranged lib b).made.ge, fun a _ dns =>
        (congrArg (addressPeer dns) ((afterHostUpdate_rearranged lib b).address a) :)⟩
    have hdropped : ∀ b, SamePeers b (dropDisabled b t) :=
      fun b => ⟨Nat.le_refl _, fun _ _ _ => rfl⟩
    rw [deleteDisabledAddresses_eq]
    split
    · exact ((hrearranged b).trans (hdropped _)).trans (hrearranged _)
    · exact (hrearranged b).trans (hdropped _)
  | prolong lastQuery => exact ⟨Nat.le_refl _, fun _ _ _ => rfl⟩

theorem SamePeers.queryDns (dns : Dns) (h : Quiet b) : SamePeers b (queryDns lib dns b t) :=
  queryDns_induction lib (P := SamePeers b) (fun _ hstep hP => hP.trans (hstep.samePeers lib)) dns h
    (.refl b)

/-- Whether a call resolves an available address does not depend on the
refresh. -/
theorem getAddressPeer_fst (dns : Dns) (h : Quiet b) {a : AddressId} (ha : a < b.made)
    (havailable : (b.address a).available = true) (cacheOnly : Bool) :
    (getAddressPeer lib dns b a cacheOnly).1 = addressPeer dns (b.address a) := by
  rw [getAddressPeer_eq lib dns cacheOnly h ha, if_pos havailable, refreshed]
  split
  · exact (SamePeers.queryDns lib dns h).peer a ha dns
  · rfl

end Peers

end KongGateway.Kong.Balancers

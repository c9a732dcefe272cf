import KongGateway.Kong.Balancers.DnsUpdate
import KongGateway.Kong.Balancers.Peers

/-!
# Refresh — what a DNS update leaves of the addresses

Between two calls a balancer is `Quiet`: no listed address is disabled,
and the structure of the algorithm holds addresses the balancer has
made, the heap only listed ones. A DNS update of a target keeps that,
and it keeps every address of the target that no entry it drops finds.
-/

namespace KongGateway.Kong.Balancers

/-! ## The structures of the algorithms -/

/-- The addresses in the structure of the algorithm have been made. -/
def Knows (b : Balancer) : Prop :=
  match b.algorithm with
  | some (.roundRobin self) => ∀ a ∈ self.wheel, a < b.made
  | some (.consistentHashing self) => ∀ i a, self.continuum i = some a → a < b.made
  | some (.latency self) => ∀ a ∈ self.ewma, a < b.made
  | _ => True

/-- The addresses in the heap are those of targets. -/
def HeapListed (b : Balancer) : Prop :=
  match b.algorithm with
  | some (.leastConnections self) => ∀ a ∈ self.binaryHeap.map Prod.snd, a ∈ b.allAddresses
  | _ => True

section Structures

variable {b b' : Balancer}

theorem Knows.mono (h : Knows b) (halgorithm : b'.algorithm = b.algorithm)
    (hmade : b.made ≤ b'.made) : Knows b' := by
  rw [Knows] at h ⊢
  rw [halgorithm]
  cases hcase : b.algorithm with
  | none => trivial
  | some algorithm =>
    rw [hcase] at h
    cases algorithm with
    | roundRobin self => exact fun a ha => Nat.lt_of_lt_of_le (h a ha) hmade
    | consistentHashing self => exact fun i a ha => Nat.lt_of_lt_of_le (h i a ha) hmade
    | leastConnections self => trivial
    | latency self => exact fun a ha => Nat.lt_of_lt_of_le (h a ha) hmade

theorem HeapListed.of_lists (h : HeapListed b) (halgorithm : b'.algorithm = b.algorithm)
    (hlists : ∀ a, a ∈ b.allAddresses → a ∈ b'.allAddresses) : HeapListed b' := by
  rw [HeapListed] at h ⊢
  rw [halgorithm]
  cases hcase : b.algorithm with
  | none => trivial
  | some algorithm =>
    rw [hcase] at h
    cases algorithm with
    | leastConnections self => exact fun a ha => hlists a (h a ha)
    | _ => trivial

theorem Registered.known_of_mem (h : Registered b) {a : AddressId} (ha : a ∈ b.allAddresses) :
    a < b.made := by
  obtain ⟨t, -, hmem⟩ := List.mem_flatMap.mp ha
  exact (h.known t a hmem).1

theorem swapAt_perm (wheel : List AddressId) (i j : Nat) : (swapAt wheel i j).Perm wheel := by
  rw [swapAt]
  split
  · rename_i x y hx hy
    obtain ⟨hi, rfl⟩ := List.getElem?_eq_some_iff.mp hx
    obtain ⟨hj, rfl⟩ := List.getElem?_eq_some_iff.mp hy
    exact List.set_set_perm hi hj
  · exact .refl wheel

theorem wheelShuffleFrom_perm (lib : Lib) (i draws : Nat) (wheel : List AddressId) :
    (wheelShuffleFrom lib i draws wheel).Perm wheel := by
  induction i, draws, wheel using wheelShuffleFrom.induct lib with
  | case1 draws wheel => exact .refl wheel
  | case2 draws wheel => exact .refl wheel
  | case3 draws wheel i ih => exact ih.trans (swapAt_perm _ _ _)

theorem roundRobin_knows (lib : Lib) (h : Registered b) {self : RoundRobin}
    (hwheel : ∀ a ∈ self.wheel, a < b.made) : Knows (roundRobinAfterHostUpdate lib self b) := by
  rw [roundRobinAfterHostUpdate]
  split
  · exact hwheel
  · intro a ha
    obtain ⟨a', ha', hrep⟩ := List.mem_flatMap.mp
      ((wheelShuffleFrom_perm lib _ _ _).mem_iff.mp ha)
    rw [List.eq_of_mem_replicate hrep]
    exact h.known_of_mem ha'

theorem placeAddress_mem (lib : Lib) (points : Nat) (label : String) (a : AddressId)
    (fuel i entries : Nat) {continuum continuum' : Nat → Option AddressId}
    (h : placeAddress lib points label a fuel i entries continuum = some continuum')
    {j : Nat} {a' : AddressId} (hj : continuum' j = some a') : continuum j = some a' ∨ a' = a := by
  induction fuel generalizing i entries continuum with
  | zero =>
    obtain rfl : continuum = continuum' := Option.some.inj h
    exact .inl hj
  | succ fuel ih =>
    rw [placeAddress] at h
    split at h
    · split at h
      · cases h
      · rcases ih _ _ h with hplaced | hself
        · split at hplaced
          · exact .inl hplaced
          · by_cases heq : j = getContinuumIndex lib (label ++ toString i) points
            · rw [heq, Function.update_self] at hplaced
              exact .inr (Option.some.inj hplaced).symm
            · rw [Function.update_of_ne heq] at hplaced
              exact .inl hplaced
        · exact .inr hself
    · obtain rfl : continuum = continuum' := Option.some.inj h
      exact .inl hj

theorem newContinuum_mem (lib : Lib) (points : Nat) {continuum : Nat → Option AddressId}
    (h : newContinuum lib b points = some continuum) {j : Nat} {a : AddressId}
    (hj : continuum j = some a) : a ∈ b.allAddresses := by
  have hloop : ∀ (as : List AddressId) (start : Nat → Option AddressId),
      as.foldlM (fun continuum a =>
        let label := (b.address a).ip ++ ":" ++ (":" ++ toString (b.address a).port) ++ " "
        placeAddress lib points label a (points + 1) 1 (pointsOf lib b a) continuum) start
        = some continuum → start j = some a ∨ a ∈ as := by
    intro as
    induction as with
    | nil =>
      intro start hstart
      obtain rfl : start = continuum := Option.some.inj hstart
      exact .inl hj
    | cons first rest ih =>
      intro start hstart
      rw [List.foldlM_cons] at hstart
      obtain ⟨next, hplace, hrest⟩ := Option.bind_eq_some_iff.mp hstart
      rcases ih next hrest with hnext | hmem
      · rcases placeAddress_mem lib points _ first _ _ _ hplace hnext with hold | rfl
        · exact .inl hold
        · exact .inr List.mem_cons_self
      · exact .inr (List.mem_cons_of_mem _ hmem)
  rcases hloop b.allAddresses _ h with hnone | hmem
  · cases hnone
  · exact hmem

theorem consistentHashing_knows (lib : Lib) (h : Registered b) {self : ConsistentHashing}
    (hcontinuum : ∀ i a, self.continuum i = some a → a < b.made) :
    Knows (consistentHashingAfterHostUpdate lib self b) := by
  have hsorted := (sortHostsAndAddresses_rearranged lib b).registered h
  rw [consistentHashingAfterHostUpdate]
  split
  · exact hcontinuum
  · rename_i continuum hnew
    intro i a ha
    exact hsorted.known_of_mem (newContinuum_mem lib self.points hnew ha)

theorem mem_insertAddr {heap : List (HeapValue × AddressId)} {a a' : AddressId}
    (h : a' ∈ (insertAddr b heap a).2.map Prod.snd) : a' ∈ heap.map Prod.snd ∨ a' = a := by
  rw [insertAddr] at h
  split at h
  · rw [List.map_append, List.mem_append] at h
    exact h.imp_right List.mem_singleton.mp
  · exact .inl h

theorem mem_foldl_insertAddr (as : List AddressId) (b : Balancer)
    (heap : List (HeapValue × AddressId)) {a : AddressId}
    (h : a ∈ (as.foldl (fun (b, heap) a => insertAddr b heap a) (b, heap)).2.map Prod.snd) :
    a ∈ heap.map Prod.snd ∨ a ∈ as := by
  induction as generalizing b heap with
  | nil => exact .inl h
  | cons first rest ih =>
    rw [List.foldl_cons] at h
    rcases ih _ _ h with hmem | hrest
    · rcases mem_insertAddr hmem with hold | rfl
      · exact .inl hold
      · exact .inr List.mem_cons_self
    · exact .inr (List.mem_cons_of_mem _ hrest)

theorem leastConnections_heapListed (b : Balancer) :
    HeapListed (leastConnectionsAfterHostUpdate b) := by
  obtain ⟨address, hfold, -⟩ := foldl_insertAddr b.allAddresses b []
  have hlists : (leastConnectionsAfterHostUpdate b).allAddresses = b.allAddresses := by
    simp only [leastConnectionsAfterHostUpdate, hfold]
    rfl
  intro a ha
  rw [hlists]
  rcases mem_foldl_insertAddr b.allAddresses b [] ha with hnil | hmem
  · exact absurd hnil List.not_mem_nil
  · exact hmem

theorem latency_knows (h : Registered b) {self : Latency} :
    Knows (latencyAfterHostUpdate self b) := by
  have hknown : ∀ a ∈ b.allAddresses.filter fun a => (b.address a).available, a < b.made :=
    fun a ha => h.known_of_mem (List.mem_of_mem_filter ha)
  rw [latencyAfterHostUpdate]
  split
  · intro a ha
    exact hknown a (of_decide_eq_true (List.mem_filter.mp ha).2)
  · intro a ha
    rcases List.mem_append.mp ha with hkept | hnew
    · exact hknown a (of_decide_eq_true (List.mem_filter.mp hkept).2)
    · exact hknown a (List.mem_of_mem_filter hnew)

theorem afterHostUpdate_knows (lib : Lib) (h : Registered b) (hknows : Knows b) :
    Knows (afterHostUpdate lib b) ∧ HeapListed (afterHostUpdate lib b) := by
  rw [Knows] at hknows
  cases halgorithm : b.algorithm with
  | none =>
    rw [afterHostUpdate, halgorithm]
    exact ⟨by rw [Knows, halgorithm]; trivial, by rw [HeapListed, halgorithm]; trivial⟩
  | some algorithm =>
    rw [halgorithm] at hknows
    cases algorithm with
    | roundRobin self =>
      rw [afterHostUpdate, halgorithm]
      refine ⟨roundRobin_knows lib h hknows, ?_⟩
      dsimp only
      rw [roundRobinAfterHostUpdate]
      split
      · trivial
      · trivial
    | consistentHashing self =>
      rw [afterHostUpdate, halgorithm]
      refine ⟨consistentHashing_knows lib h hknows, ?_⟩
      dsimp only
      rw [consistentHashingAfterHostUpdate]
      split
      · trivial
      · trivial
    | leastConnections self =>
      rw [afterHostUpdate, halgorithm]
      exact ⟨trivial, leastConnections_heapListed b⟩
    | latency self =>
      rw [afterHostUpdate, halgorithm]
      refine ⟨latency_knows h, ?_⟩
      dsimp only
      rw [latencyAfterHostUpdate]
      split
      · trivial
      · trivial

end Structures

/-! ## Between the calls -/

/-- No call is in progress. -/
structure Quiet (b : Balancer) : Prop where
  registered : Registered b
  knows : Knows b
  heap : HeapListed b
  enabled : ∀ t, ∀ a ∈ (b.target t).addresses, (b.address a).disabled = false

/-- An update of a target is in progress: disabled addresses are listed
at that target only. -/
structure Updating (t : TargetId) (b : Balancer) : Prop where
  registered : Registered b
  knows : Knows b
  elsewhere : ∀ t', t' ≠ t → ∀ a ∈ (b.target t').addresses, (b.address a).disabled = false

theorem Quiet.updating {b : Balancer} (h : Quiet b) (t : TargetId) : Updating t b :=
  ⟨h.registered, h.knows, fun t' _ => h.enabled t'⟩

namespace Updating

variable (lib : Lib) {b b' : Balancer} {t : TargetId}

theorem afterHostUpdate (h : Updating t b) : Updating t (afterHostUpdate lib b) where
  registered := h.registered.afterHostUpdate lib
  knows := (afterHostUpdate_knows lib h.registered h.knows).1
  elsewhere := by
    intro t' hne a ha
    have hrearranged := afterHostUpdate_rearranged lib b
    rw [hrearranged.disabled]
    exact h.elsewhere t' hne a ((hrearranged.addresses t').mem_iff.mp ha)

/-- A change, then `updateStatus` and `afterHostUpdate`. -/
theorem settle (h : Updating t b) :
    Updating t (Balancers.afterHostUpdate lib (updateStatus b)) :=
  afterHostUpdate lib
    ⟨h.registered.updateStatus, h.knows.mono rfl (Nat.le_refl _), h.elsewhere⟩

theorem addAddress (h : Updating t b) (entry : Entry) :
    Updating t (addAddress lib b t entry).2 := by
  by_cases ht : t ∈ b.targets
  · rw [addAddress_eq lib ht]
    refine settle lib ⟨h.registered.withAddress ht entry, h.knows.mono rfl (Nat.le_succ _), ?_⟩
    intro t' hne a ha
    rw [withAddress_addresses, if_neg hne] at ha
    rw [withAddress_of_ne b entry (h.registered.ne_made ha)]
    exact h.elsewhere t' hne a ha
  · rw [Balancers.addAddress, if_pos ht]
    exact h

theorem reprice (h : Updating t b) (a : AddressId) (weight : Nat) (available : Bool) :
    Updating t (reprice b a weight available) := by
  refine ⟨h.registered.reprice a weight available, h.knows.mono rfl (Nat.le_refl _), ?_⟩
  intro t' hne a' ha'
  rw [(reprice_target b a weight available t').1] at ha'
  rw [(reprice_address b a weight available a').2.1]
  exact h.elsewhere t' hne a' ha'

theorem changeWeight (h : Updating t b) (entry : Entry) (weight : Nat) :
    Updating t (changeWeight lib b t entry weight).2 := by
  cases hfind : findAddress b t entry with
  | none =>
    rw [changeWeight_none lib hfind]
    exact h
  | some a =>
    rw [changeWeight_eq lib hfind (h.registered.known t a (findAddress_mem hfind)).2]
    exact (h.reprice a weight _).settle lib

theorem disableAddress (h : Updating t b) (entry : Entry) :
    Updating t (disableAddress lib b t entry) := by
  cases hfind : findAddress b t entry with
  | none =>
    rw [disableAddress_none lib hfind]
    exact h
  | some a =>
    have hknown := h.registered.known t a (findAddress_mem hfind)
    have hpriced := (h.reprice a 0 (b.address a).available).settle lib
    have hregistered := hpriced.registered.markDisabled a
    rw [disableAddress_eq lib hfind hknown.2]
    refine ⟨hregistered, hpriced.knows.mono rfl (Nat.le_refl _), ?_⟩
    intro t' hne a' ha'
    -- the address that is marked belongs to the target under update
    have hother : a' ≠ a := by
      rintro rfl
      have howner := (hpriced.registered.known t' a' ha').2
      rw [(afterHostUpdate_rearranged lib _).owner] at howner
      exact hne (howner.symm.trans
        ((reprice_address b a' 0 (b.address a').available a').1.trans hknown.2))
    rw [markDisabled_of_ne _ a hother]
    exact hpriced.elsewhere t' hne a' ha'

theorem mergeEntry (h : Updating t b) (oldSorted : List Entry) (entry : Entry) :
    Updating t (mergeEntry lib t oldSorted b entry) := by
  cases hkey : entryOfKey oldSorted entry.sortKey with
  | none =>
    rw [mergeEntry_new lib hkey]
    exact h.addAddress lib entry
  | some o =>
    rw [mergeEntry_known lib (b.target t) hkey]
    split
    · exact h.changeWeight lib o _
    · exact h

theorem foldl {f : Balancer → Entry → Balancer}
    (hstep : ∀ b entry, Updating t b → Updating t (f b entry)) (h : Updating t b)
    (entries : List Entry) : Updating t (entries.foldl f b) := Run.exec_invariant hstep h entries

theorem remember (h : Updating t b) (query : Query) (sorted : List Entry) :
    Updating t (remember b t query sorted) := by
  refine ⟨h.registered.remember query sorted, h.knows.mono rfl (Nat.le_refl _), ?_⟩
  intro t' hne a ha
  rw [(remember_target b t query sorted t').1] at ha
  exact h.elsewhere t' hne a ha

theorem deleteDisabledAddresses (h : Updating t b) (hheap : HeapListed b) :
    Quiet (deleteDisabledAddresses lib b t) := by
  have hdropped : Updating t (dropDisabled b t) := by
    refine ⟨h.registered.dropDisabled t, h.knows.mono rfl (Nat.le_refl _), ?_⟩
    intro t' hne a ha
    rw [dropDisabled_addresses, if_neg hne] at ha
    exact h.elsewhere t' hne a ha
  have henabled : ∀ t', ∀ a ∈ ((dropDisabled b t).target t').addresses,
      ((dropDisabled b t).address a).disabled = false := by
    intro t' a ha
    by_cases heq : t' = t
    · rw [dropDisabled_addresses, if_pos heq] at ha
      have hkept : (!(b.address a).disabled) = true := (List.mem_filter.mp ha).2
      exact (Bool.not_eq_true' _).mp hkept
    · exact hdropped.elsewhere t' heq a ha
  rw [deleteDisabledAddresses_eq]
  split
  · have hrearranged := afterHostUpdate_rearranged lib (dropDisabled b t)
    have hstructure := afterHostUpdate_knows lib hdropped.registered hdropped.knows
    refine ⟨(hdropped.afterHostUpdate lib).registered, hstructure.1, hstructure.2, ?_⟩
    intro t' a ha
    rw [hrearranged.disabled]
    exact henabled t' a ((hrearranged.addresses t').mem_iff.mp ha)
  · rename_i hnone
    refine ⟨hdropped.registered, hdropped.knows, hheap.of_lists rfl ?_, henabled⟩
    -- no address is disabled, so the lists are as they were
    intro a ha
    obtain ⟨t', ht', hmem⟩ := List.mem_flatMap.mp ha
    refine List.mem_flatMap.mpr ⟨t', ht', ?_⟩
    rw [dropDisabled_addresses]
    split
    · rename_i heq
      rw [heq] at hmem
      refine List.mem_filter.mpr ⟨hmem, ?_⟩
      cases hdisabled : (b.address a).disabled with
      | false => rfl
      | true => exact absurd (List.any_eq_true.mpr ⟨a, hmem, hdisabled⟩) hnone
    · exact hmem

end Updating

section Update

variable (lib : Lib) {b : Balancer} {t : TargetId}

theorem mergeAddresses_updating (h : Updating t b) (oldSorted newSorted : List Entry) :
    Updating t (mergeAddresses lib t oldSorted newSorted b).1 := by
  obtain ⟨done, -, hfold⟩ :=
    foldl_updateEntry lib t oldSorted (topEntries newSorted) b false []
  have hmerged : Updating t ((topEntries newSorted).foldl (mergeEntry lib t oldSorted) b) :=
    h.foldl (fun _ entry hb => hb.mergeEntry lib oldSorted entry) _
  rw [mergeAddresses, hfold]
  dsimp only
  split
  · exact hmerged.foldl (fun _ entry hb => hb.disableAddress lib entry) _
  · exact hmerged

theorem recycleAddresses_updating (h : Updating t b) (oldSorted newSorted : List Entry) :
    Updating t (recycleAddresses lib t oldSorted newSorted b) :=
  (h.foldl (fun _ entry hb => hb.disableAddress lib entry) _).foldl
    (fun _ entry hb => hb.addAddress lib entry) _

theorem Quiet.updateAddresses (h : Quiet b) (t : TargetId) (query : Query) :
    Quiet (updateAddresses lib b t query) := by
  have happlied : Updating t (applyAnswer lib b t query.entries).1 := by
    rw [applyAnswer]
    split
    · exact recycleAddresses_updating lib (h.updating t) _ _
    · exact mergeAddresses_updating lib (h.updating t) _ _
  rw [updateAddresses_eq, keepAnswer]
  cases hdirty : (applyAnswer lib b t query.entries).2 with
  | true =>
    have hstored := happlied.remember query (sortEntries lib query.entries)
    exact (hstored.afterHostUpdate lib).deleteDisabledAddresses lib
      (afterHostUpdate_knows lib hstored.registered hstored.knows).2
  | false =>
    have hsame : (applyAnswer lib b t query.entries).1 = b := by
      rw [applyAnswer] at hdirty ⊢
      split at hdirty
      · cases hdirty
      · rename_i hchanges
        rw [if_neg hchanges]
        exact mergeAddresses_of_clean lib hdirty
    rw [hsame]
    have hlists := fun t' => (remember_target b t query (sortEntries lib query.entries) t').1
    refine ⟨h.registered.remember query _, h.knows.mono rfl (Nat.le_refl _),
      h.heap.of_lists rfl ?_, ?_⟩
    · intro a ha
      obtain ⟨t', ht', hmem⟩ := List.mem_flatMap.mp ha
      exact List.mem_flatMap.mpr ⟨t', ht', (hlists t').symm ▸ hmem⟩
    · intro t' a ha
      exact h.enabled t' a (hlists t' ▸ ha)

end Update

/-! ## What no update changes -/

/-- The addresses made so far keep their target and their status. -/
structure Retains (b b' : Balancer) : Prop where
  made : b.made ≤ b'.made
  address : ∀ a < b.made, (b'.address a).target = (b.address a).target
    ∧ (b'.address a).available = (b.address a).available

namespace Retains

variable (lib : Lib) {b b' b'' : Balancer} {t : TargetId}

theorem refl (b : Balancer) : Retains b b := ⟨Nat.le_refl _, fun _ _ => ⟨rfl, rfl⟩⟩

theorem trans (h : Retains b b') (h' : Retains b' b'') : Retains b b'' where
  made := h.made.trans h'.made
  address := by
    intro a ha
    have hlater := h'.address a (Nat.lt_of_lt_of_le ha h.made)
    exact ⟨hlater.1.trans (h.address a ha).1, hlater.2.trans (h.address a ha).2⟩

theorem of_rearranged (h : Rearranged b b') : Retains b b' :=
  ⟨h.made.ge, fun a _ => ⟨h.owner a, h.available a⟩⟩

theorem of_tables (haddress : b'.address = b.address) (hmade : b'.made = b.made) :
    Retains b b' := by
  refine ⟨hmade.ge, fun a _ => ?_⟩
  rw [haddress]
  exact ⟨rfl, rfl⟩

theorem settle (b : Balancer) : Retains b (afterHostUpdate lib (updateStatus b)) := by
  have hstatus : Retains b (updateStatus b) := of_tables rfl rfl
  exact hstatus.trans (of_rearranged (afterHostUpdate_rearranged lib _))

theorem addAddress (b : Balancer) (entry : Entry) : Retains b (addAddress lib b t entry).2 := by
  by_cases ht : t ∈ b.targets
  · rw [addAddress_eq lib ht]
    refine trans ⟨Nat.le_succ _, fun a ha => ?_⟩ (settle lib _)
    rw [withAddress_of_ne b entry (Nat.ne_of_lt ha)]
    exact ⟨rfl, rfl⟩
  · rw [Balancers.addAddress, if_pos ht]
    exact refl b

theorem reprice (b : Balancer) (a : AddressId) (weight : Nat) :
    Retains b (reprice b a weight (b.address a).available) := by
  refine ⟨Nat.le_refl _, fun a' _ => ⟨(reprice_address b a weight _ a').1, ?_⟩⟩
  by_cases heq : a' = a
  · subst heq
    rw [reprice_self]
  · rw [reprice_of_ne b a weight _ heq]

theorem changeWeight (h : Registered b) (entry : Entry) (weight : Nat) :
    Retains b (changeWeight lib b t entry weight).2 := by
  cases hfind : findAddress b t entry with
  | none =>
    rw [changeWeight_none lib hfind]
    exact refl b
  | some a =>
    rw [changeWeight_eq lib hfind (h.known t a (findAddress_mem hfind)).2]
    exact (reprice b a weight).trans (settle lib _)

theorem disableAddress (h : Registered b) (entry : Entry) :
    Retains b (disableAddress lib b t entry) := by
  cases hfind : findAddress b t entry with
  | none =>
    rw [disableAddress_none lib hfind]
    exact refl b
  | some a =>
    rw [disableAddress_eq lib hfind (h.known t a (findAddress_mem hfind)).2]
    refine ((reprice b a 0).trans (settle lib _)).trans ⟨Nat.le_refl _, fun a' _ => ?_⟩
    exact ⟨(markDisabled_address _ a a').1, (markDisabled_address _ a a').2.2.1⟩

theorem mergeEntry (h : Registered b) (oldSorted : List Entry) (entry : Entry) :
    Retains b (mergeEntry lib t oldSorted b entry) := by
  cases hkey : entryOfKey oldSorted entry.sortKey with
  | none =>
    rw [mergeEntry_new lib hkey]
    exact addAddress lib b entry
  | some o =>
    rw [mergeEntry_known lib (b.target t) hkey]
    split
    · exact changeWeight lib h o _
    · exact refl b

theorem foldl {f : Balancer → Entry → Balancer}
    (hstep : ∀ b entry, Updating t b → Updating t (f b entry) ∧ Retains b (f b entry))
    (h : Updating t b) (entries : List Entry) : Retains b (entries.foldl f b) := by
  induction entries generalizing b with
  | nil => exact refl b
  | cons entry rest ih => exact (hstep b entry h).2.trans (ih (hstep b entry h).1)

theorem foldl_disableAddress (h : Updating t b) (entries : List Entry) :
    Retains b (entries.foldl (fun b entry => Balancers.disableAddress lib b t entry) b) :=
  foldl (fun _ entry hb => ⟨hb.disableAddress lib entry, disableAddress lib hb.registered entry⟩)
    h entries

theorem applyAnswer (h : Updating t b) (entries : List Entry) :
    Retains b (applyAnswer lib b t entries).1 := by
  rw [Balancers.applyAnswer]
  split
  · have hdisabled := h.foldl (fun _ entry hb => hb.disableAddress lib entry)
      (b.target t).known.reverse
    exact (foldl_disableAddress lib h _).trans (foldl
      (fun b entry hb => ⟨hb.addAddress lib entry, addAddress lib b entry⟩) hdisabled _)
  · obtain ⟨done, -, hfold⟩ := foldl_updateEntry lib t (b.target t).known
      (topEntries (sortEntries lib entries)) b false []
    have hmerged := h.foldl (fun _ entry hb => hb.mergeEntry lib (b.target t).known entry)
      (topEntries (sortEntries lib entries))
    have hretains : Retains b ((topEntries (sortEntries lib entries)).foldl
        (Balancers.mergeEntry lib t (b.target t).known) b) :=
      foldl (fun _ entry hb => ⟨hb.mergeEntry lib _ entry, mergeEntry lib hb.registered _ entry⟩)
        h _
    rw [mergeAddresses, hfold]
    dsimp only
    split
    · exact hretains.trans (foldl_disableAddress lib hmerged _)
    · exact hretains

theorem keepAnswer (b : Balancer) (query : Query) (dirty : Bool) :
    Retains b (keepAnswer lib b t query dirty) := by
  have hstored : Retains b (remember b t query (sortEntries lib query.entries)) :=
    of_tables rfl rfl
  rw [Balancers.keepAnswer]
  split
  · refine (hstored.trans (of_rearranged (afterHostUpdate_rearranged lib _))).trans ?_
    have hdropped : ∀ b, Retains b (dropDisabled b t) := fun b => of_tables rfl rfl
    rw [deleteDisabledAddresses_eq]
    split
    · exact (hdropped _).trans (of_rearranged (afterHostUpdate_rearranged lib _))
    · exact hdropped _
  · exact hstored

end Retains

/-! ## One address -/

/-- The address is in the list of its target, available and not
disabled. -/
def Current (b : Balancer) (a : AddressId) : Prop :=
  a ∈ (b.target (b.address a).target).addresses
    ∧ (b.address a).available = true ∧ (b.address a).disabled = false

instance (b : Balancer) (a : AddressId) : Decidable (Current b a) := by
  unfold Current
  infer_instance

theorem Rearranged.current {b b' : Balancer} (h : Rearranged b b') {a : AddressId}
    (ha : Current b a) : Current b' a := by
  rw [Current, h.owner, h.available, h.disabled]
  exact ⟨(h.addresses _).mem_iff.mpr ha.1, ha.2⟩

/-- An entry that is dropped does not take the address with it: it finds
another one, or none. The order of two addresses with one ip and port is
not certain when the algorithm sorts them. -/
def Spared (b : Balancer) (t : TargetId) (a : AddressId) (entry : Entry) : Prop :=
  findAddress b t entry ≠ some a
    ∧ (KeepsOrder b ∨ endpoint (b.target t) entry ≠ ((b.address a).ip, (b.address a).port))

instance (b : Balancer) (t : TargetId) (a : AddressId) (entry : Entry) :
    Decidable (Spared b t a entry) := by
  unfold Spared
  infer_instance

/-- On the way from one balancer to another an address stays in its
place. -/
structure Carries (b₀ b : Balancer) (t : TargetId) (a : AddressId) : Prop where
  registered : Registered b
  listed : a ∈ (b.target t).addresses
  available : (b.address a).available = true
  enabled : (b.address a).disabled = false
  place : (b.address a).ip = (b₀.address a).ip ∧ (b.address a).port = (b₀.address a).port
  port : (b.target t).port = (b₀.target t).port
  order : KeepsOrder b₀ → KeepsOrder b
    ∧ ∀ entry a', findAddress b₀ t entry = some a' → findAddress b t entry = some a'

namespace Carries

variable (lib : Lib) {b₀ b b' : Balancer} {t : TargetId} {a : AddressId}

theorem refl (h : Registered b) (hlisted : a ∈ (b.target t).addresses)
    (havailable : (b.address a).available = true) (henabled : (b.address a).disabled = false) :
    Carries b b t a :=
  ⟨h, hlisted, havailable, henabled, ⟨rfl, rfl⟩, rfl, fun ho => ⟨ho, fun _ _ hfind => hfind⟩⟩

theorem owner (h : Carries b₀ b t a) : (b.address a).target = t :=
  (h.registered.known t a h.listed).2

theorem current (h : Carries b₀ b t a) : Current b a := by
  rw [Current, h.owner]
  exact ⟨h.listed, h.available, h.enabled⟩

theorem endpoint_eq (h : Carries b₀ b t a) (entry : Entry) :
    endpoint (b.target t) entry = endpoint (b₀.target t) entry := by
  rw [endpoint, endpoint, entryPort, entryPort, h.port]

/-- The entry a listed address has the ip and port of finds it or one
before it. -/
theorem find_of_place (hlisted : a ∈ (b.target t).addresses) {entry : Entry}
    (hplace : ((b.address a).ip, (b.address a).port) = endpoint (b.target t) entry) :
    ∃ a', findAddress b t entry = some a' := by
  rw [← Option.isSome_iff_exists, findAddress_eq, List.find?_isSome]
  exact ⟨a, hlisted, decide_eq_true hplace⟩

theorem place_of_find {entry : Entry} (hfind : findAddress b t entry = some a) :
    ((b.address a).ip, (b.address a).port) = endpoint (b.target t) entry := by
  rw [findAddress_eq] at hfind
  have hfound := List.find?_some hfind
  exact of_decide_eq_true hfound

/-- A dropped entry that spares the address does not find it later
either. -/
theorem not_found (h : Carries b₀ b t a) (hlisted : a ∈ (b₀.target t).addresses) {entry : Entry}
    (hspared : Spared b₀ t a entry) : findAddress b t entry ≠ some a := by
  intro hfind
  have hplace := place_of_find hfind
  rw [h.place.1, h.place.2, h.endpoint_eq] at hplace
  rcases hspared.2 with ho | hne
  · obtain ⟨a', ha'⟩ := find_of_place hlisted hplace
    have hsame := (h.order ho).2 entry a' ha'
    rw [hfind] at hsame
    exact hspared.1 (ha'.trans hsame.symm)
  · exact hne hplace.symm

/-- A change that keeps the listed addresses in their places, in front
of new ones. -/
theorem of_change (h : Carries b₀ b t a) (added : List AddressId) (hregistered : Registered b')
    (hlists : (b'.target t).addresses = (b.target t).addresses ++ added)
    (hplace : ∀ a' ∈ (b.target t).addresses, (b'.address a').ip = (b.address a').ip
      ∧ (b'.address a').port = (b.address a').port)
    (havailable : (b'.address a).available = (b.address a).available)
    (henabled : (b'.address a).disabled = (b.address a).disabled)
    (hport : (b'.target t).port = (b.target t).port)
    (halgorithm : b'.algorithm = b.algorithm) : Carries b₀ b' t a where
  registered := hregistered
  listed := by
    rw [hlists]
    exact List.mem_append_left _ h.listed
  available := havailable.trans h.available
  enabled := henabled.trans h.enabled
  place := ⟨(hplace a h.listed).1.trans h.place.1, (hplace a h.listed).2.trans h.place.2⟩
  port := hport.trans h.port
  order := by
    intro ho
    refine ⟨(h.order ho).1.of_algorithm halgorithm, ?_⟩
    intro entry a' hfind
    have hfound := (h.order ho).2 entry a' hfind
    have hpredicate : (b.target t).addresses.find? (fun a' =>
          ((b'.address a').ip, (b'.address a').port) = endpoint (b'.target t) entry)
        = (b.target t).addresses.find? fun a' =>
          ((b.address a').ip, (b.address a').port) = endpoint (b.target t) entry := by
      rw [← List.head?_filter, ← List.head?_filter]
      refine congrArg List.head? (List.filter_congr fun a' ha' => ?_)
      rw [(hplace a' ha').1, (hplace a' ha').2, endpoint, endpoint, entryPort, entryPort, hport]
    rw [findAddress_eq] at hfound ⊢
    rw [hlists, List.find?_append, hpredicate, hfound]
    rfl

theorem afterHostUpdate (h : Carries b₀ b t a) :
    Carries b₀ (afterHostUpdate lib b) t a := by
  have hrearranged := afterHostUpdate_rearranged lib b
  refine ⟨h.registered.afterHostUpdate lib, (hrearranged.addresses t).mem_iff.mpr h.listed,
    (hrearranged.available a).trans h.available, (hrearranged.disabled a).trans h.enabled,
    ⟨(hrearranged.ip a).trans h.place.1, (hrearranged.port a).trans h.place.2⟩,
    (hrearranged.targetPort t).trans h.port, fun ho => ?_⟩
  obtain ⟨hkeeps, hlists⟩ := afterHostUpdate_keepsOrder lib (h.order ho).1
  refine ⟨hkeeps, fun entry a' hfind => ?_⟩
  have hfound := (h.order ho).2 entry a' hfind
  rw [findAddress_eq] at hfound ⊢
  simp only [hlists, hrearranged.ip, hrearranged.port, endpoint, entryPort,
    hrearranged.targetPort] at hfound ⊢
  exact hfound

theorem settle (h : Carries b₀ b t a) :
    Carries b₀ (Balancers.afterHostUpdate lib (updateStatus b)) t a :=
  afterHostUpdate lib ⟨h.registered.updateStatus, h.listed, h.available, h.enabled, h.place,
    h.port, fun ho => ⟨(h.order ho).1.of_algorithm rfl, (h.order ho).2⟩⟩

theorem addAddress (h : Carries b₀ b t a) (entry : Entry) :
    Carries b₀ (addAddress lib b t entry).2 t a := by
  have hold : ∀ a' ∈ (b.target t).addresses, (withAddress b t entry).address a' = b.address a' :=
    fun a' ha' => withAddress_of_ne b entry (h.registered.ne_made ha')
  have ht := h.registered.mem_targets h.listed
  rw [addAddress_eq lib ht]
  refine settle lib (h.of_change [b.made] (h.registered.withAddress ht entry)
    (by rw [withAddress_addresses, if_pos rfl]) ?_ ?_ ?_ (withAddress_target b t entry t).1 rfl)
  · intro a' ha'
    rw [hold a' ha']
    exact ⟨rfl, rfl⟩
  · rw [hold a h.listed]
  · rw [hold a h.listed]

theorem reprice (h : Carries b₀ b t a) (a' : AddressId) (weight : Nat) :
    Carries b₀ (reprice b a' weight (b.address a').available) t a := by
  have haddress := reprice_address b a' weight (b.address a').available
  have htarget := reprice_target b a' weight (b.address a').available t
  refine h.of_change [] (h.registered.reprice a' weight _) ?_
    (fun x _ => (haddress x).2.2) ?_ (haddress a).2.1 htarget.2.1 rfl
  · rw [List.append_nil]
    exact htarget.1
  · by_cases heq : a = a'
    · subst heq
      rw [reprice_self]
    · rw [reprice_of_ne b a' weight _ heq]

theorem changeWeight (h : Carries b₀ b t a) (entry : Entry) (weight : Nat) :
    Carries b₀ (changeWeight lib b t entry weight).2 t a := by
  cases hfind : findAddress b t entry with
  | none =>
    rw [changeWeight_none lib hfind]
    exact h
  | some a' =>
    rw [changeWeight_eq lib hfind (h.registered.known t a' (findAddress_mem hfind)).2]
    exact (h.reprice a' weight).settle lib

theorem disableAddress (h : Carries b₀ b t a) {entry : Entry}
    (hnot : findAddress b t entry ≠ some a) : Carries b₀ (disableAddress lib b t entry) t a := by
  cases hfind : findAddress b t entry with
  | none =>
    rw [disableAddress_none lib hfind]
    exact h
  | some a' =>
    have hne : a ≠ a' := by
      rintro rfl
      exact hnot hfind
    rw [disableAddress_eq lib hfind (h.registered.known t a' (findAddress_mem hfind)).2]
    have hpriced := (h.reprice a' 0).settle lib
    refine hpriced.of_change [] (hpriced.registered.markDisabled a') ?_ ?_ ?_ ?_ rfl rfl
    · rw [List.append_nil]
      rfl
    · intro x _
      exact (markDisabled_address _ a' x).2.2.2
    · exact (markDisabled_address _ a' a).2.2.1
    · rw [markDisabled_of_ne _ a' hne]

theorem mergeEntry (h : Carries b₀ b t a) (oldSorted : List Entry) (entry : Entry) :
    Carries b₀ (mergeEntry lib t oldSorted b entry) t a := by
  cases hkey : entryOfKey oldSorted entry.sortKey with
  | none =>
    rw [mergeEntry_new lib hkey]
    exact h.addAddress lib entry
  | some o =>
    rw [mergeEntry_known lib (b.target t) hkey]
    split
    · exact h.changeWeight lib o _
    · exact h

theorem foldl {f : Balancer → Entry → Balancer} {entries : List Entry}
    (hstep : ∀ b, ∀ entry ∈ entries, Carries b₀ b t a → Carries b₀ (f b entry) t a)
    (h : Carries b₀ b t a) : Carries b₀ (entries.foldl f b) t a := by
  induction entries generalizing b with
  | nil => exact h
  | cons entry rest ih =>
    exact ih (fun b entry' hmem => hstep b entry' (List.mem_cons_of_mem _ hmem))
      (hstep b entry List.mem_cons_self h)

theorem foldl_disableAddress (h : Carries b₀ b t a) (hlisted : a ∈ (b₀.target t).addresses)
    {entries : List Entry} (hspared : ∀ entry ∈ entries, Spared b₀ t a entry) :
    Carries b₀ (entries.foldl (fun b entry => Balancers.disableAddress lib b t entry) b) t a :=
  foldl (fun _ entry hmem hb => hb.disableAddress lib (hb.not_found hlisted (hspared entry hmem))) h

theorem keepAnswer (h : Carries b₀ b t a) (query : Query) (dirty : Bool) :
    Current (keepAnswer lib b t query dirty) a := by
  have hstored : Carries b₀ (remember b t query (sortEntries lib query.entries)) t a := by
    have htarget := remember_target b t query (sortEntries lib query.entries) t
    refine h.of_change [] (h.registered.remember query _) ?_ (fun _ _ => ⟨rfl, rfl⟩)
      rfl rfl htarget.2.1 rfl
    rw [List.append_nil]
    exact htarget.1
  rw [Balancers.keepAnswer]
  split
  · have hafter := hstored.afterHostUpdate lib
    have hdropped : Current (dropDisabled (Balancers.afterHostUpdate lib
        (remember b t query (sortEntries lib query.entries))) t) a := by
      have howner := hafter.owner
      refine ⟨?_, hafter.available, hafter.enabled⟩
      rw [dropDisabled_addresses]
      split
      · refine List.mem_filter.mpr ⟨hafter.listed, ?_⟩
        rw [hafter.enabled]
        rfl
      · rename_i hne
        exact absurd howner hne
    rw [deleteDisabledAddresses_eq]
    split
    · exact (afterHostUpdate_rearranged lib _).current hdropped
    · exact hdropped
  · exact hstored.current

end Carries

/-! ## A query -/

/-- The entries that an answer drops. -/
def droppedEntries (lib : Lib) (target : Target) (entries : List Entry) : List Entry :=
  if TypeChanges target entries then target.known
  else if (keysDone target.known (topEntries (sortEntries lib entries))).length
      = target.known.length then []
  else target.known.filter fun e =>
    e.sortKey ∉ (topEntries (sortEntries lib entries)).map Entry.sortKey

/-- The answer that the addresses are compared with: none if it is the
one the target has, or if the ttl is still 0. -/
def comparedQuery (b : Balancer) (t : TargetId) (now : Nat) : Reply → Option Query
  | .cached => none
  | .answer query =>
    let oldTtl := (((b.target t).lastQuery.map Query.entries).getD []).head?.map Entry.ttl
    let oldFlag := ((b.target t).lastQuery.map Query.ttl0Flag).getD false
    if query.entries.head?.map Entry.ttl = some 0 ∧ (oldTtl.getD 0 = 0 ∨ oldFlag) then
      if oldFlag then none else some (ttl0Query b t now)
    else some query

/-- What the DNS client answers; a failed query counts as an empty
record. -/
def replyOf (dns : Dns) (b : Balancer) (t : TargetId) : Reply :=
  match dns.resolve t with
  | .error _ => .answer ⟨[], dns.now + b.requeryInterval, false⟩
  | .ok reply => reply

/-- The entries that a query of a target drops. -/
def dropsOf (lib : Lib) (dns : Dns) (b : Balancer) (t : TargetId) : List Entry :=
  match comparedQuery b t dns.now (replyOf dns b t) with
  | none => []
  | some query => droppedEntries lib (b.target t) query.entries

section Query

variable (lib : Lib) (dns : Dns) {b : Balancer} {t : TargetId} {a : AddressId}

/-- A query compares an answer, or touches nothing but `lastQuery`. -/
theorem queryDns_cases (b : Balancer) (t : TargetId) :
    (∃ query, comparedQuery b t dns.now (replyOf dns b t) = some query
        ∧ queryDns lib dns b t = updateAddresses lib b t query)
      ∨ (comparedQuery b t dns.now (replyOf dns b t) = none ∧ ∃ lastQuery,
        queryDns lib dns b t
          = b.modifyTarget t fun target => { target with lastQuery := lastQuery }) := by
  have hquery : queryDns lib dns b t = updateDnsResult lib dns.now b t (replyOf dns b t) := by
    rw [queryDns, replyOf]
    cases dns.resolve t with
    | error err => rfl
    | ok reply => rfl
  rw [hquery]
  cases replyOf dns b t with
  | cached =>
    refine .inr ⟨rfl, (b.target t).lastQuery, ?_⟩
    rw [updateDnsResult, Balancer.modifyTarget, Function.update_eq_self]
  | answer query =>
    rw [updateDnsResult, comparedQuery]
    split
    · split
      · exact .inr ⟨rfl, _, rfl⟩
      · exact .inl ⟨_, rfl, rfl⟩
    · exact .inl ⟨_, rfl, rfl⟩

theorem modifyTarget_lastQuery (b : Balancer) (t : TargetId) (lastQuery : Option Query)
    (t' : TargetId) :
    ((b.modifyTarget t fun target => { target with lastQuery := lastQuery }).target t').addresses
      = (b.target t').addresses := by
  by_cases heq : t' = t
  · subst heq
    simp [Balancer.modifyTarget]
  · simp [Balancer.modifyTarget, heq]

theorem Quiet.queryDns (h : Quiet b) (t : TargetId) : Quiet (queryDns lib dns b t) := by
  rcases queryDns_cases lib dns b t with ⟨query, -, heq⟩ | ⟨-, lastQuery, heq⟩
  · rw [heq]
    exact h.updateAddresses lib t query
  · rw [heq]
    have hlists := modifyTarget_lastQuery b t lastQuery
    refine ⟨h.registered.of_lists rfl rfl rfl hlists, h.knows.mono rfl (Nat.le_refl _),
      h.heap.of_lists rfl ?_, ?_⟩
    · intro a ha
      obtain ⟨t', ht', hmem⟩ := List.mem_flatMap.mp ha
      exact List.mem_flatMap.mpr ⟨t', ht', (hlists t').symm ▸ hmem⟩
    · intro t' a ha
      exact h.enabled t' a (hlists t' ▸ ha)

theorem Retains.queryDns (h : Quiet b) (t : TargetId) : Retains b (queryDns lib dns b t) := by
  rcases queryDns_cases lib dns b t with ⟨query, -, heq⟩ | ⟨-, lastQuery, heq⟩
  · rw [heq, updateAddresses_eq]
    exact (Retains.applyAnswer lib (h.updating t) query.entries).trans (.keepAnswer lib _ query _)
  · rw [heq]
    exact .of_tables rfl rfl

/-- An answer keeps the addresses that none of the entries it drops
takes with it. -/
theorem applyAnswer_carries (h : Carries b b t a) {entries : List Entry}
    (hspared : ∀ entry ∈ droppedEntries lib (b.target t) entries, Spared b t a entry) :
    Carries b (applyAnswer lib b t entries).1 t a := by
  rw [droppedEntries] at hspared
  rw [applyAnswer]
  split
  · rename_i hchanges
    rw [if_pos hchanges] at hspared
    have hreversed : ∀ entry ∈ (b.target t).known.reverse, Spared b t a entry :=
      fun entry hmem => hspared entry (List.mem_reverse.mp hmem)
    exact (h.foldl_disableAddress lib h.listed hreversed).foldl
      fun _ entry _ hb => hb.addAddress lib entry
  · rename_i hchanges
    rw [if_neg hchanges] at hspared
    obtain ⟨done, hperm, hfold⟩ := foldl_updateEntry lib t (b.target t).known
      (topEntries (sortEntries lib entries)) b false []
    rw [List.append_nil] at hperm
    have hmerged : Carries b ((topEntries (sortEntries lib entries)).foldl
        (mergeEntry lib t (b.target t).known) b) t a :=
      h.foldl fun _ entry _ hb => hb.mergeEntry lib _ entry
    rw [mergeAddresses, hfold]
    dsimp only
    split
    · rename_i hlen
      rw [hperm.length_eq] at hlen
      rw [if_neg hlen] at hspared
      rw [filter_not_done hperm]
      exact hmerged.foldl_disableAddress lib h.listed hspared
    · exact hmerged

/-- A query keeps the addresses that none of the entries it drops takes
with it. -/
theorem queryDns_current (h : Quiet b) (ha : Current b a)
    (hspared : ∀ entry ∈ dropsOf lib dns b (b.address a).target,
      Spared b (b.address a).target a entry) :
    Current (queryDns lib dns b (b.address a).target) a := by
  rw [dropsOf] at hspared
  rcases queryDns_cases lib dns b (b.address a).target with ⟨query, hcompared, heq⟩
    | ⟨-, lastQuery, heq⟩
  · rw [hcompared] at hspared
    rw [heq, updateAddresses_eq]
    exact (applyAnswer_carries lib (.refl h.registered ha.1 ha.2.1 ha.2.2) hspared).keepAnswer lib
      query _
  · rw [heq]
    refine ⟨?_, ha.2⟩
    rw [modifyTarget_lastQuery]
    exact ha.1

end Query

end KongGateway.Kong.Balancers

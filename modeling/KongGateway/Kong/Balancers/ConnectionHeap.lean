import KongGateway.Kong.Balancers.Steps
import KongGateway.Lib.RatioKey

/-!
# ConnectionHeap — the heap holds the available addresses

A build of the heap takes every listed address that is available, keyed
by its connections and its weight. An update of a target ends every step
with a build; it moves no count. A call pops the addresses that failed
before, and puts them back.
-/

namespace KongGateway.Kong.Balancers

/-! ## The heap of a balancer -/

/-- The connections of an address; none are counted of one that was
never in the heap's lists. -/
def countOf (b : Balancer) (a : AddressId) : Int := (b.address a).connectionCount.getD 0

/-- The key `(connectionCount + 1) / weight`. -/
def keyOf (b : Balancer) (a : AddressId) : HeapValue := (countOf b a + 1, (b.address a).weight)

def heapEntry (b : Balancer) (a : AddressId) : HeapValue × AddressId := (keyOf b a, a)

/-- The addresses that can be picked. -/
def availableOf (b : Balancer) : List AddressId :=
  b.allAddresses.filter fun a => (b.address a).available

/-- What the heap is to hold. -/
def heapOf (b : Balancer) : List (HeapValue × AddressId) := (availableOf b).map (heapEntry b)

/-- The algorithm is least connections, and its heap holds exactly what
it is to hold. -/
structure HeapFits (b : Balancer) (built : LeastConnections) : Prop where
  algorithm : b.algorithm = some (.leastConnections built)
  heap : built.binaryHeap.Perm (heapOf b)
  counted : ∀ a ∈ b.allAddresses, (b.address a).connectionCount.isSome = true

section Build

variable {b b' : Balancer} {self : LeastConnections}

theorem mem_availableOf {a : AddressId} :
    a ∈ availableOf b ↔ a ∈ b.allAddresses ∧ (b.address a).available = true := List.mem_filter

theorem map_snd_heapOf (b : Balancer) : (heapOf b).map Prod.snd = availableOf b := by
  rw [heapOf, List.map_map]
  exact List.map_id _

theorem HeapFits.payloads (h : HeapFits b self) :
    (self.binaryHeap.map Prod.snd).Perm (availableOf b) :=
  map_snd_heapOf b ▸ h.heap.map Prod.snd

theorem HeapFits.entry_eq (h : HeapFits b self) {entry : HeapValue × AddressId}
    (hentry : entry ∈ self.binaryHeap) : entry = heapEntry b entry.2 := by
  obtain ⟨a, -, rfl⟩ := List.mem_map.mp (h.heap.mem_iff.mp hentry)
  rfl

/-- The heap fits as long as the lists, the marks, the weights and the
counts are the same. -/
theorem HeapFits.of_tables (h : HeapFits b self) (halgorithm : b'.algorithm = b.algorithm)
    (hlists : b'.allAddresses = b.allAddresses)
    (haddress : ∀ a, (b'.address a).available = (b.address a).available
      ∧ (b'.address a).weight = (b.address a).weight
      ∧ (b'.address a).connectionCount = (b.address a).connectionCount) : HeapFits b' self where
  algorithm := halgorithm.trans h.algorithm
  heap := by
    have hentry : heapEntry b' = heapEntry b := by
      funext a
      rw [heapEntry, heapEntry, keyOf, keyOf, countOf, countOf, (haddress a).2.1, (haddress a).2.2]
    have havailable : availableOf b' = availableOf b := by
      rw [availableOf, availableOf, hlists]
      exact List.filter_congr fun a _ => (haddress a).1
    rw [heapOf, havailable, hentry]
    exact h.heap
  counted := by
    intro a ha
    rw [(haddress a).2.2]
    exact h.counted a (hlists ▸ ha)

/-- The balancer with the connections of some addresses counted. -/
def withCounts (b : Balancer) (as : List AddressId) : Balancer :=
  { b with
    address := fun a =>
      if a ∈ as then { b.address a with connectionCount := some (countOf b a) } else b.address a }

theorem withCounts_address (b : Balancer) (as : List AddressId) (a : AddressId) :
    ((withCounts b as).address a).available = (b.address a).available
      ∧ ((withCounts b as).address a).weight = (b.address a).weight
      ∧ countOf (withCounts b as) a = countOf b a := by
  simp only [withCounts, countOf]
  split <;> exact ⟨rfl, rfl, rfl⟩

theorem heapEntry_withCounts (b : Balancer) (as : List AddressId) :
    heapEntry (withCounts b as) = heapEntry b := by
  funext a
  obtain ⟨-, hweight, hcount⟩ := withCounts_address b as a
  rw [heapEntry, heapEntry, keyOf, keyOf, hweight, hcount]

theorem heapOf_withCounts (b : Balancer) (as : List AddressId) :
    heapOf (withCounts b as) = heapOf b := by
  have havailable : availableOf (withCounts b as) = availableOf b :=
    List.filter_congr fun a _ => (withCounts_address b as a).1
  rw [heapOf, heapOf, havailable, heapEntry_withCounts]

theorem insertAddr_eq (b : Balancer) (heap : List (HeapValue × AddressId)) (a : AddressId) :
    insertAddr b heap a
      = (withCounts b [a],
          if (b.address a).available then heap ++ [heapEntry b a] else heap) := by
  have htable : (b.modifyAddress a fun address =>
      { address with connectionCount := some (countOf b a) }) = withCounts b [a] := by
    rw [Balancer.modifyAddress, withCounts]
    congr 1
    funext a'
    by_cases heq : a' = a
    · subst heq
      simp
    · simp [heq]
  rw [insertAddr, ← htable]
  split <;> rfl

theorem foldl_insertAddr_eq (as : List AddressId) (b : Balancer)
    (heap : List (HeapValue × AddressId)) :
    as.foldl (fun (b, heap) a => insertAddr b heap a) (b, heap)
      = (withCounts b as,
          heap ++ (as.filter fun a => (b.address a).available).map (heapEntry b)) := by
  induction as generalizing b heap with
  | nil => simp [withCounts]
  | cons a rest ih =>
    have hcounts : withCounts (withCounts b [a]) rest = withCounts b (a :: rest) := by
      rw [withCounts, withCounts, withCounts]
      congr 1
      funext a'
      by_cases heq : a' = a
      · subst heq
        by_cases hmem : a' ∈ rest <;> simp [hmem, countOf]
      · by_cases hmem : a' ∈ rest <;> simp [hmem, heq, countOf]
    have hfilter : (rest.filter fun a' => ((withCounts b [a]).address a').available)
        = rest.filter fun a' => (b.address a').available :=
      List.filter_congr fun a' _ => (withCounts_address b [a] a').1
    rw [List.foldl_cons]
    dsimp only
    rw [insertAddr_eq, ih, hcounts, hfilter, heapEntry_withCounts]
    cases havailable : (b.address a).available with
    | true => simp [havailable]
    | false => simp [havailable]

theorem leastConnectionsAfterHostUpdate_eq (b : Balancer) :
    leastConnectionsAfterHostUpdate b
      = { withCounts b b.allAddresses with algorithm := some (.leastConnections ⟨heapOf b⟩) } := by
  simp only [leastConnectionsAfterHostUpdate, foldl_insertAddr_eq, List.nil_append]
  rfl

theorem leastConnectionsAfterHostUpdate_fits (b : Balancer) :
    HeapFits (leastConnectionsAfterHostUpdate b) ⟨heapOf b⟩ := by
  rw [leastConnectionsAfterHostUpdate_eq]
  refine ⟨rfl, .of_eq (heapOf_withCounts b b.allAddresses).symm, fun a ha => ?_⟩
  have hmem : a ∈ b.allAddresses := ha
  simp [withCounts, hmem]

end Build

/-! ## Updates move no count -/

/-- No count moves, and none of a new address starts above 0. -/
structure KeepsCounts (b b' : Balancer) : Prop where
  made : b.made ≤ b'.made
  count : ∀ a < b.made, countOf b' a = countOf b a
  counted : ∀ a < b.made, (b.address a).connectionCount.isSome = true →
    (b'.address a).connectionCount.isSome = true
  fresh : ∀ a, b.made ≤ a → a < b'.made → countOf b' a = 0

namespace KeepsCounts

variable {b b' b'' : Balancer}

theorem trans (h : KeepsCounts b b') (h' : KeepsCounts b' b'') : KeepsCounts b b'' where
  made := h.made.trans h'.made
  count a ha := (h'.count a (Nat.lt_of_lt_of_le ha h.made)).trans (h.count a ha)
  counted a ha hsome := h'.counted a (Nat.lt_of_lt_of_le ha h.made) (h.counted a ha hsome)
  fresh := by
    intro a hold hnew
    rcases Nat.lt_or_ge a b'.made with hlt | hge
    · exact (h'.count a hlt).trans (h.fresh a hold hlt)
    · exact h'.fresh a hge hnew

theorem of_address (hmade : b'.made = b.made)
    (haddress : ∀ a, countOf b' a = countOf b a
      ∧ ((b.address a).connectionCount.isSome = true →
        (b'.address a).connectionCount.isSome = true)) : KeepsCounts b b' where
  made := hmade.ge
  count a _ := (haddress a).1
  counted a _ := (haddress a).2
  fresh _ hold hnew := absurd hnew (Nat.not_lt.mpr (hmade.symm ▸ hold))

theorem of_tables (haddress : b'.address = b.address) (hmade : b'.made = b.made) :
    KeepsCounts b b' := by
  refine of_address hmade fun a => ?_
  rw [countOf, countOf, haddress]
  exact ⟨rfl, id⟩

theorem refl (b : Balancer) : KeepsCounts b b := of_tables rfl rfl

theorem withCounts (b : Balancer) (as : List AddressId) : KeepsCounts b (withCounts b as) := by
  refine of_address rfl fun a => ⟨(withCounts_address b as a).2.2, fun hsome => ?_⟩
  rw [Balancers.withCounts]
  dsimp only
  split
  · rfl
  · exact hsome

theorem afterHostUpdate (lib : Lib) (b : Balancer) : KeepsCounts b (afterHostUpdate lib b) := by
  rw [Balancers.afterHostUpdate]
  split
  · exact refl b
  · rw [roundRobinAfterHostUpdate]
    split
    · exact of_tables rfl rfl
    · exact of_tables rfl rfl
  · rw [consistentHashingAfterHostUpdate]
    split
    · exact of_tables rfl rfl
    · exact of_tables rfl rfl
  · rw [leastConnectionsAfterHostUpdate_eq]
    exact (withCounts b b.allAddresses).trans (of_tables rfl rfl)
  · rw [latencyAfterHostUpdate]
    split
    · exact of_tables rfl rfl
    · exact of_tables rfl rfl

theorem settle (lib : Lib) (b : Balancer) :
    KeepsCounts b (Balancers.afterHostUpdate lib (updateStatus b)) := by
  have hstatus : KeepsCounts b (updateStatus b) := of_tables rfl rfl
  exact hstatus.trans (afterHostUpdate lib _)

theorem reprice (b : Balancer) (a : AddressId) (weight : Nat) (available : Bool) :
    KeepsCounts b (reprice b a weight available) := by
  refine of_address rfl fun a' => ?_
  rw [countOf, countOf]
  by_cases heq : a' = a
  · subst heq
    rw [reprice_self]
    exact ⟨rfl, id⟩
  · rw [reprice_of_ne b a weight available heq]
    exact ⟨rfl, id⟩

theorem markDisabled (b : Balancer) (a : AddressId) : KeepsCounts b (markDisabled b a) := by
  refine of_address rfl fun a' => ?_
  rw [countOf, countOf]
  by_cases heq : a' = a
  · subst heq
    rw [markDisabled_self]
    exact ⟨rfl, id⟩
  · rw [markDisabled_of_ne b a heq]
    exact ⟨rfl, id⟩

theorem withAddress (b : Balancer) (t : TargetId) (entry : Entry) :
    KeepsCounts b (withAddress b t entry) where
  made := Nat.le_succ _
  count := by
    intro a ha
    rw [countOf, countOf, withAddress_of_ne b entry (Nat.ne_of_lt ha)]
  counted := by
    intro a ha hsome
    rw [withAddress_of_ne b entry (Nat.ne_of_lt ha)]
    exact hsome
  fresh := by
    intro a hold hnew
    obtain rfl : a = b.made := Nat.le_antisymm (Nat.le_of_lt_succ hnew) hold
    rw [countOf, withAddress_made]
    rfl

end KeepsCounts

section Steps

variable (lib : Lib) {b b' : Balancer} {t : TargetId} {self : LeastConnections}

theorem DnsStep.keepsCounts (h : DnsStep lib t b b') : KeepsCounts b b' := by
  cases h with
  | add entry ht => exact (KeepsCounts.withAddress b t entry).trans (.settle lib _)
  | reweigh weight ha henabled => exact (KeepsCounts.reprice b _ _ _).trans (.settle lib _)
  | disable ha =>
    exact ((KeepsCounts.reprice b _ _ _).trans (.settle lib _)).trans (.markDisabled _ _)
  | remember query sorted => exact .of_tables rfl rfl
  | finish =>
    have hdropped : ∀ b, KeepsCounts b (dropDisabled b t) := fun b => .of_tables rfl rfl
    rw [deleteDisabledAddresses_eq]
    split
    · exact ((KeepsCounts.afterHostUpdate lib b).trans (hdropped _)).trans (.afterHostUpdate lib _)
    · exact (KeepsCounts.afterHostUpdate lib b).trans (hdropped _)
  | prolong lastQuery => exact .of_tables rfl rfl

theorem KeepsCounts.queryDns (h : Quiet b) (dns : Dns) (t : TargetId) :
    KeepsCounts b (queryDns lib dns b t) :=
  queryDns_induction lib (P := KeepsCounts b) (fun _ hstep hP => hP.trans (hstep.keepsCounts lib)) dns
    h (.refl b)

theorem KeepsCounts.setAddressStatus (b : Balancer) (a : AddressId) (available : Bool) :
    KeepsCounts b (setAddressStatus lib b a available).2 :=
  setAddressStatus_induction lib (P := KeepsCounts b) (.refl b) fun _ _ =>
    (KeepsCounts.reprice b a _ available).trans (.settle lib _)

theorem KeepsCounts.newAlgorithm (algorithm : AlgorithmType) (b : Balancer) :
    KeepsCounts b (newAlgorithm lib algorithm b) := by
  have hempty : KeepsCounts b { b with algorithm := some algorithm.empty } := of_tables rfl rfl
  exact hempty.trans (.afterHostUpdate lib _)

theorem HeapFits.afterHostUpdate (h : HeapFits b self) (halgorithm : b'.algorithm = b.algorithm) :
    ∃ built, HeapFits (afterHostUpdate lib b') built := by
  rw [Balancers.afterHostUpdate, halgorithm, h.algorithm]
  exact ⟨_, leastConnectionsAfterHostUpdate_fits b'⟩

theorem allAddresses_modifyTarget {f : Target → Target}
    (hlist : (f (b.target t)).addresses = (b.target t).addresses) :
    (b.modifyTarget t f).allAddresses = b.allAddresses := by
  rw [Balancer.allAddresses, Balancer.allAddresses, List.flatMap_def, List.flatMap_def]
  refine congrArg List.flatten (List.map_congr_left fun t' _ => ?_)
  by_cases heq : t' = t
  · subst heq
    simpa [Balancer.modifyTarget] using hlist
  · simp [Balancer.modifyTarget, heq]

theorem DnsStep.heapFits (h : DnsStep lib t b b') (hb : ∃ self, HeapFits b self) :
    ∃ self, HeapFits b' self := by
  obtain ⟨self, hfits⟩ := hb
  cases h with
  | add entry ht => exact hfits.afterHostUpdate lib rfl
  | reweigh weight ha henabled => exact hfits.afterHostUpdate lib rfl
  | @disable a ha =>
    have hbuild : ∃ built, HeapFits (Balancers.afterHostUpdate lib
        (updateStatus (reprice b a 0 (b.address a).available))) built :=
      hfits.afterHostUpdate lib rfl
    obtain ⟨built, hbuilt⟩ := hbuild
    refine ⟨built, hbuilt.of_tables rfl rfl fun a' => ?_⟩
    obtain ⟨-, hweight, havailable, -⟩ := markDisabled_address (Balancers.afterHostUpdate lib
      (updateStatus (reprice b a 0 (b.address a).available))) a a'
    refine ⟨havailable, hweight, ?_⟩
    by_cases heq : a' = a
    · subst heq
      rw [markDisabled_self]
    · rw [markDisabled_of_ne _ a heq]
  | remember query sorted =>
    exact ⟨self, hfits.of_tables rfl (allAddresses_modifyTarget rfl) fun _ => ⟨rfl, rfl, rfl⟩⟩
  | finish =>
    have hbuild : ∃ built, HeapFits (Balancers.afterHostUpdate lib b) built :=
      hfits.afterHostUpdate lib rfl
    obtain ⟨built, hbuilt⟩ := hbuild
    rw [deleteDisabledAddresses_eq]
    split
    · exact hbuilt.afterHostUpdate lib rfl
    · rename_i hnone
      exact ⟨built, hbuilt.of_tables rfl (allAddresses_modifyTarget (filter_enabled hnone))
        fun _ => ⟨rfl, rfl, rfl⟩⟩
  | prolong lastQuery =>
    exact ⟨self, hfits.of_tables rfl (allAddresses_modifyTarget rfl) fun _ => ⟨rfl, rfl, rfl⟩⟩

theorem HeapFits.queryDns (h : HeapFits b self) (hquiet : Quiet b) (dns : Dns) (t : TargetId) :
    ∃ built, HeapFits (queryDns lib dns b t) built :=
  queryDns_induction lib (P := fun b => ∃ self, HeapFits b self)
    (fun _ hstep hP => hstep.heapFits lib hP) dns hquiet ⟨self, h⟩

end Steps

/-! ## A count moves -/

/-- The connections of an address move. -/
def recount (b : Balancer) (a : AddressId) (delta : Int) : Balancer :=
  b.modifyAddress a fun address => { address with connectionCount := some (countOf b a + delta) }

/-- The balancer with another heap. -/
def withHeap (b : Balancer) (self : LeastConnections) : Balancer :=
  { b with algorithm := some (.leastConnections self) }

section Recount

variable {b : Balancer} {self : LeastConnections} {a : AddressId}

theorem recount_recounted (b : Balancer) (a : AddressId) (delta : Int) :
    Recounted b (recount b a delta) := .count b a _

theorem countOf_recount (b : Balancer) (a : AddressId) (delta : Int) (x : AddressId) :
    countOf (recount b a delta) x = countOf b x + if x = a then delta else 0 := by
  by_cases heq : x = a
  · subst heq
    simp [countOf, recount, Balancer.modifyAddress]
  · simp [countOf, recount, Balancer.modifyAddress, heq]

theorem recount_counted {delta : Int} {x : AddressId}
    (h : x = a ∨ (b.address x).connectionCount.isSome = true) :
    ((recount b a delta).address x).connectionCount.isSome = true := by
  by_cases heq : x = a
  · subst heq
    simp [recount, Balancer.modifyAddress]
  · simpa [recount, Balancer.modifyAddress, heq] using h

theorem availableOf_recount (b : Balancer) (a : AddressId) (delta : Int) :
    availableOf (recount b a delta) = availableOf b :=
  List.filter_congr fun x _ => (recount_recounted b a delta).rearranged.available x

theorem heapEntry_recount (delta : Int) (x : AddressId) :
    heapEntry (recount b a delta) x
      = if x = a then ((countOf b a + delta + 1, (b.address a).weight), a) else heapEntry b x := by
  rw [heapEntry, keyOf, countOf_recount, (recount_recounted b a delta).rearranged.weight]
  split
  · rename_i heq
    rw [heq]
  · rw [Int.add_zero]
    rfl

/-- A count that moves takes the entry of the address along. The heap
raises on an available address that it does not have. -/
theorem updateConnectionCount_eq (hcounted : (b.address a).connectionCount.isSome = true)
    (self : LeastConnections) (delta : Int) :
    updateConnectionCount self b a delta
      = if (b.address a).available then
          if a ∈ self.binaryHeap.map Prod.snd then
            let moved : LeastConnections := ⟨self.binaryHeap.map fun entry =>
              if entry.2 = a then ((countOf b a + delta + 1, (b.address a).weight), entry.2)
              else entry⟩
            some (moved, withHeap (recount b a delta) moved)
          else none
        else some (self, recount b a delta) := by
  obtain ⟨count, hcount⟩ := Option.isSome_iff_exists.mp hcounted
  have hcountOf : countOf b a = count := by rw [countOf, hcount]; rfl
  have hrecount : (b.modifyAddress a fun addr =>
      { addr with connectionCount := some (count + delta) }) = recount b a delta := by
    rw [recount, hcountOf]
  have hrearranged := (recount_recounted b a delta).rearranged
  rw [updateConnectionCount, hcount]
  dsimp only
  rw [hrecount, hrearranged.available, hrearranged.weight, hcountOf]
  cases (b.address a).available with
  | false => rfl
  | true => rfl

theorem updateConnectionCount_fits (h : HeapFits b self)
    (hcounted : (b.address a).connectionCount.isSome = true)
    (hlisted : (b.address a).available = true → a ∈ b.allAddresses) (delta : Int) :
    ∃ moved, updateConnectionCount self b a delta = some (moved, withHeap (recount b a delta) moved)
      ∧ HeapFits (withHeap (recount b a delta) moved) moved := by
  have hcounted' : ∀ x ∈ b.allAddresses,
      ((recount b a delta).address x).connectionCount.isSome = true :=
    fun x hx => recount_counted (.inr (h.counted x hx))
  rw [updateConnectionCount_eq hcounted]
  by_cases havailable : (b.address a).available = true
  · have hmem : a ∈ self.binaryHeap.map Prod.snd :=
      h.payloads.mem_iff.mpr (mem_availableOf.mpr ⟨hlisted havailable, havailable⟩)
    rw [if_pos havailable, if_pos hmem]
    refine ⟨_, rfl, rfl, (h.heap.map _).trans (.of_eq ?_), hcounted'⟩
    show _ = (availableOf (recount b a delta)).map (heapEntry (recount b a delta))
    rw [heapOf, availableOf_recount, List.map_map]
    refine List.map_congr_left fun x _ => ?_
    rw [heapEntry_recount]
    by_cases heq : x = a
    · simp [heapEntry, heq]
    · simp [heapEntry, heq]
  · rw [if_neg havailable]
    have hsame : withHeap (recount b a delta) self = recount b a delta := by
      have halgorithm : (recount b a delta).algorithm = some (.leastConnections self) := h.algorithm
      rw [withHeap, ← halgorithm]
    refine ⟨self, by rw [hsame], rfl, h.heap.trans (.of_eq ?_), hcounted'⟩
    show _ = (availableOf (recount b a delta)).map (heapEntry (recount b a delta))
    rw [heapOf, availableOf_recount]
    refine List.map_congr_left fun x hx => ?_
    have hne : x ≠ a := by
      rintro rfl
      exact havailable (mem_availableOf.mp hx).2
    rw [heapEntry_recount, if_neg hne]

end Recount

/-! ## The search -/

/-- The heap gives the payload of a least value, as its library says. -/
def LeastFirst (lib : Lib) : Prop :=
  ∀ heap a, (∀ entry ∈ heap, 0 < entry.1.1) → lib.peek heap = some a →
    ∃ value, (value, a) ∈ heap ∧ ∀ entry ∈ heap, RatioKey.le value entry.1

/-- The available addresses that have not failed; when all have failed,
all of them again. -/
def candidates (b : Balancer) (failed : List AddressId) : List AddressId :=
  let untried := (availableOf b).filter fun a => a ∉ failed
  if untried = [] then availableOf b else untried

/-- A candidate of least key. -/
def MayPick (b : Balancer) (failed : List AddressId) (a : AddressId) : Prop :=
  a ∈ candidates b failed ∧ ∀ x ∈ candidates b failed, RatioKey.le (keyOf b a) (keyOf b x)

section Search

variable (lib : Lib) {b : Balancer} {self : LeastConnections}

theorem perm_popHeap {heap : List (HeapValue × AddressId)} {a : AddressId}
    (hnodup : (heap.map Prod.snd).Nodup) (hpeek : lib.peek heap = some a) :
    (a :: (popHeap lib heap).map Prod.snd).Perm (heap.map Prod.snd) := by
  have hmem := lib.peek_mem hpeek
  have hrest : (popHeap lib heap).map Prod.snd = (heap.map Prod.snd).erase a := by
    rw [popHeap, hpeek, hnodup.erase_eq_filter, List.filter_map]
    refine congrArg (List.map Prod.snd) (List.filter_congr fun entry _ => ?_)
    simp [Bool.beq_eq_decide_eq, bne]
  rw [hrest]
  exact (List.perm_cons_erase hmem).symm

/-- The loop pops addresses that have failed, from the least one on,
until the top is one that has not, or nothing is left. -/
theorem popFailed_spec (failed : List AddressId) (fuel : Nat) (address : Option AddressId)
    (heap : List (HeapValue × AddressId)) (reinsert : List AddressId)
    (hnodup : ((storeFailed lib heap reinsert address).1.map Prod.snd).Nodup)
    (hfuel : (storeFailed lib heap reinsert address).1.length < fuel) :
    ∃ popped found rest,
      popFailed lib failed fuel address heap reinsert
          = (found, (storeFailed lib heap reinsert address).2 ++ popped, rest)
        ∧ (∀ a ∈ popped, a ∈ failed)
        ∧ (∀ entry ∈ rest, entry ∈ (storeFailed lib heap reinsert address).1)
        ∧ (popped ++ rest.map Prod.snd).Perm
          ((storeFailed lib heap reinsert address).1.map Prod.snd)
        ∧ (found = none → rest = []
          ∧ popped.head? = lib.peek (storeFailed lib heap reinsert address).1)
        ∧ ∀ a, found = some a → a ∉ failed ∧ lib.peek rest = some a := by
  induction fuel generalizing address heap reinsert with
  | zero => exact absurd hfuel (Nat.not_lt_zero _)
  | succ fuel ih =>
    rw [popFailed]
    revert hnodup hfuel
    generalize storeFailed lib heap reinsert address = stored
    obtain ⟨top, kept⟩ := stored
    intro hnodup hfuel
    dsimp only at hnodup hfuel ⊢
    cases hpeek : lib.peek top with
    | none =>
      refine ⟨[], none, top, by simp, by simp, fun _ hentry => hentry, by simp, ?_, by simp⟩
      exact fun _ => ⟨lib.peek_none hpeek, rfl⟩
    | some a =>
      by_cases hfailed : a ∈ failed
      · have hperm := perm_popHeap lib hnodup hpeek
        have hnodup' : (a :: (popHeap lib top).map Prod.snd).Nodup := hperm.nodup_iff.mpr hnodup
        have hlength := hperm.length_eq
        rw [List.length_cons, List.length_map, List.length_map] at hlength
        have hlt : (storeFailed lib top kept (some a)).1.length < fuel := by
          rw [storeFailed]
          dsimp only
          omega
        obtain ⟨popped, found, rest, heq, hpopped, hrest, hleft, hnone, hsome⟩ :=
          ih (some a) top kept (List.nodup_cons.mp hnodup').2 hlt
        refine ⟨a :: popped, found, rest, ?_, ?_, ?_, ?_, ?_, hsome⟩
        · dsimp only
          rw [if_pos hfailed, heq, storeFailed]
          simp
        · intro x hx
          rcases List.mem_cons.mp hx with rfl | hmem
          · exact hfailed
          · exact hpopped x hmem
        · intro entry hentry
          have hpop := hrest entry hentry
          rw [storeFailed, popHeap, hpeek] at hpop
          exact List.mem_of_mem_filter hpop
        · exact (hleft.cons a).trans hperm
        · exact fun hfound => ⟨(hnone hfound).1, rfl⟩
      · refine ⟨[], some a, top, ?_, by simp, fun _ hentry => hentry, by simp, by simp, ?_⟩
        · dsimp only
          rw [if_neg hfailed, List.append_nil]
        · intro x hx
          obtain rfl := Option.some.inj hx
          exact ⟨hfailed, hpeek⟩

theorem foldlM_reinsertAddr_eq (as : List AddressId) (heap : List (HeapValue × AddressId))
    (hnodup : (heap.map Prod.snd ++ as).Nodup)
    (hcounted : ∀ a ∈ as, (b.address a).connectionCount.isSome = true)
    (havailable : ∀ a ∈ as, (b.address a).available = true) :
    as.foldlM reinsertAddr (b, heap) = some (b, heap ++ as.map (heapEntry b)) := by
  induction as generalizing heap with
  | nil => simp
  | cons a rest ih =>
    have hnew : a ∉ heap.map Prod.snd := fun hmem =>
      (List.nodup_append.mp hnodup).2.2 a hmem a List.mem_cons_self rfl
    have hsame : withCounts b [a] = b := by
      obtain ⟨count, hcount⟩ := Option.isSome_iff_exists.mp (hcounted a List.mem_cons_self)
      have haddress : (fun a' => if a' ∈ [a] then
          { b.address a' with connectionCount := some (countOf b a') } else b.address a')
          = b.address := by
        funext a'
        by_cases heq : a' = a
        · subst heq
          have hself : countOf b a' = count := by rw [countOf, hcount]; rfl
          rw [if_pos (List.mem_singleton_self _), hself, ← hcount]
        · rw [if_neg (by simpa using heq)]
      rw [withCounts, haddress]
    have hstep : reinsertAddr (b, heap) a = some (b, heap ++ [heapEntry b a]) := by
      rw [reinsertAddr, insertAddr_eq, hsame]
      dsimp only
      rw [havailable a List.mem_cons_self, if_pos rfl, Bool.true_and, if_neg (by simpa using hnew)]
    have hrest := ih (heap ++ [heapEntry b a])
      (by
        rw [List.map_append, List.append_assoc]
        exact hnodup)
      (fun x hx => hcounted x (List.mem_cons_of_mem a hx))
      (fun x hx => havailable x (List.mem_cons_of_mem a hx))
    rw [List.foldlM_cons, hstep, Option.bind_eq_bind, Option.bind_some, hrest, List.map_cons,
      List.append_assoc, List.singleton_append]

theorem least_of_peek (hleast : LeastFirst lib) {heap : List (HeapValue × AddressId)}
    (hentries : ∀ entry ∈ heap, entry = heapEntry b entry.2 ∧ 0 ≤ countOf b entry.2)
    {a : AddressId} (hpeek : lib.peek heap = some a) :
    ∀ entry ∈ heap, RatioKey.le (keyOf b a) (keyOf b entry.2) := by
  have hpos : ∀ entry ∈ heap, 0 < entry.1.1 := by
    intro entry hentry
    obtain ⟨heq, hnonneg⟩ := hentries entry hentry
    rw [heq]
    exact Int.lt_add_one_of_le hnonneg
  obtain ⟨value, hvalue, hle⟩ := hleast heap a hpos hpeek
  intro entry hentry
  have hself : value = keyOf b a := congrArg Prod.fst (hentries _ hvalue).1
  have hother : entry.1 = keyOf b entry.2 := congrArg Prod.fst (hentries _ hentry).1
  have hcompare := hle entry hentry
  rwa [hself, hother] at hcompare

theorem candidates_of_untried {failed : List AddressId} {a : AddressId} (ha : a ∈ availableOf b)
    (huntried : a ∉ failed) :
    candidates b failed = (availableOf b).filter fun a => a ∉ failed := by
  refine if_neg fun hnil => ?_
  have hmem : a ∈ (availableOf b).filter fun a => a ∉ failed :=
    List.mem_filter.mpr ⟨ha, decide_eq_true huntried⟩
  rw [hnil] at hmem
  exact List.not_mem_nil hmem

theorem candidates_of_all {failed : List AddressId} (hall : ∀ a ∈ availableOf b, a ∈ failed) :
    candidates b failed = availableOf b := by
  refine if_pos (List.filter_eq_nil_iff.mpr fun a ha => ?_)
  simpa using hall a ha

theorem HeapFits.reinserted (h : HeapFits b self) (hnodup : b.allAddresses.Nodup)
    {popped : List AddressId} {rest : List (HeapValue × AddressId)}
    (hrest : ∀ entry ∈ rest, entry ∈ self.binaryHeap)
    (hleft : (popped ++ rest.map Prod.snd).Perm (self.binaryHeap.map Prod.snd)) :
    popped.foldlM reinsertAddr (b, rest) = some (b, rest ++ popped.map (heapEntry b))
      ∧ HeapFits (withHeap b ⟨rest ++ popped.map (heapEntry b)⟩)
        ⟨rest ++ popped.map (heapEntry b)⟩ := by
  have hwhole := (List.perm_append_comm.trans hleft).trans h.payloads
  have havailable : ∀ a ∈ popped, a ∈ availableOf b := fun a ha =>
    hwhole.mem_iff.mp (List.mem_append_right _ ha)
  constructor
  · refine foldlM_reinsertAddr_eq popped rest ?_ (fun a ha => ?_) (fun a ha => ?_)
    · exact hwhole.nodup_iff.mpr (hnodup.filter _)
    · exact h.counted a (mem_availableOf.mp (havailable a ha)).1
    · exact (mem_availableOf.mp (havailable a ha)).2
  · refine ⟨rfl, ?_, h.counted⟩
    have hentries : (rest.map Prod.snd).map (heapEntry b) = rest := by
      rw [List.map_map]
      refine (List.map_congr_left fun entry hentry => ?_).trans (List.map_id rest)
      exact (h.entry_eq (hrest entry hentry)).symm
    have hheap := hwhole.map (heapEntry b)
    rwa [List.map_append, hentries] at hheap

/-- The top of what is left is a candidate of least key, when it has not
failed. -/
theorem mayPick_of_untried (hleast : LeastFirst lib) (h : HeapFits b self)
    (hnonneg : ∀ a ∈ availableOf b, 0 ≤ countOf b a) {failed popped : List AddressId}
    {rest : List (HeapValue × AddressId)} (hpopped : ∀ a ∈ popped, a ∈ failed)
    (hrest : ∀ entry ∈ rest, entry ∈ self.binaryHeap)
    (hleft : (popped ++ rest.map Prod.snd).Perm (self.binaryHeap.map Prod.snd)) {a : AddressId}
    (huntried : a ∉ failed) (hpeek : lib.peek rest = some a) : MayPick b failed a := by
  have hwhole := hleft.trans h.payloads
  have ha : a ∈ availableOf b :=
    hwhole.mem_iff.mp (List.mem_append_right _ (lib.peek_mem hpeek))
  rw [MayPick, candidates_of_untried ha huntried]
  refine ⟨List.mem_filter.mpr ⟨ha, decide_eq_true huntried⟩, fun x hx => ?_⟩
  obtain ⟨hx, hxfailed⟩ := List.mem_filter.mp hx
  -- what has not failed was not popped
  rcases List.mem_append.mp (hwhole.mem_iff.mpr hx) with hpop | hkept
  · exact absurd (hpopped x hpop) (of_decide_eq_true hxfailed)
  · obtain ⟨entry, hentry, rfl⟩ := List.mem_map.mp hkept
    refine least_of_peek lib hleast (fun entry hentry => ?_) hpeek entry hentry
    have hmem := hwhole.mem_iff.mp (List.mem_append_right _ (List.mem_map_of_mem hentry))
    exact ⟨h.entry_eq (hrest entry hentry), hnonneg _ hmem⟩

/-- The top of the heap is a candidate of least key, when all have
failed. -/
theorem mayPick_of_all (hleast : LeastFirst lib) (h : HeapFits b self)
    (hnonneg : ∀ a ∈ availableOf b, 0 ≤ countOf b a) {failed : List AddressId}
    (hall : ∀ a ∈ availableOf b, a ∈ failed) {a : AddressId}
    (hpeek : lib.peek self.binaryHeap = some a) : MayPick b failed a := by
  rw [MayPick, candidates_of_all hall]
  refine ⟨h.payloads.mem_iff.mp (lib.peek_mem hpeek), fun x hx => ?_⟩
  obtain ⟨entry, hentry, rfl⟩ := List.mem_map.mp (h.payloads.mem_iff.mpr hx)
  refine least_of_peek lib hleast (fun entry hentry => ?_) hpeek entry hentry
  have hmem := h.payloads.mem_iff.mp (List.mem_map_of_mem hentry)
  exact ⟨h.entry_eq hentry, hnonneg _ hmem⟩

/-- The search picks a candidate of least key, and leaves the heap with
what it had. -/
theorem nextAddress_fits (hleast : LeastFirst lib) (h : HeapFits b self)
    (hnodup : b.allAddresses.Nodup) (hnonneg : ∀ a ∈ availableOf b, 0 ≤ countOf b a)
    (hsome : availableOf b ≠ []) (handle : Handle) :
    ∃ a handle' self', nextAddress lib none handle self b
        = some (some a, handle', self', withHeap b self')
      ∧ HeapFits (withHeap b self') self'
      ∧ MayPick b (handle.failedAddresses.getD []) a ∧ handle'.address = handle.address := by
  have hnodup' : (self.binaryHeap.map Prod.snd).Nodup :=
    h.payloads.nodup_iff.mpr (hnodup.filter _)
  obtain ⟨popped, found, rest, heq, hpopped, hrest, hleft, hnone, hfound⟩ :=
    popFailed_spec lib (handle.failedAddresses.getD []) (self.binaryHeap.length + 2) none
      self.binaryHeap [] hnodup' (by simp [storeFailed])
  simp only [storeFailed, List.nil_append] at heq hrest hleft hnone
  obtain ⟨hback, hfits⟩ := h.reinserted hnodup hrest hleft
  rw [nextAddress, heq]
  dsimp only
  rw [hback]
  dsimp only [Option.bind_some]
  cases found with
  | some a =>
    obtain ⟨huntried, hpeek⟩ := hfound a rfl
    exact ⟨a, handle, _, rfl, hfits,
      mayPick_of_untried lib hleast h hnonneg hpopped hrest hleft huntried hpeek, rfl⟩
  | none =>
    obtain ⟨rfl, hhead⟩ := hnone rfl
    rw [List.map_nil, List.append_nil] at hleft
    have hall : ∀ a ∈ availableOf b, a ∈ handle.failedAddresses.getD [] := fun a ha =>
      hpopped a ((hleft.trans h.payloads).mem_iff.mpr ha)
    cases hpeek : lib.peek self.binaryHeap with
    | none =>
      have hpayloads := h.payloads
      rw [lib.peek_none hpeek] at hpayloads
      exact absurd hpayloads.nil_eq.symm hsome
    | some a =>
      have hpick := mayPick_of_all lib hleast h hnonneg hall hpeek
      rw [hpeek] at hhead
      cases hfailed : handle.failedAddresses with
      | none =>
        rw [hfailed] at hpopped
        exact absurd (hpopped a (List.mem_of_mem_head? hhead)) List.not_mem_nil
      | some failed =>
        rw [hfailed] at hpick
        dsimp only
        rw [hhead]
        exact ⟨a, _, _, rfl, hfits, hpick, rfl⟩

end Search

end KongGateway.Kong.Balancers

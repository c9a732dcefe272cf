import KongGateway.Kong.Balancers.ConsistentHashing
import KongGateway.Kong.Balancers.Refresh

/-!
# Current — whether a peer that is handed out is current

`getAddressPeer` refreshes an expired target after the address has been
chosen, and compares the target of the address with the one it had. No
update changes that target, so the comparison never fails: an address
that the refresh deletes is handed out all the same. Least connections
counts the connection in its heap, which raises instead. A latency
balancer also gives a deleted address an average again when its last
request ends, and chooses it later.
-/

namespace KongGateway.Kong.Balancers

/-! ## The peer of an address -/

section AddressPeer

variable (lib : Lib) (dns : Dns) (cacheOnly : Bool) {b : Balancer} {a : AddressId}

/-- The address is not disabled, and the refresh of its target, if there
is one, does not take it away. -/
def Survives (b : Balancer) (a : AddressId) : Prop :=
  (b.address a).disabled = false
    ∧ (cacheOnly = true ∨ targetExpired (b.target (b.address a).target) dns.now = false
      ∨ ∀ entry ∈ dropsOf lib dns b (b.address a).target,
        Spared b (b.address a).target a entry)

instance (b : Balancer) (a : AddressId) : Decidable (Survives lib dns cacheOnly b a) := by
  unfold Survives
  infer_instance

/-- The balancer once the target of the address is up to date. -/
def refreshed (b : Balancer) (a : AddressId) : Balancer :=
  if targetExpired (b.target (b.address a).target) dns.now && !cacheOnly then
    queryDns lib dns b (b.address a).target
  else b

theorem Quiet.refreshed (h : Quiet b) : Quiet (refreshed lib dns cacheOnly b a) := by
  rw [Balancers.refreshed]
  split
  · exact h.queryDns lib dns _
  · exact h

theorem Retains.refreshed (h : Quiet b) : Retains b (refreshed lib dns cacheOnly b a) := by
  rw [Balancers.refreshed]
  split
  · exact .queryDns lib dns h _
  · exact .refl b

theorem refreshed_current (h : Quiet b) (ha : a < b.made)
    (havailable : (b.address a).available = true) (hsurvives : Survives lib dns cacheOnly b a) :
    Current (refreshed lib dns cacheOnly b a) a := by
  have hcurrent : Current b a :=
    ⟨h.registered.listed a ha hsurvives.1, havailable, hsurvives.1⟩
  rw [refreshed]
  split
  · rename_i hexpired
    rw [Bool.and_eq_true, Bool.not_eq_true'] at hexpired
    rcases hsurvives.2 with honly | hfresh | hspared
    · rw [honly] at hexpired
      cases hexpired.2
    · rw [hfresh] at hexpired
      cases hexpired.1
    · exact queryDns_current lib dns h hcurrent hspared
  · exact hcurrent

theorem getAddressPeer_eq (h : Quiet b) (ha : a < b.made) :
    getAddressPeer lib dns b a cacheOnly
      = if (b.address a).available then
          (addressPeer dns ((refreshed lib dns cacheOnly b a).address a),
            refreshed lib dns cacheOnly b a)
        else (.error errAddressUnavailable, b) := by
  have howner := ((Retains.queryDns lib dns h (b.address a).target).address a ha).1
  rw [getAddressPeer, refreshed]
  cases (b.address a).available with
  | false => rfl
  | true =>
    rw [Bool.not_true, if_neg Bool.false_ne_true, if_pos rfl]
    dsimp only
    split
    · rw [if_neg (not_not.mpr howner)]
    · rfl

theorem Quiet.getAddressPeer (h : Quiet b) (ha : a < b.made) :
    Quiet (getAddressPeer lib dns b a cacheOnly).2 := by
  rw [getAddressPeer_eq lib dns cacheOnly h ha]
  split
  · exact h.refreshed lib dns cacheOnly
  · exact h

/-- The errors of `toip` tell what has been tried. -/
theorem addressPeer_error {address : Address} {err : String}
    (h : addressPeer dns address = .error err) :
    err ≠ errDnsUpdated ∧ err ≠ errAddressUnavailable := by
  have hdot : '.' ∈ err.toList := by
    rw [addressPeer] at h
    split at h
    · split at h
      · rename_i tried message tryList htoip
        obtain rfl := Except.error.inj h
        simp [String.toList_append]
      · cases h
    · cases h
  constructor
  · rintro rfl
    exact absurd hdot (by decide)
  · rintro rfl
    exact absurd hdot (by decide)

theorem getAddressPeer_error (h : Quiet b) (ha : a < b.made) {err : String}
    (herr : (getAddressPeer lib dns b a cacheOnly).1 = .error err) :
    err ≠ errDnsUpdated
      ∧ ((b.address a).available = true → err ≠ errAddressUnavailable) := by
  rw [getAddressPeer_eq lib dns cacheOnly h ha] at herr
  split at herr
  · have herror := addressPeer_error dns herr
    exact ⟨herror.1, fun _ => herror.2⟩
  · rename_i hnot
    obtain rfl := Except.error.inj herr
    exact ⟨by decide, fun havailable => absurd havailable hnot⟩

theorem getAddressPeer_ok (h : Quiet b) (ha : a < b.made) {peer : Peer}
    (hok : (getAddressPeer lib dns b a cacheOnly).1 = .ok peer) :
    (b.address a).available = true
      ∧ (getAddressPeer lib dns b a cacheOnly).2 = refreshed lib dns cacheOnly b a := by
  rw [getAddressPeer_eq lib dns cacheOnly h ha] at hok ⊢
  split at hok
  · rename_i havailable
    rw [if_pos havailable]
    exact ⟨havailable, rfl⟩
  · cases hok

end AddressPeer

/-! ## Round robin and consistent hashing -/

/-- What the two loops ask of an address. -/
def selectable (b : Balancer) (a : AddressId) : Bool :=
  (b.address a).available && !(b.address a).disabled

/-- What a call leaves, and that the address it hands out is current. -/
def HandsOutCurrent (survives : Prop) (outcome : Outcome) : Prop :=
  Quiet outcome.2 ∧ (survives → ∀ peer handle, outcome.1 = .ok (peer, handle) →
    ∃ a, handle.address = some a ∧ Current outcome.2 a)

/-- The address of the first turn of the `repeat` loop that is not
skipped. -/
def roundRobinPick (select : AddressId → Bool) (startingPointer : Nat) :
    Nat → RoundRobin → Option AddressId
  | 0, _ => none
  | fuel + 1, self =>
    match (self.advance.wheel[self.advance.pointer - 1]?).filter select with
    | some a => some a
    | none =>
      if self.advance.pointer = startingPointer then none
      else roundRobinPick select startingPointer fuel self.advance

/-- The address of the first turn of the `while` loop that is not
skipped. -/
def consistentHashingPick (select : AddressId → Bool) (self : ConsistentHashing)
    (hashValue : Nat) : Nat → Nat → Option AddressId
  | 0, _ => none
  | fuel + 1, index =>
    if index = hashValue + 1 then none
    else
      match (self.continuum (if index = 0 then self.points else index)).filter select with
      | some a => some a
      | none =>
        consistentHashingPick select self hashValue fuel
          ((if index = 0 then self.points else index) - 1)

section Loops

variable (lib : Lib) (dns : Dns) (cacheOnly : Bool) {b : Balancer} {handle : Handle}

theorem handsOutCurrent_of_peer (handle : Handle) (h : Quiet b) {a : AddressId} (ha : a < b.made) {peer : Peer}
    (hok : (getAddressPeer lib dns b a cacheOnly).1 = .ok peer) :
    HandsOutCurrent (Survives lib dns cacheOnly b a)
      (.ok (peer, { handle with address := some a }),
        (getAddressPeer lib dns b a cacheOnly).2) := by
  refine ⟨h.getAddressPeer lib dns cacheOnly ha, fun hsurvives peer' handle' hsame => ?_⟩
  obtain ⟨havailable, heq⟩ := getAddressPeer_ok lib dns cacheOnly h ha hok
  obtain ⟨-, rfl⟩ := Prod.mk.inj (Except.ok.inj hsame)
  refine ⟨a, rfl, ?_⟩
  rw [heq]
  exact refreshed_current lib dns cacheOnly h ha havailable hsurvives

theorem handsOutCurrent_of_error {survives : Prop} (h : Quiet b) (err : String) :
    HandsOutCurrent survives (.error err, b) :=
  ⟨h, fun _ _ _ hok => by cases hok⟩

/-- A turn that is not skipped ends the loop: the errors that would
continue it do not occur. -/
theorem handsOutCurrent_of_selected (h : Quiet b) {a : AddressId} (ha : a < b.made)
    (hselect : selectable b a = true) {onError : String → Balancer → Option Outcome}
    (honError : ∀ err b' outcome, err ≠ errDnsUpdated → err ≠ errAddressUnavailable →
      onError err b' = some outcome → outcome = (.error err, b')) {outcome : Outcome}
    (hturn : (match getAddressPeer lib dns b a cacheOnly with
      | (.ok peer, b') => some (.ok (peer, { handle with address := some a }), b')
      | (.error err, b') => onError err b') = some outcome) :
    HandsOutCurrent (Survives lib dns cacheOnly b a) outcome := by
  have havailable := (Bool.and_eq_true_iff.mp hselect).1
  have hquiet := h.getAddressPeer lib dns cacheOnly ha
  split at hturn
  · rename_i peer b' hpeer
    have hok := congrArg Prod.fst hpeer
    obtain rfl := Option.some.inj hturn
    have hstate : (getAddressPeer lib dns b a cacheOnly).2 = b' := congrArg Prod.snd hpeer
    rw [← hstate]
    exact handsOutCurrent_of_peer lib dns cacheOnly handle h ha hok
  · rename_i err b' hpeer
    have herror := getAddressPeer_error lib dns cacheOnly h ha (congrArg Prod.fst hpeer)
    rw [hpeer] at hquiet
    rw [honError err b' outcome herror.1 (herror.2 havailable) hturn]
    exact handsOutCurrent_of_error hquiet err

theorem roundRobinTurn_cases (h : Quiet b) {self : RoundRobin}
    (hwheel : ∀ a ∈ self.wheel, a < b.made) {next : RoundRobin → Balancer → Option Outcome}
    {outcome : Outcome}
    (hturn : roundRobinTurn lib dns cacheOnly handle self b next = some outcome) :
    ((self.wheel[self.pointer - 1]?).filter (selectable b) = none ∧ next self b = some outcome)
      ∨ ∃ a, (self.wheel[self.pointer - 1]?).filter (selectable b) = some a
        ∧ HandsOutCurrent (Survives lib dns cacheOnly b a) outcome := by
  rw [roundRobinTurn] at hturn
  split at hturn
  · rename_i hnone
    exact .inl ⟨by rw [hnone]; rfl, hturn⟩
  · rename_i a hsome
    have ha := hwheel a (List.mem_of_getElem? hsome)
    rw [hsome]
    split at hturn
    · rename_i hselect
      refine .inr ⟨a, by rw [Option.filter_some, if_pos]; exact hselect, ?_⟩
      refine handsOutCurrent_of_selected lib dns cacheOnly h ha hselect ?_ hturn
      intro err b' outcome hupdated hunavailable herror
      split at herror
      · rw [if_neg hupdated, if_neg hunavailable] at herror
        exact (Option.some.inj herror).symm
      · cases herror
    · rename_i hskip
      exact .inl ⟨by rw [Option.filter_some, if_neg]; exact hskip, hturn⟩

theorem Quiet.with_wheel (h : Quiet b) {self : RoundRobin} (hwheel : ∀ a ∈ self.wheel, a < b.made) :
    Quiet { b with algorithm := some (.roundRobin self) } :=
  ⟨h.registered.of_lists rfl rfl rfl fun _ => rfl, hwheel, trivial, h.enabled⟩

theorem Survives.with_wheel {a : AddressId} (h : Survives lib dns cacheOnly b a)
    (self : RoundRobin) :
    Survives lib dns cacheOnly { b with algorithm := some (.roundRobin self) } a := by
  refine ⟨h.1, h.2.imp_right fun hrest => hrest.imp_right fun hspared entry hentry => ?_⟩
  exact ⟨(hspared entry hentry).1, .inl trivial⟩

theorem roundRobinLoop_current (startingPointer : Nat) (fuel : Nat) {self : RoundRobin}
    (h : Quiet b) (hwheel : ∀ a ∈ self.wheel, a < b.made) {outcome : Outcome}
    (hloop : roundRobinLoop lib dns cacheOnly handle startingPointer fuel self b = some outcome) :
    HandsOutCurrent (∀ a, roundRobinPick (selectable b) startingPointer fuel self = some a →
      Survives lib dns cacheOnly b a) outcome := by
  induction fuel generalizing self b with
  | zero => cases hloop
  | succ fuel ih =>
    have hknown : ∀ a ∈ self.advance.wheel, a < b.made := hwheel
    have hquiet := h.with_wheel hknown
    rw [roundRobinLoop] at hloop
    rw [roundRobinPick]
    rcases roundRobinTurn_cases lib dns cacheOnly hquiet hknown hloop with
      ⟨hskip, hnext⟩ | ⟨a, hpick, hcurrent⟩
    · have hskip' : (self.advance.wheel[self.advance.pointer - 1]?).filter (selectable b)
          = none := hskip
      rw [hskip']
      dsimp only at hnext ⊢
      split at hnext
      · rename_i hend
        obtain rfl := Option.some.inj hnext
        exact handsOutCurrent_of_error hquiet _
      · rename_i hmore
        rw [if_neg hmore]
        obtain ⟨hlast, hhanded⟩ := ih hquiet hknown hnext
        refine ⟨hlast, fun hsurvives => hhanded fun a hpick => ?_⟩
        exact (hsurvives a hpick).with_wheel lib dns cacheOnly self.advance
    · have hpick' : (self.advance.wheel[self.advance.pointer - 1]?).filter (selectable b)
          = some a := hpick
      rw [hpick']
      refine ⟨hcurrent.1, fun hsurvives => hcurrent.2 ?_⟩
      exact (hsurvives a rfl).with_wheel lib dns cacheOnly self.advance

theorem consistentHashingTurn_cases (h : Quiet b) {self : ConsistentHashing}
    (hcontinuum : ∀ i a, self.continuum i = some a → a < b.made) {index : Nat}
    {next : ConsistentHashing → Balancer → Option Outcome} {outcome : Outcome}
    (hturn : consistentHashingTurn lib dns cacheOnly handle index self b next = some outcome) :
    ((self.continuum index).filter (selectable b) = none ∧ next self b = some outcome)
      ∨ ∃ a, (self.continuum index).filter (selectable b) = some a
        ∧ HandsOutCurrent (Survives lib dns cacheOnly b a) outcome := by
  rw [consistentHashingTurn] at hturn
  split at hturn
  · rename_i hnone
    exact .inl ⟨by rw [hnone]; rfl, hturn⟩
  · rename_i a hsome
    have ha := hcontinuum index a hsome
    rw [hsome]
    split at hturn
    · rename_i hselect
      refine .inr ⟨a, by rw [Option.filter_some, if_pos]; exact hselect, ?_⟩
      refine handsOutCurrent_of_selected lib dns cacheOnly h ha hselect ?_ hturn
      intro err b' outcome hupdated hunavailable herror
      split at herror
      · rw [if_neg hupdated, if_neg hunavailable] at herror
        exact (Option.some.inj herror).symm
      · cases herror
    · rename_i hskip
      exact .inl ⟨by rw [Option.filter_some, if_neg]; exact hskip, hturn⟩

theorem consistentHashingLoop_current (hashValue fuel : Nat) {index : Nat}
    {self : ConsistentHashing} (h : Quiet b)
    (hcontinuum : ∀ i a, self.continuum i = some a → a < b.made) {outcome : Outcome}
    (hloop : consistentHashingLoop lib dns cacheOnly handle hashValue fuel index self b
      = some outcome) :
    HandsOutCurrent (∀ a, consistentHashingPick (selectable b) self hashValue fuel index = some a →
      Survives lib dns cacheOnly b a) outcome := by
  induction fuel generalizing index with
  | zero => cases hloop
  | succ fuel ih =>
    rw [consistentHashingLoop] at hloop
    rw [consistentHashingPick]
    split at hloop
    · obtain rfl := Option.some.inj hloop
      exact handsOutCurrent_of_error h _
    · rename_i hmore
      rw [if_neg hmore]
      rcases consistentHashingTurn_cases lib dns cacheOnly h hcontinuum hloop with
        ⟨hskip, hnext⟩ | ⟨a, hpick, hcurrent⟩
      · rw [hskip]
        exact ih hnext
      · rw [hpick]
        exact ⟨hcurrent.1, fun hsurvives => hcurrent.2 (hsurvives a rfl)⟩

end Loops

/-! ## Least connections -/

/-- Other connection counts, and nothing else. -/
structure Recounted (b b' : Balancer) : Prop where
  address : ∀ a, { b'.address a with connectionCount := (b.address a).connectionCount } = b.address a
  rest : b' = { b with address := b'.address }

namespace Recounted

variable {b b' b'' : Balancer}

theorem refl (b : Balancer) : Recounted b b := ⟨fun _ => rfl, rfl⟩

theorem trans (h : Recounted b b') (h' : Recounted b' b'') : Recounted b b'' where
  address := by
    intro a
    have hlater := congrArg (fun address : Address =>
      { address with connectionCount := (b.address a).connectionCount }) (h'.address a)
    exact hlater.trans (h.address a)
  rest := by
    have hrest := h'.rest
    rw [h.rest] at hrest
    exact hrest

theorem count (b : Balancer) (a : AddressId) (count : Option Int) :
    Recounted b (b.modifyAddress a fun address => { address with connectionCount := count }) where
  address := by
    intro a'
    by_cases heq : a' = a
    · subst heq
      simp [Balancer.modifyAddress]
    · simp [Balancer.modifyAddress, heq]
  rest := rfl

theorem rearranged (h : Recounted b b') : Rearranged b b' := by
  rw [h.rest]
  exact ⟨h.address, fun _ => rfl, fun _ => .refl _, .refl _, rfl, .inl rfl, rfl, rfl, rfl, rfl⟩

theorem algorithm (h : Recounted b b') : b'.algorithm = b.algorithm := by rw [h.rest]

theorem allAddresses (h : Recounted b b') : b'.allAddresses = b.allAddresses := by
  rw [h.rest]
  rfl

theorem quiet (h : Recounted b b') (hb : Quiet b) : Quiet b' where
  registered := h.rearranged.registered hb.registered
  knows := hb.knows.mono h.algorithm h.rearranged.made.ge
  heap := by
    refine hb.heap.of_lists h.algorithm fun a ha => ?_
    rwa [h.allAddresses]
  enabled := by
    intro t a ha
    rw [h.rearranged.disabled]
    exact hb.enabled t a ((h.rearranged.addresses t).mem_iff.mp ha)

theorem insertAddr (b : Balancer) (heap : List (HeapValue × AddressId)) (a : AddressId) :
    Recounted b (insertAddr b heap a).1 := by
  rw [Balancers.insertAddr]
  split
  · exact count b a _
  · exact count b a _

end Recounted

section LeastConnections

variable (lib : Lib) {b b' : Balancer} {self self' : LeastConnections} {a : AddressId}

theorem Quiet.with_heap (h : Quiet b)
    (hheap : ∀ a ∈ self.binaryHeap.map Prod.snd, a ∈ b.allAddresses) :
    Quiet { b with algorithm := some (.leastConnections self) } :=
  ⟨h.registered.of_lists rfl rfl rfl fun _ => rfl, trivial, hheap, h.enabled⟩

theorem Quiet.mem_heap (h : Quiet b) (hself : b.algorithm = some (.leastConnections self)) :
    ∀ a ∈ self.binaryHeap.map Prod.snd, a ∈ b.allAddresses := by
  have hheap := h.heap
  rw [HeapListed, hself] at hheap
  exact hheap

theorem Quiet.current (h : Quiet b) (ha : a ∈ b.allAddresses)
    (havailable : (b.address a).available = true) : Current b a := by
  obtain ⟨t, -, hmem⟩ := List.mem_flatMap.mp ha
  refine ⟨?_, havailable, h.enabled t a hmem⟩
  rw [(h.registered.known t a hmem).2]
  exact hmem

theorem updateConnectionCount_some (h : Quiet b)
    (hself : b.algorithm = some (.leastConnections self)) {delta : Int}
    (hupdate : updateConnectionCount self b a delta = some (self', b')) :
    Quiet b' ∧ b'.algorithm = some (.leastConnections self')
      ∧ ((b.address a).available = true → Current b' a) := by
  rw [updateConnectionCount] at hupdate
  split at hupdate
  · cases hupdate
  · rename_i count hcount
    have hcounted := Recounted.count b a (some (count + delta))
    have hquiet := hcounted.quiet h
    have hstatus := hcounted.rearranged.available a
    dsimp only at hupdate
    split at hupdate
    · rename_i hunavailable
      obtain ⟨rfl, rfl⟩ := Prod.mk.inj (Option.some.inj hupdate)
      refine ⟨hquiet, hself, fun havailable => ?_⟩
      rw [Bool.not_eq_true', hstatus, havailable] at hunavailable
      cases hunavailable
    · split at hupdate
      · rename_i hmem
        obtain ⟨rfl, rfl⟩ := Prod.mk.inj (Option.some.inj hupdate)
        have hpayloads : ∀ heap : List (HeapValue × AddressId), ∀ value : AddressId → HeapValue,
            (heap.map fun (entry : HeapValue × AddressId) =>
              if entry.2 = a then (value entry.2, entry.2) else (entry.1, entry.2)).map Prod.snd
            = heap.map Prod.snd := by
          intro heap value
          rw [List.map_map]
          refine List.map_congr_left fun entry _ => ?_
          by_cases heq : entry.2 = a
          · simp [heq]
          · simp [heq]
        have hlisted := h.mem_heap hself a hmem
        refine ⟨hquiet.with_heap ?_, rfl, fun havailable => ?_⟩
        · intro a' ha'
          rw [hcounted.allAddresses]
          refine h.mem_heap hself a' ?_
          rw [← hpayloads self.binaryHeap fun _ => (count + delta + 1, _)]
          exact ha'
        · have hcurrent : Current b a := h.current hlisted havailable
          exact hcounted.rearranged.current hcurrent
      · cases hupdate

theorem releaseHandleAddress_some (h : Quiet b)
    (hself : b.algorithm = some (.leastConnections self)) {handle handle' : Handle}
    (hrelease : releaseHandleAddress handle self b = some (handle', self', b')) :
    Quiet b' ∧ b'.algorithm = some (.leastConnections self') := by
  rw [releaseHandleAddress] at hrelease
  split at hrelease
  · obtain ⟨rfl, hpair⟩ := Prod.mk.inj (Option.some.inj hrelease)
    obtain ⟨rfl, rfl⟩ := Prod.mk.inj hpair
    exact ⟨h, hself⟩
  · obtain ⟨⟨self'', b''⟩, hupdate, hmap⟩ := Option.map_eq_some_iff.mp hrelease
    obtain ⟨-, hpair⟩ := Prod.mk.inj hmap
    obtain ⟨rfl, rfl⟩ := Prod.mk.inj hpair
    have hcounted := updateConnectionCount_some h hself hupdate
    exact ⟨hcounted.1, hcounted.2.1⟩

theorem leastConnectionsGiveUp_some (h : Quiet b)
    (hself : b.algorithm = some (.leastConnections self)) {handle : Handle} {err : String}
    {outcome : Outcome} (hgive : leastConnectionsGiveUp err handle self b = some outcome)
    (survives : Prop) : HandsOutCurrent survives outcome := by
  obtain ⟨⟨handle', self', b'⟩, hrelease, rfl⟩ := Option.map_eq_some_iff.mp hgive
  exact handsOutCurrent_of_error (releaseHandleAddress_some h hself hrelease).1 err

theorem storeFailed_mem {p : AddressId → Prop} {address : Option AddressId}
    {heap : List (HeapValue × AddressId)} {reinsert : List AddressId}
    (haddress : ∀ a, address = some a → p a) (hheap : ∀ a ∈ heap.map Prod.snd, p a)
    (hreinsert : ∀ a ∈ reinsert, p a) :
    (∀ a ∈ (storeFailed lib heap reinsert address).1.map Prod.snd, p a)
      ∧ ∀ a ∈ (storeFailed lib heap reinsert address).2, p a := by
  cases address with
  | none => exact ⟨hheap, hreinsert⟩
  | some a =>
    refine ⟨?_, ?_⟩
    · intro a' ha'
      rw [storeFailed, popHeap] at ha'
      dsimp only at ha'
      split at ha'
      · exact hheap a' ha'
      · obtain ⟨entry, hentry, rfl⟩ := List.mem_map.mp ha'
        exact hheap _ (List.mem_map_of_mem (List.mem_of_mem_filter hentry))
    · intro a' ha'
      rcases List.mem_append.mp ha' with hold | hnew
      · exact hreinsert a' hold
      · rw [List.mem_singleton.mp hnew]
        exact haddress a rfl

theorem popFailed_mem (failed : List AddressId) {p : AddressId → Prop} (fuel : Nat)
    (address : Option AddressId) (heap : List (HeapValue × AddressId)) (reinsert : List AddressId)
    (haddress : ∀ a, address = some a → p a) (hheap : ∀ a ∈ heap.map Prod.snd, p a)
    (hreinsert : ∀ a ∈ reinsert, p a) :
    (∀ a, (popFailed lib failed fuel address heap reinsert).1 = some a → p a)
      ∧ (∀ a ∈ (popFailed lib failed fuel address heap reinsert).2.1, p a)
      ∧ (∀ a ∈ (popFailed lib failed fuel address heap reinsert).2.2.map Prod.snd, p a) := by
  induction fuel generalizing address heap reinsert with
  | zero => exact ⟨fun a ha => (Option.some_ne_none a ha.symm).elim, hreinsert, hheap⟩
  | succ fuel ih =>
    obtain ⟨hheap', hreinsert'⟩ := storeFailed_mem lib haddress hheap hreinsert
    rw [popFailed]
    dsimp only
    split
    · exact ⟨fun a ha => (Option.some_ne_none a ha.symm).elim, hreinsert', hheap'⟩
    · rename_i top hpeek
      have htop := hheap' top (lib.peek_mem hpeek)
      split
      · exact ih _ _ _ (fun a ha => Option.some.inj ha ▸ htop) hheap' hreinsert'
      · exact ⟨fun a ha => Option.some.inj ha ▸ htop, hreinsert', hheap'⟩

theorem foldlM_reinsertAddr {p : AddressId → Prop} (as : List AddressId)
    {heap heap' : List (HeapValue × AddressId)} (has : ∀ a ∈ as, p a)
    (hheap : ∀ a ∈ heap.map Prod.snd, p a)
    (hfold : as.foldlM reinsertAddr (b, heap) = some (b', heap')) :
    Recounted b b' ∧ ∀ a ∈ heap'.map Prod.snd, p a := by
  induction as generalizing b heap with
  | nil =>
    obtain ⟨rfl, rfl⟩ := Prod.mk.inj (Option.some.inj hfold)
    exact ⟨.refl b, hheap⟩
  | cons first rest ih =>
    rw [List.foldlM_cons] at hfold
    obtain ⟨⟨b₁, heap₁⟩, hfirst, hrest⟩ := Option.bind_eq_some_iff.mp hfold
    rw [reinsertAddr] at hfirst
    split at hfirst
    · cases hfirst
    · have hinserted := Option.some.inj hfirst
      have hcounted := Recounted.insertAddr b heap first
      have hpayloads : ∀ a ∈ heap₁.map Prod.snd, p a := by
        intro a ha
        have hsecond : (insertAddr b heap first).2 = heap₁ := congrArg Prod.snd hinserted
        rw [← hsecond] at ha
        rcases mem_insertAddr ha with hold | rfl
        · exact hheap a hold
        · exact has a List.mem_cons_self
      have hstate : (insertAddr b heap first).1 = b₁ := congrArg Prod.fst hinserted
      rw [hstate] at hcounted
      obtain ⟨hlater, hmem⟩ := ih (fun a ha => has a (List.mem_cons_of_mem _ ha)) hpayloads hrest
      exact ⟨hcounted.trans hlater, hmem⟩

theorem nextAddress_some (h : Quiet b) (hself : b.algorithm = some (.leastConnections self))
    {handle handle' : Handle} {found : Option AddressId}
    (hnext : nextAddress lib none handle self b = some (found, handle', self', b')) :
    Quiet b' ∧ b'.algorithm = some (.leastConnections self')
      ∧ ∀ a, found = some a → a ∈ b'.allAddresses := by
  have hnone : ∀ a, (none : Option AddressId) = some a → a ∈ b.allAddresses :=
    fun a ha => (Option.some_ne_none a ha.symm).elim
  obtain ⟨hfound, hreinsert, hheap⟩ := popFailed_mem lib (handle.failedAddresses.getD [])
    (self.binaryHeap.length + 2) none self.binaryHeap [] hnone (h.mem_heap hself)
    fun a ha => absurd ha List.not_mem_nil
  rw [nextAddress] at hnext
  obtain ⟨⟨b₁, heap₁⟩, hfold, hchoice⟩ := Option.bind_eq_some_iff.mp hnext
  obtain ⟨hcounted, hpayloads⟩ := foldlM_reinsertAddr _ hreinsert hheap hfold
  have hquiet : Quiet { b₁ with algorithm := some (.leastConnections ⟨heap₁⟩) } := by
    refine (hcounted.quiet h).with_heap fun a ha => ?_
    rw [hcounted.allAddresses]
    exact hpayloads a ha
  have hlists : ∀ a, a ∈ b.allAddresses →
      a ∈ ({ b₁ with algorithm := some (.leastConnections ⟨heap₁⟩) } : Balancer).allAddresses :=
    fun a ha => hcounted.allAddresses.symm ▸ ha
  dsimp only at hchoice
  split at hchoice
  · rename_i top hpopped
    simp only [Option.some.injEq, Prod.mk.injEq] at hchoice
    obtain ⟨rfl, rfl, rfl, rfl⟩ := hchoice
    exact ⟨hquiet, rfl, fun a ha => hlists a (hfound a (hpopped.trans ha))⟩
  · simp only [Option.some.injEq, Prod.mk.injEq] at hchoice
    obtain ⟨rfl, rfl, rfl, rfl⟩ := hchoice
    exact ⟨hquiet, rfl, fun a ha => (Option.some_ne_none a ha.symm).elim⟩
  · split at hchoice
    · cases hchoice
    · rename_i first hfirst
      simp only [Option.some.injEq, Prod.mk.injEq] at hchoice
      obtain ⟨rfl, rfl, rfl, rfl⟩ := hchoice
      refine ⟨hquiet, rfl, fun a ha => hlists a (hreinsert a ?_)⟩
      exact List.mem_of_mem_head? (hfirst.trans ha)

/-- An address that the refresh has deleted is not in the heap, and the
call raises: what is handed out is current. -/
theorem leastConnectionsLoop_current (dns : Dns) (cacheOnly : Bool) (h : Quiet b)
    (hself : b.algorithm = some (.leastConnections self)) (fuel : Nat) {handle : Handle}
    {outcome : Outcome}
    (hloop : leastConnectionsLoop lib dns cacheOnly fuel none handle self b = some outcome) :
    HandsOutCurrent True outcome := by
  cases fuel with
  | zero => cases hloop
  | succ fuel =>
    rw [leastConnectionsLoop] at hloop
    split at hloop
    · exact leastConnectionsGiveUp_some h hself hloop True
    · split at hloop
      · cases hloop
      · rename_i handle₁ self₁ b₁ hnext
        obtain ⟨hquiet, hself₁, -⟩ := nextAddress_some lib h hself hnext
        exact leastConnectionsGiveUp_some hquiet hself₁ hloop True
      · rename_i a handle₁ self₁ b₁ hnext
        obtain ⟨hquiet, -, hlisted⟩ := nextAddress_some lib h hself hnext
        have ha := hquiet.registered.known_of_mem (hlisted a rfl)
        have hrefreshed := hquiet.getAddressPeer lib dns cacheOnly ha
        split at hloop
        · rename_i peer b₂ hpeer
          obtain ⟨havailable, hstate⟩ :=
            getAddressPeer_ok lib dns cacheOnly hquiet ha (congrArg Prod.fst hpeer)
          rw [hpeer] at hrefreshed hstate
          split at hloop
          · rename_i self₂ hself₂
            obtain ⟨⟨self₃, b₃⟩, hupdate, rfl⟩ := Option.map_eq_some_iff.mp hloop
            obtain ⟨hlast, -, hcurrent⟩ :=
              updateConnectionCount_some hrefreshed hself₂ hupdate
            refine ⟨hlast, fun _ peer' handle' hok => ?_⟩
            obtain ⟨-, rfl⟩ := Prod.mk.inj (Except.ok.inj hok)
            refine ⟨a, rfl, hcurrent ?_⟩
            -- a refresh does not change the status of an address
            have hretains := (Retains.refreshed lib dns cacheOnly hquiet (a := a)).address a ha
            rw [← hstate] at hretains
            exact hretains.2.trans havailable
          · cases hloop
        · rename_i err b₂ hpeer
          have herror := getAddressPeer_error lib dns cacheOnly hquiet ha
            (congrArg Prod.fst hpeer)
          rw [hpeer] at hrefreshed
          split at hloop
          · rename_i self₂ hself₂
            rw [if_pos herror.1] at hloop
            exact leastConnectionsGiveUp_some hrefreshed hself₂ hloop True
          · cases hloop

theorem leastConnectionsGetPeer_current (dns : Dns) (cacheOnly : Bool) (h : Quiet b)
    (hself : b.algorithm = some (.leastConnections self)) (fuel : Nat) {handle : Option Handle}
    {outcome : Outcome}
    (hcall : leastConnectionsGetPeer lib dns fuel self b cacheOnly handle = some outcome) :
    HandsOutCurrent True outcome := by
  cases handle with
  | none => exact leastConnectionsLoop_current lib dns cacheOnly h hself fuel hcall
  | some handle =>
    unfold leastConnectionsGetPeer at hcall
    dsimp only at hcall
    split at hcall
    · cases hcall
    · split at hcall
      · cases hcall
      · rename_i hrelease
        obtain ⟨hquiet, hself'⟩ := releaseHandleAddress_some h hself hrelease
        exact leastConnectionsLoop_current lib dns cacheOnly hquiet hself' fuel hcall

end LeastConnections

/-! ## Latency -/

/-- The addresses that have failed before a call. -/
def failedBefore : Option Handle → List AddressId
  | none => []
  | some handle => handle.failedAddresses.getD [] ++ handle.address.toList

/-- The address of the first turn. -/
def latencyPick (lib : Lib) (score : AddressId → ℚ) (self : Latency) (handle : Option Handle) :
    Option AddressId :=
  match lib.pairs self.ewma with
  | [] => none
  | first :: _ => pickAddress lib score self (failedBefore handle) first self.addressCount

section Latency

variable (lib : Lib) (dns : Dns) (cacheOnly : Bool) (score : AddressId → ℚ) {b : Balancer}
  {self : Latency}

theorem pickAndScore_mem (first : AddressId) (rest : List AddressId) :
    pickAndScore score first rest ∈ first :: rest := by
  rw [pickAndScore]
  induction rest generalizing first with
  | nil => exact List.mem_cons_self
  | cons a rest ih =>
    rw [List.foldl_cons]
    split
    · exact List.mem_cons_of_mem _ (ih a)
    · rcases List.mem_cons.mp (ih first) with heq | hmem
      · rw [heq]
        exact List.mem_cons_self
      · exact List.mem_cons_of_mem _ (List.mem_cons_of_mem _ hmem)

theorem pickAddress_mem {failed : List AddressId} {address a : AddressId} {addressCount : Nat}
    (haddress : address ∈ self.ewma)
    (hpick : pickAddress lib score self failed address addressCount = some a) : a ∈ self.ewma := by
  rw [pickAddress] at hpick
  split at hpick
  · split at hpick
    · cases hpick
    · rename_i first rest hlist
      have hmem := pickAndScore_mem score first rest
      rw [Option.some.inj hpick, ← hlist] at hmem
      exact (lib.pairs_perm self.ewma).mem_iff.mp (List.mem_of_mem_filter hmem)
  · rwa [← Option.some.inj hpick]

theorem latencyLoop_current (h : Quiet b) (hknown : ∀ a ∈ self.ewma, a < b.made) (fuel : Nat)
    {handle : Handle} {address : AddressId} (haddress : address ∈ self.ewma) {addressCount : Nat}
    {outcome : Outcome}
    (hloop : latencyLoop lib dns score cacheOnly addressCount fuel handle address self b
      = some outcome) :
    HandsOutCurrent (∀ a, pickAddress lib score self (handle.failedAddresses.getD []) address
      addressCount = some a → Survives lib dns cacheOnly b a) outcome := by
  cases fuel with
  | zero => cases hloop
  | succ fuel =>
    rw [latencyLoop] at hloop
    split at hloop
    · obtain rfl := Option.some.inj hloop
      exact handsOutCurrent_of_error h _
    · rename_i a hpick
      have ha := hknown a (pickAddress_mem lib score haddress hpick)
      have hquiet := h.getAddressPeer lib dns cacheOnly ha
      split at hloop
      · rename_i peer b' hpeer
        have hcurrent := handsOutCurrent_of_peer lib dns cacheOnly handle h ha
          (congrArg Prod.fst hpeer)
        rw [hpeer] at hcurrent
        obtain rfl := Option.some.inj hloop
        exact ⟨hcurrent.1, fun hsurvives => hcurrent.2 (hsurvives a hpick)⟩
      · rename_i err b' hpeer
        have herror := getAddressPeer_error lib dns cacheOnly h ha (congrArg Prod.fst hpeer)
        rw [hpeer] at hquiet
        dsimp only at hloop
        rw [if_pos herror.1] at hloop
        obtain rfl := Option.some.inj hloop
        exact handsOutCurrent_of_error hquiet err

theorem latencyGetPeer_current (h : Quiet b) (hknown : ∀ a ∈ self.ewma, a < b.made) (fuel : Nat)
    {handle : Option Handle} {outcome : Outcome}
    (hcall : latencyGetPeer lib dns score fuel self b cacheOnly handle = some outcome) :
    HandsOutCurrent (∀ a, latencyPick lib score self handle = some a →
      Survives lib dns cacheOnly b a) outcome := by
  unfold latencyGetPeer at hcall
  dsimp only at hcall
  split at hcall
  · cases hcall
  · rename_i started hstarted
    have hfailed : started.failedAddresses.getD [] = failedBefore handle := by
      cases handle with
      | none =>
        obtain rfl := Option.some.inj hstarted
        rfl
      | some handle =>
        obtain ⟨failed, hfailed, rfl⟩ := Option.map_eq_some_iff.mp hstarted
        rw [failedBefore, hfailed]
        rfl
    split at hcall
    · obtain rfl := Option.some.inj hcall
      exact handsOutCurrent_of_error h _
    · rw [latencyPick]
      cases hpairs : lib.pairs self.ewma with
      | nil =>
        simp only [hpairs] at hcall
        obtain rfl := Option.some.inj hcall
        exact handsOutCurrent_of_error h _
      | cons first rest =>
        simp only [hpairs] at hcall
        have hfirst : first ∈ self.ewma := by
          refine (lib.pairs_perm self.ewma).mem_iff.mp ?_
          rw [hpairs]
          exact List.mem_cons_self
        rw [← hfailed]
        exact latencyLoop_current lib dns cacheOnly score h hknown fuel hfirst hcall

end Latency

/-! ## Every call -/

/-- The address whose peer a call asks for, of the algorithms that hand
it out whatever the refresh of its target does. -/
def picked (lib : Lib) (b : Balancer) (call : GetPeer) : Option AddressId :=
  match b.algorithm with
  | some (.roundRobin self) => roundRobinPick (selectable b) self.pointer call.fuel self
  | some (.consistentHashing self) =>
    (hashValueOf lib self call.handle call.valueToHash).bind fun hashValue =>
      consistentHashingPick (selectable b) self hashValue call.fuel hashValue
  | some (.latency self) => latencyPick lib call.score self call.handle
  | _ => none

def PickSurvives (lib : Lib) (b : Balancer) (call : GetPeer) : Prop :=
  ∀ a, picked lib b call = some a → Survives lib call.dns call.cacheOnly b a

section Calls

variable (lib : Lib) {b : Balancer}

theorem getPeer_current (h : Quiet b) {call : GetPeer} {outcome : Outcome}
    (hcall : getPeer lib b call = some outcome) :
    HandsOutCurrent (PickSurvives lib b call) outcome := by
  have hknows := h.knows
  rw [Knows] at hknows
  rw [getPeer] at hcall
  rw [PickSurvives, picked]
  cases halgorithm : b.algorithm with
  | none =>
    rw [halgorithm] at hcall
    cases hcall
  | some algorithm =>
    rw [halgorithm] at hcall hknows
    cases algorithm with
    | roundRobin self =>
      exact roundRobinLoop_current lib call.dns call.cacheOnly self.pointer call.fuel h hknows
        hcall
    | consistentHashing self =>
      dsimp only at hcall ⊢
      cases hvalue : hashValueOf lib self call.handle call.valueToHash with
      | none =>
        rw [consistentHashingGetPeer_none hvalue] at hcall
        cases hcall
      | some hashValue =>
        rw [consistentHashingGetPeer_eq hvalue] at hcall
        exact consistentHashingLoop_current lib call.dns call.cacheOnly hashValue call.fuel h
          hknows hcall
    | leastConnections self =>
      obtain ⟨hquiet, hcurrent⟩ :=
        leastConnectionsGetPeer_current lib call.dns call.cacheOnly h halgorithm call.fuel hcall
      exact ⟨hquiet, fun _ => hcurrent trivial⟩
    | latency self =>
      exact latencyGetPeer_current lib call.dns call.cacheOnly call.score h hknows call.fuel
        hcall

/-- A change of an address, then `updateStatus` and `afterHostUpdate`. -/
theorem Quiet.of_change (hregistered : Registered b) (hknows : Knows b)
    (henabled : ∀ t, ∀ a ∈ (b.target t).addresses, (b.address a).disabled = false) :
    Quiet (afterHostUpdate lib b) := by
  have hrearranged := afterHostUpdate_rearranged lib b
  obtain ⟨hknows', hheap⟩ := afterHostUpdate_knows lib hregistered hknows
  refine ⟨hregistered.afterHostUpdate lib, hknows', hheap, fun t a ha => ?_⟩
  rw [hrearranged.disabled]
  exact henabled t a ((hrearranged.addresses t).mem_iff.mp ha)

theorem Quiet.setAddressStatus (h : Quiet b) (a : AddressId) (available : Bool) :
    Quiet (setAddressStatus lib b a available).2 := by
  refine setAddressStatus_induction lib (P := Quiet) h fun _ _ => ?_
  refine .of_change lib (h.registered.reprice a _ available).updateStatus
    (h.knows.mono rfl (Nat.le_refl _)) fun t a' ha' => ?_
  have hdisabled := (reprice_address b a (b.address a).weight available a').2.1
  have hlists := (reprice_target b a (b.address a).weight available t).1
  exact hdisabled.trans (h.enabled t a' (hlists ▸ ha'))

theorem Quiet.newAlgorithm (h : Quiet b) (type : AlgorithmType) :
    Quiet (newAlgorithm lib type b) := by
  refine .of_change lib (h.registered.of_lists rfl rfl rfl fun _ => rfl) ?_ h.enabled
  cases type with
  | roundRobin => exact fun a ha => absurd ha List.not_mem_nil
  | consistentHashing wheelSize => exact fun i a ha => (Option.some_ne_none a ha.symm).elim
  | leastConnections => trivial
  | latency => exact fun a ha => absurd ha List.not_mem_nil

theorem Quiet.afterBalance (h : Quiet b) {a : AddressId} (ha : a < b.made) :
    Quiet (afterBalance b a) := by
  have hknows := h.knows
  rw [Knows] at hknows
  rw [Balancers.afterBalance]
  split
  · exact h
  · split
    · rename_i self halgorithm
      rw [halgorithm] at hknows
      refine ⟨h.registered.of_lists rfl rfl rfl fun _ => rfl, ?_, trivial, h.enabled⟩
      intro a' ha'
      dsimp only at ha'
      split at ha'
      · exact hknows a' ha'
      · rcases List.mem_append.mp ha' with hold | hnew
        · exact hknows a' hold
        · rw [List.mem_singleton.mp hnew]
          exact ha
    · exact h

theorem Quiet.release (h : Quiet b) {handle : Handle} {b' : Balancer}
    (hrelease : release b handle = some b') : Quiet b' := by
  rw [Balancers.release] at hrelease
  split at hrelease
  · rename_i self hself
    obtain ⟨⟨handle', self', b''⟩, hreleased, rfl⟩ := Option.map_eq_some_iff.mp hrelease
    exact (releaseHandleAddress_some h hself hreleased).1
  · rwa [← Option.some.inj hrelease]

end Calls

/-! ## Every state -/

inductive Event where
  | queryDns (dns : Dns) (t : TargetId)
  | setAddressStatus (a : AddressId) (available : Bool)
  | newAlgorithm (type : AlgorithmType)
  | getPeer (call : GetPeer)
  | afterBalance (a : AddressId)
  | release (handle : Handle)
  | countConnections (a : AddressId) (count : Int)

/-- What happens to a balancer. A call that raises leaves behind at most
a query of a target and a count of an address, which are events of their
own; no handle holds an address that was not made. -/
def react (lib : Lib) (b : Balancer) : Event → Balancer
  | .queryDns dns t => queryDns lib dns b t
  | .setAddressStatus a available => (setAddressStatus lib b a available).2
  | .newAlgorithm type => newAlgorithm lib type b
  | .getPeer call => ((getPeer lib b call).map Prod.snd).getD b
  | .afterBalance a => if a < b.made then afterBalance b a else b
  | .release handle => (release b handle).getD b
  | .countConnections a count =>
    b.modifyAddress a fun address => { address with connectionCount := some count }

theorem Quiet.react (lib : Lib) {b : Balancer} (h : Quiet b) (event : Event) :
    Quiet (react lib b event) := by
  cases event with
  | queryDns dns t => exact h.queryDns lib dns t
  | setAddressStatus a available => exact h.setAddressStatus lib a available
  | newAlgorithm type => exact h.newAlgorithm lib type
  | getPeer call =>
    rw [Balancers.react]
    cases hcall : Balancers.getPeer lib b call with
    | none => exact h
    | some outcome => exact (getPeer_current lib h hcall).1
  | afterBalance a =>
    rw [Balancers.react]
    split
    · rename_i ha
      exact h.afterBalance ha
    · exact h
  | release handle =>
    rw [Balancers.react]
    cases hrelease : Balancers.release b handle with
    | none => exact h
    | some b' => exact h.release hrelease
  | countConnections a count => exact (Recounted.count b a (some count)).quiet h

theorem Fresh.quiet {b : Balancer} (h : Fresh b) (hnew : b.algorithm = none) : Quiet b where
  registered := h.registered
  knows := by
    rw [Knows, hnew]
    trivial
  heap := by
    rw [HeapListed, hnew]
    trivial
  enabled := by
    intro t a ha
    rw [(h.target t).1] at ha
    exact absurd ha List.not_mem_nil

/-- In every state a balancer gets to, a call whose address survives the
refresh of its target hands out an address that is listed, available and
not disabled at return. -/
theorem peer_handed_out_is_current (lib : Lib) {b₀ : Balancer} (hfresh : Fresh b₀)
    (hnew : b₀.algorithm = none) (events : List Event) (call : GetPeer) {peer : Peer}
    {handle : Handle} {b' : Balancer}
    (hsurvives : PickSurvives lib (Run.exec (react lib) b₀ events) call)
    (hget : getPeer lib (Run.exec (react lib) b₀ events) call = some (.ok (peer, handle), b')) :
    ∃ a, handle.address = some a ∧ Current b' a := by
  have hstep : ∀ b event, Quiet b → Quiet (react lib b event) :=
    fun b event h => h.react lib event
  have hquiet := Run.exec_invariant hstep (hfresh.quiet hnew) events
  exact (getPeer_current lib hquiet hget).2 hsurvives peer handle rfl

/-! ### One address that expires -/

/-- The DNS client at a time, with an answer that expires after 30
seconds. -/
def dnsAt (now : Nat) (ips : List String) : Dns where
  now := now
  resolve := fun _ => .ok (.answer ⟨ips.map fun ip => .a ip 30, now + 30000, false⟩)
  toip := fun ip port => .ok (ip, port)

def firstCall (dns : Dns) : GetPeer := ⟨dns, fun _ => 0, 3, false, none, none⟩

/-- A round-robin balancer whose target has had one answer. -/
def resolvedOnce : List Event :=
  [.newAlgorithm .roundRobin, .queryDns (dnsAt 0 ["10.0.0.1"]) 0]

/-- The refresh deletes the address, and it is handed out. -/
theorem deleted_address_is_handed_out :
    Fresh (emptyBalancer none) ∧ (emptyBalancer none).algorithm.isNone
      ∧ ∃ peer handle b',
        getPeer Lib.plain (Run.exec (react Lib.plain) (emptyBalancer none) resolvedOnce)
            (firstCall (dnsAt 40000 ["10.0.0.2"])) = some (.ok (peer, handle), b')
          ∧ handle.address = some 0 ∧ peer.ip = "10.0.0.1" ∧ (b'.address 0).disabled = true
          ∧ ¬ Current b' 0 :=
  ⟨emptyBalancer_fresh none, rfl, _, _, _, rfl, rfl, rfl, rfl, by decide⟩

theorem kept_address_is_handed_out :
    ∃ peer handle b',
      getPeer Lib.plain (Run.exec (react Lib.plain) (emptyBalancer none) resolvedOnce)
          (firstCall (dnsAt 40000 ["10.0.0.2", "10.0.0.1"])) = some (.ok (peer, handle), b')
        ∧ ∃ a, handle.address = some a ∧ Current b' a := by
  refine ⟨_, _, _, rfl, ?_⟩
  refine peer_handed_out_is_current Lib.plain (emptyBalancer_fresh none) rfl resolvedOnce
    (firstCall (dnsAt 40000 ["10.0.0.2", "10.0.0.1"])) ?_ rfl
  intro a ha
  obtain rfl : 0 = a := Option.some.inj ha
  decide

end KongGateway.Kong.Balancers

import KongGateway.Kong.Balancers.ConnectionHeap

/-!
# LeastConnections — connections are counted by the handles

A call that returns a peer gives out a handle that holds its address; a
retry lets go of the address and takes another one, a release lets go.
The count of an address is the number of the handles that hold it, and
the heap knows the counts. But a handle outlives its address: one that
an update has taken out of the lists while it was available is not in
the heap, and to let go of it, or to take it, raises.
-/

namespace KongGateway.Kong.Balancers

/-! ## Between the calls -/

/-- What holds of a least-connections balancer between the calls. -/
structure Counting (b : Balancer) : Prop where
  quiet : Quiet b
  consistent : Consistent b
  healthThreshold : 0 ≤ b.healthThreshold
  fits : ∃ self, HeapFits b self

namespace Counting

variable (lib : Lib) {b : Balancer}

theorem steady (h : Counting b) : Steady b := ⟨h.quiet, h.consistent, h.healthThreshold⟩

theorem of_steady (h : Steady b) (hfits : ∃ self, HeapFits b self) : Counting b :=
  ⟨h.quiet, h.consistent, h.healthThreshold, hfits⟩

theorem queryDns (h : Counting b) (dns : Dns) (t : TargetId) : Counting (queryDns lib dns b t) := by
  obtain ⟨self, hfits⟩ := h.fits
  exact .of_steady (h.steady.queryDns lib dns t) (hfits.queryDns lib h.quiet dns t)

theorem refreshed (h : Counting b) (dns : Dns) (cacheOnly : Bool) (a : AddressId) :
    Counting (refreshed lib dns cacheOnly b a) := by
  rw [Balancers.refreshed]
  split
  · exact h.queryDns lib dns _
  · exact h

theorem setAddressStatus (h : Counting b) (a : AddressId) (available : Bool) :
    Counting (setAddressStatus lib b a available).2 := by
  obtain ⟨self, hfits⟩ := h.fits
  exact .of_steady (h.steady.setAddressStatus lib a available)
    (setAddressStatus_induction lib (P := fun b => ∃ self, HeapFits b self) h.fits fun _ _ =>
      hfits.afterHostUpdate lib rfl)

theorem of_recounted (h : Counting b) {b' : Balancer} (hcounted : Recounted b b')
    {self : LeastConnections} (hfits : HeapFits (withHeap b' self) self) :
    Counting (withHeap b' self) := by
  have hrearranged := hcounted.rearranged
  have hconsistent : Consistent b' :=
    ⟨hrearranged.accounted h.consistent.accounted,
      hrearranged.statusHolds h.consistent.accounted h.consistent.status⟩
  refine ⟨(hcounted.quiet h.quiet).with_heap fun a ha => ?_, hconsistent.with_algorithm _, ?_,
    ⟨self, hfits⟩⟩
  · exact (mem_availableOf.mp (hfits.payloads.mem_iff.mp ha)).1
  · exact hrearranged.healthThreshold.symm ▸ h.healthThreshold

theorem availableOf_ne_nil (h : Counting b) (hhealthy : b.healthy = true) : availableOf b ≠ [] := by
  obtain ⟨t, ht, a, ha, havailable, -, -⟩ :=
    h.consistent.exists_available h.healthThreshold hhealthy
  intro hnil
  have hmem : a ∈ availableOf b :=
    mem_availableOf.mpr ⟨List.mem_flatMap.mpr ⟨t, ht, ha⟩, havailable⟩
  rw [hnil] at hmem
  exact List.not_mem_nil hmem

end Counting

/-! ## The loop -/

theorem Survives.with_heap {lib : Lib} {dns : Dns} {cacheOnly : Bool} {b : Balancer} {a : AddressId}
    (h : Survives lib dns cacheOnly b a) (self : LeastConnections) :
    Survives lib dns cacheOnly (withHeap b self) a := by
  refine ⟨h.1, h.2.imp_right fun hrest => hrest.imp_right fun hspared entry hentry => ?_⟩
  exact ⟨(hspared entry hentry).1, .inl trivial⟩

/-- How a call ends that picks from a balancer: with an error and no
count moved, or with one connection more of a candidate of least key. -/
def EndsWell (b : Balancer) (failed : List AddressId) : Outcome → Prop
  | (.error _, b') => Counting b' ∧ KeepsCounts b b'
  | (.ok (_, handle), b') => ∃ a b₁ self, handle.address = some a ∧ MayPick b failed a
      ∧ Counting b₁ ∧ KeepsCounts b b₁ ∧ b' = withHeap (recount b₁ a 1) self ∧ Counting b'

section Loop

variable (lib : Lib) (dns : Dns) (cacheOnly : Bool) {b : Balancer} {self : LeastConnections}
  {handle : Handle}

theorem leastConnectionsGiveUp_free (hfree : handle.address = none) (err : String)
    (self : LeastConnections) (b : Balancer) :
    leastConnectionsGiveUp err handle self b = some (.error err, b) := by
  rw [leastConnectionsGiveUp, releaseHandleAddress, hfree]
  rfl

theorem MayPick.mem {failed : List AddressId} {a : AddressId} (h : MayPick b failed a) :
    a ∈ availableOf b := by
  have hmem := h.1
  rw [candidates] at hmem
  split at hmem
  · exact hmem
  · exact List.mem_of_mem_filter hmem

theorem leastConnectionsLoop_endsWell (hleast : LeastFirst lib) (h : Counting b)
    (hself : HeapFits b self) (hnonneg : ∀ a ∈ availableOf b, 0 ≤ countOf b a)
    (hfree : handle.address = none)
    (hsurvives : b.healthy = true → ∀ a, MayPick b (handle.failedAddresses.getD []) a →
      Survives lib dns cacheOnly b a) (fuel : Nat) :
    ∃ outcome, leastConnectionsLoop lib dns cacheOnly (fuel + 1) none handle self b = some outcome
      ∧ EndsWell b (handle.failedAddresses.getD []) outcome := by
  rw [leastConnectionsLoop]
  cases hhealthy : b.healthy with
  | false =>
    rw [Bool.not_false, if_pos rfl, leastConnectionsGiveUp_free hfree]
    exact ⟨_, rfl, h, .refl b⟩
  | true =>
    obtain ⟨a, handle', self', hnext, hfits, hpick, hkept⟩ := nextAddress_fits lib hleast hself
      h.quiet.registered.nodup_allAddresses hnonneg (h.availableOf_ne_nil hhealthy) handle
    have hpicked : Counting (withHeap b self') := h.of_recounted (.refl b) hfits
    have hmem := mem_availableOf.mp hpick.mem
    have hmade : a < (withHeap b self').made := h.quiet.registered.known_of_mem hmem.1
    have hsurvives' := (hsurvives hhealthy a hpick).with_heap self'
    have hrefreshed := hpicked.refreshed lib dns cacheOnly a
    have hkeeps : KeepsCounts b (refreshed lib dns cacheOnly (withHeap b self') a) := by
      have hheap : KeepsCounts b (withHeap b self') := .of_tables rfl rfl
      refine hheap.trans ?_
      rw [refreshed]
      split
      · exact .queryDns lib hpicked.quiet dns _
      · exact .refl _
    have hcurrent := refreshed_current lib dns cacheOnly hpicked.quiet hmade hmem.2 hsurvives'
    obtain ⟨built, hbuilt⟩ := hrefreshed.fits
    rw [Bool.not_true, if_neg Bool.false_ne_true, hnext]
    dsimp only
    rw [getAddressPeer_eq lib dns cacheOnly hpicked.quiet hmade]
    have havailable : ((withHeap b self').address a).available = true := hmem.2
    rw [if_pos havailable]
    cases hpeer : addressPeer dns
        ((refreshed lib dns cacheOnly (withHeap b self') a).address a) with
    | error err =>
      dsimp only
      rw [hbuilt.algorithm]
      dsimp only
      rw [if_pos (addressPeer_error dns hpeer).1, leastConnectionsGiveUp_free (hkept.trans hfree)]
      exact ⟨_, rfl, hrefreshed, hkeeps⟩
    | ok peer =>
      have hlisted : a ∈ (refreshed lib dns cacheOnly (withHeap b self') a).allAddresses :=
        List.mem_flatMap.mpr ⟨_, hrefreshed.quiet.registered.mem_targets hcurrent.1, hcurrent.1⟩
      obtain ⟨moved, hupdate, hmoved⟩ := updateConnectionCount_fits hbuilt
        (hbuilt.counted a hlisted) (fun _ => hlisted) 1
      dsimp only
      rw [hbuilt.algorithm]
      dsimp only
      rw [hupdate]
      exact ⟨_, rfl, a, _, moved, rfl, hpick, hrefreshed, hkeeps, rfl,
        hrefreshed.of_recounted (recount_recounted _ a 1) hmoved⟩

end Loop

/-! ## The handles of a balancer -/

/-- How many handles hold an address. -/
def holders (handles : List Handle) (a : AddressId) : Nat :=
  handles.countP fun handle => handle.address = some a

/-- The counts are those of the handles. -/
structure Tallied (b : Balancer) (handles : List Handle) : Prop where
  counting : Counting b
  held : ∀ handle ∈ handles, ∀ a, handle.address = some a →
    a < b.made ∧ (b.address a).connectionCount.isSome = true
  count : ∀ a < b.made, countOf b a = holders handles a

/-- The balancer once a handle has let go of its address. -/
def letGo (b : Balancer) : Option Handle → Balancer
  | none => b
  | some handle =>
    match handle.address with
    | none => b
    | some a => recount b a (-1)

theorem letGo_recounted (b : Balancer) (handle : Option Handle) : Recounted b (letGo b handle) := by
  cases handle with
  | none => exact .refl b
  | some handle =>
    rw [letGo]
    cases handle.address with
    | none => exact .refl b
    | some a => exact recount_recounted b a (-1)

/-- The address that a handle holds is listed, unless it is
unavailable. -/
def HoldsListed (b : Balancer) (handle : Handle) : Prop :=
  ∀ a, handle.address = some a → (b.address a).available = true → a ∈ b.allAddresses

instance (b : Balancer) (handle : Handle) : Decidable (HoldsListed b handle) :=
  inferInstanceAs (Decidable (∀ a ∈ handle.address,
    (b.address a).available = true → a ∈ b.allAddresses))

section Handles

variable {b b' : Balancer} {handles handles' : List Handle} {self : LeastConnections}

theorem holders_pos {handle : Handle} {a : AddressId} (hmem : handle ∈ handles)
    (ha : handle.address = some a) : 0 < holders handles a :=
  List.countP_pos_iff.mpr ⟨handle, hmem, decide_eq_true ha⟩

theorem holders_append (handle : Handle) (a : AddressId) :
    holders (handles ++ [handle]) a
      = holders handles a + if handle.address = some a then 1 else 0 := by
  rw [holders, holders, List.countP_append, List.countP_singleton]
  congr 1
  by_cases heq : handle.address = some a
  · simp [heq]
  · simp [heq]

theorem holders_set {i : Nat} {old : Handle} (hi : handles[i]? = some old) (new : Handle)
    (a : AddressId) :
    holders (handles.set i new) a + (if old.address = some a then 1 else 0)
      = holders handles a + if new.address = some a then 1 else 0 := by
  obtain ⟨hlt, rfl⟩ := List.getElem?_eq_some_iff.mp hi
  have hpos : handles[i].address = some a → 0 < holders handles a :=
    holders_pos (List.getElem_mem hlt)
  rw [holders] at hpos ⊢
  rw [holders, List.countP_set hlt]
  by_cases hold : handles[i].address = some a
  · have := hpos hold
    by_cases hnew : new.address = some a
    · simp only [hold, hnew, decide_true, if_true]
      omega
    · simp only [hold, hnew, decide_true, decide_false, if_true, if_false, Bool.false_eq_true]
      omega
  · by_cases hnew : new.address = some a
    · simp [hold, hnew]
    · simp [hold, hnew]

theorem Tallied.nonneg (h : Tallied b handles) : ∀ a ∈ availableOf b, 0 ≤ countOf b a := by
  intro a ha
  have hmade := h.counting.quiet.registered.known_of_mem (mem_availableOf.mp ha).1
  rw [h.count a hmade]
  exact Int.natCast_nonneg _

theorem Tallied.of_keeps (h : Tallied b handles) (hcounting : Counting b')
    (hkeeps : KeepsCounts b b') : Tallied b' handles where
  counting := hcounting
  held := by
    intro handle hmem a ha
    obtain ⟨hmade, hcounted⟩ := h.held handle hmem a ha
    exact ⟨Nat.lt_of_lt_of_le hmade hkeeps.made, hkeeps.counted a hmade hcounted⟩
  count := by
    intro a ha
    rcases Nat.lt_or_ge a b.made with hlt | hge
    · exact (hkeeps.count a hlt).trans (h.count a hlt)
    · -- nobody holds an address that was not made
      have hnone : holders handles a = 0 := by
        refine Nat.eq_zero_of_not_pos fun hpos => ?_
        obtain ⟨handle, hmem, heq⟩ := List.countP_pos_iff.mp hpos
        exact absurd (h.held handle hmem a (of_decide_eq_true heq)).1 (Nat.not_lt.mpr hge)
      rw [hkeeps.fresh a hge ha, hnone]
      rfl

theorem Tallied.recount (h : Tallied b handles) {a : AddressId} {delta : Int} (ha : a < b.made)
    (hcounting : Counting (withHeap (recount b a delta) self))
    (hheld : ∀ handle ∈ handles', ∀ x, handle.address = some x →
      x = a ∨ ∃ old ∈ handles, old.address = some x)
    (hcount : ∀ x, (holders handles' x : Int) = holders handles x + if x = a then delta else 0) :
    Tallied (withHeap (recount b a delta) self) handles' where
  counting := hcounting
  held := by
    intro handle hmem x hx
    rcases hheld handle hmem x hx with rfl | ⟨old, hold, hx'⟩
    · exact ⟨ha, recount_counted (.inl rfl)⟩
    · obtain ⟨hmade, hcounted⟩ := h.held old hold x hx'
      exact ⟨hmade, recount_counted (.inr hcounted)⟩
  count := by
    intro x hx
    have hmoved : countOf (withHeap (Balancers.recount b a delta) self) x
        = countOf b x + if x = a then delta else 0 := countOf_recount b a delta x
    rw [hmoved, h.count x hx, hcount]

theorem Tallied.append (h : Tallied b handles) {a : AddressId} (ha : a < b.made)
    (hcounting : Counting (withHeap (Balancers.recount b a 1) self)) {handle : Handle}
    (haddress : handle.address = some a) :
    Tallied (withHeap (Balancers.recount b a 1) self) (handles ++ [handle]) := by
  refine h.recount ha hcounting (fun handle' hmem x hx => ?_) fun x => ?_
  · rcases List.mem_append.mp hmem with hold | hnew
    · exact .inr ⟨handle', hold, hx⟩
    · rw [List.mem_singleton.mp hnew, haddress] at hx
      exact .inl (Option.some.inj hx).symm
  · rw [holders_append, haddress]
    by_cases heq : x = a
    · simp [heq]
    · simp [heq, Ne.symm heq]

theorem Tallied.fill (h : Tallied b handles) {i : Nat} {old : Handle} (hi : handles[i]? = some old)
    (hfree : old.address = none) {a : AddressId} (ha : a < b.made)
    (hcounting : Counting (withHeap (Balancers.recount b a 1) self)) {handle : Handle}
    (haddress : handle.address = some a) :
    Tallied (withHeap (Balancers.recount b a 1) self) (handles.set i handle) := by
  refine h.recount ha hcounting (fun handle' hmem x hx => ?_) fun x => ?_
  · rcases List.mem_or_eq_of_mem_set hmem with hold | rfl
    · exact .inr ⟨handle', hold, hx⟩
    · rw [haddress] at hx
      exact .inl (Option.some.inj hx).symm
  · have hset := holders_set hi handle x
    rw [hfree, haddress] at hset
    by_cases heq : x = a
    · simp [heq] at hset ⊢
      omega
    · simp [heq, Ne.symm heq] at hset ⊢
      omega

theorem Tallied.letGo (h : Tallied b handles) {i : Nat} {old : Handle}
    (hi : handles[i]? = some old) (hcounting : Counting (withHeap (letGo b (some old)) self))
    {freed : Handle} (hfreed : freed.address = none) :
    Tallied (withHeap (letGo b (some old)) self) (handles.set i freed) := by
  have hmem := List.mem_of_getElem? hi
  have hheld : ∀ handle ∈ handles.set i freed, ∀ x, handle.address = some x →
      ∃ old ∈ handles, old.address = some x := by
    intro handle hhandle x hx
    rcases List.mem_or_eq_of_mem_set hhandle with hold | rfl
    · exact ⟨handle, hold, hx⟩
    · rw [hfreed] at hx
      cases hx
  revert hcounting
  rw [Balancers.letGo]
  cases haddress : old.address with
  | none =>
    intro hcounting
    have hkept := h.of_keeps hcounting (.of_tables rfl rfl)
    refine ⟨hcounting, fun handle hhandle x hx => ?_, fun x hx => ?_⟩
    · obtain ⟨handle', hmem', hx'⟩ := hheld handle hhandle x hx
      exact hkept.held handle' hmem' x hx'
    · have hset := holders_set hi freed x
      rw [haddress, hfreed] at hset
      rw [hkept.count x hx]
      simpa using hset.symm
  | some a =>
    intro hcounting
    refine h.recount (h.held old hmem a haddress).1 hcounting
      (fun handle hhandle x hx => .inr (hheld handle hhandle x hx)) fun x => ?_
    have hset := holders_set hi freed x
    rw [haddress, hfreed] at hset
    by_cases heq : x = a
    · simp [heq] at hset ⊢
      omega
    · simp [heq, Ne.symm heq] at hset ⊢
      omega

theorem releaseHandleAddress_fits (h : Tallied b handles) (hself : HeapFits b self)
    {old handle : Handle} (hmem : old ∈ handles) (hlisted : HoldsListed b old) (haddress : handle.address = old.address) :
    ∃ self', releaseHandleAddress handle self b
        = some ({ handle with address := none }, self', withHeap (letGo b (some old)) self')
      ∧ HeapFits (withHeap (letGo b (some old)) self') self' := by
  rw [releaseHandleAddress, haddress, letGo]
  cases hold : old.address with
  | none =>
    have hsame : withHeap b self = b := by rw [withHeap, ← hself.algorithm]
    have hkept : { handle with address := none } = handle := by
      rw [hold] at haddress
      rw [← haddress]
    dsimp only
    refine ⟨self, ?_, ?_⟩
    · rw [hsame, hkept]
    · rw [hsame]
      exact hself
  | some a =>
    obtain ⟨moved, hupdate, hmoved⟩ := updateConnectionCount_fits hself
      (h.held old hmem a hold).2 (hlisted a hold) (-1)
    dsimp only
    rw [hupdate]
    exact ⟨moved, rfl, hmoved⟩

/-- To let go of any other address raises: the heap does not have it. -/
theorem releaseHandleAddress_none (h : Tallied b handles) (hself : HeapFits b self)
    {handle : Handle} (hmem : handle ∈ handles) (hnot : ¬ HoldsListed b handle) :
    releaseHandleAddress handle self b = none := by
  rw [HoldsListed] at hnot
  push Not at hnot
  obtain ⟨a, ha, havailable, hunlisted⟩ := hnot
  have hgone : a ∉ self.binaryHeap.map Prod.snd := fun hin =>
    hunlisted (mem_availableOf.mp (hself.payloads.mem_iff.mp hin)).1
  rw [releaseHandleAddress, ha]
  dsimp only
  rw [updateConnectionCount_eq (h.held handle hmem a ha).2, if_pos havailable, if_neg hgone]
  rfl

end Handles

/-! ## Sessions -/

/-- A balancer and the handles that its calls have returned. -/
structure Session where
  balancer : Balancer
  handles : List Handle

inductive SessionEvent where
  | queryDns (dns : Dns) (t : TargetId)
  | setAddressStatus (a : AddressId) (available : Bool)
  /-- a first try -/
  | getPeer (call : GetPeer)
  /-- a retry with the `i`-th handle -/
  | retry (i : Nat) (call : GetPeer)
  | release (i : Nat)

def GetPeer.withHandle (call : GetPeer) (handle : Option Handle) : GetPeer :=
  { call with handle := handle }

/-- One event. After a retry that fails the handle holds nothing; what
it has failed on no longer matters then, since to use it again raises. A
call that raises is left out. -/
def Session.step (lib : Lib) (s : Session) : SessionEvent → Session
  | .queryDns dns t => { s with balancer := queryDns lib dns s.balancer t }
  | .setAddressStatus a available =>
    { s with balancer := (setAddressStatus lib s.balancer a available).2 }
  | .getPeer call =>
    match getPeer lib s.balancer (call.withHandle none) with
    | none => s
    | some (.error _, b) => { s with balancer := b }
    | some (.ok (_, handle), b) => ⟨b, s.handles ++ [handle]⟩
  | .retry i call =>
    match s.handles[i]? with
    | none => s
    | some old =>
      match getPeer lib s.balancer (call.withHandle (some old)) with
      | none => s
      | some (.error _, b) => ⟨b, s.handles.set i { old with address := none }⟩
      | some (.ok (_, handle), b) => ⟨b, s.handles.set i handle⟩
  | .release i =>
    match s.handles[i]? with
    | none => s
    | some old =>
      match release s.balancer old with
      | none => s
      | some b => ⟨b, s.handles.set i { old with address := none }⟩

/-- A balancer as `create_balancer` makes it: its targets are resolved,
then the algorithm is built. -/
def leastConnectionsSession (lib : Lib) (b : Balancer) (queries : List (Dns × TargetId)) : Session where
  balancer := newAlgorithm lib .leastConnections
    (Run.exec (fun b query => queryDns lib query.1 b query.2) b queries)
  handles := []

/-- No refresh takes away what a call picks. -/
def PicksSurvive (lib : Lib) (b : Balancer) (call : GetPeer) (handle : Option Handle) : Prop :=
  b.healthy = true → ∀ a, MayPick (letGo b handle) (failedBefore handle) a →
    Survives lib call.dns call.cacheOnly (letGo b handle) a

/-- A handle that lets go holds an address that is unavailable or
listed, and no refresh takes away what a call picks. -/
def Admits (lib : Lib) (s : Session) : SessionEvent → Prop
  | .queryDns _ _ => True
  | .setAddressStatus _ _ => True
  | .getPeer call => PicksSurvive lib s.balancer call none
  | .retry i call => ∀ old, s.handles[i]? = some old →
      HoldsListed s.balancer old ∧ (old.address ≠ none → PicksSurvive lib s.balancer call (some old))
  | .release i => ∀ old, s.handles[i]? = some old → HoldsListed s.balancer old

section Sessions

variable (lib : Lib) {b : Balancer} {handles : List Handle} {call : GetPeer}

theorem getPeer_first (hleast : LeastFirst lib) (h : Tallied b handles) (hfuel : 0 < call.fuel)
    (hsurvive : PicksSurvive lib b call none) :
    ∃ outcome, getPeer lib b (call.withHandle none) = some outcome ∧ EndsWell b [] outcome := by
  obtain ⟨self, hself⟩ := h.counting.fits
  obtain ⟨fuel, hfuel'⟩ : ∃ fuel, call.fuel = fuel + 1 := ⟨call.fuel - 1, by omega⟩
  obtain ⟨outcome, hloop, hends⟩ := @leastConnectionsLoop_endsWell lib call.dns call.cacheOnly b self
    Handle.new hleast h.counting hself h.nonneg rfl hsurvive fuel
  refine ⟨outcome, ?_, hends⟩
  rw [getPeer, hself.algorithm]
  show leastConnectionsLoop lib call.dns call.cacheOnly call.fuel none Handle.new self b = some outcome
  rw [hfuel', hloop]

/-- The handle of a retry, which has failed on its address. -/
def Handle.retried (handle : Handle) : Handle :=
  { handle with
    retryCount := handle.retryCount + 1
    failedAddresses := some (failedBefore (some handle)) }

theorem leastConnectionsGetPeer_retry {old : Handle} (hheld : old.address ≠ none)
    (self : LeastConnections) (b : Balancer) (call : GetPeer) :
    leastConnectionsGetPeer lib call.dns call.fuel self b call.cacheOnly (some old)
      = (releaseHandleAddress old.retried self b).bind fun (handle, self, b) =>
          leastConnectionsLoop lib call.dns call.cacheOnly call.fuel none handle self b := by
  obtain ⟨retryCount, address, hashValue, failed⟩ := old
  cases address with
  | none => exact absurd rfl hheld
  | some a =>
    have hretried : Handle.retried ⟨retryCount, some a, hashValue, failed⟩
        = ⟨retryCount + 1, some a, hashValue, some (failed.getD [] ++ [a])⟩ := rfl
    rw [hretried]
    dsimp only [leastConnectionsGetPeer]
    cases releaseHandleAddress _ self b with
    | none => rfl
    | some released => rfl

theorem getPeer_retry (hleast : LeastFirst lib) (h : Tallied b handles) (hfuel : 0 < call.fuel)
    {i : Nat} {old : Handle} (hi : handles[i]? = some old) (hheld : old.address ≠ none)
    (hlisted : HoldsListed b old) (hsurvive : PicksSurvive lib b call (some old)) :
    ∃ self' outcome, getPeer lib b (call.withHandle (some old)) = some outcome
      ∧ (∀ freed : Handle, freed.address = none →
        Tallied (withHeap (letGo b (some old)) self') (handles.set i freed))
      ∧ EndsWell (withHeap (letGo b (some old)) self') (failedBefore (some old)) outcome := by
  obtain ⟨self, hself⟩ := h.counting.fits
  obtain ⟨fuel, hfuel'⟩ : ∃ fuel, call.fuel = fuel + 1 := ⟨call.fuel - 1, by omega⟩
  have hrecounted := letGo_recounted b (some old)
  obtain ⟨self', hrelease, hfits⟩ := @releaseHandleAddress_fits b handles self h hself old old.retried
    (List.mem_of_getElem? hi) hlisted rfl
  have hcounting := h.counting.of_recounted hrecounted hfits
  have htallied : ∀ freed : Handle, freed.address = none →
      Tallied (withHeap (letGo b (some old)) self') (handles.set i freed) :=
    fun freed hfreed => h.letGo hi hcounting hfreed
  obtain ⟨outcome, hloop, hends⟩ := @leastConnectionsLoop_endsWell lib call.dns call.cacheOnly _ self'
    { old.retried with address := none } hleast hcounting hfits (htallied Handle.new rfl).nonneg rfl
    (fun hhealthy x hx => (hsurvive (hrecounted.rearranged.healthy ▸ hhealthy) x hx).with_heap self')
    fuel
  refine ⟨self', outcome, ?_, htallied, hends⟩
  rw [getPeer, hself.algorithm]
  show leastConnectionsGetPeer lib call.dns call.fuel self b call.cacheOnly (some old) = some outcome
  rw [leastConnectionsGetPeer_retry lib hheld, hrelease, Option.bind_some, hfuel']
  exact hloop

theorem release_fits (h : Tallied b handles) {i : Nat} {old : Handle} (hi : handles[i]? = some old)
    (hlisted : HoldsListed b old) :
    ∃ b', release b old = some b'
      ∧ ∀ freed : Handle, freed.address = none → Tallied b' (handles.set i freed) := by
  obtain ⟨self, hself⟩ := h.counting.fits
  have hrecounted := letGo_recounted b (some old)
  obtain ⟨self', hrelease, hfits⟩ :=
    releaseHandleAddress_fits h hself (List.mem_of_getElem? hi) hlisted rfl
  have hcounting := h.counting.of_recounted hrecounted hfits
  refine ⟨withHeap (letGo b (some old)) self', ?_, fun freed hfreed => h.letGo hi hcounting hfreed⟩
  rw [release, hself.algorithm]
  dsimp only
  rw [hrelease]
  rfl

/-- A release raises just when the handle holds an available address
that is not listed. -/
theorem release_eq_none_iff (h : Tallied b handles) {i : Nat} {old : Handle}
    (hi : handles[i]? = some old) : release b old = none ↔ ¬ HoldsListed b old := by
  constructor
  · intro hnone hlisted
    obtain ⟨b', hsome, -⟩ := release_fits h hi hlisted
    rw [hnone] at hsome
    cases hsome
  · intro hnot
    obtain ⟨self, hself⟩ := h.counting.fits
    rw [release, hself.algorithm]
    dsimp only
    rw [releaseHandleAddress_none h hself (List.mem_of_getElem? hi) hnot]
    rfl

theorem EndsWell.tallied {failed : List AddressId} (htallied : Tallied b handles)
    {result : Except String (Peer × Handle)} {b' : Balancer} (h : EndsWell b failed (result, b')) :
    match result with
    | .error _ => Tallied b' handles
    | .ok (_, handle) => Tallied b' (handles ++ [handle])
      ∧ ∀ i old, handles[i]? = some old → old.address = none → Tallied b' (handles.set i handle) := by
  cases result with
  | error err => exact htallied.of_keeps h.1 h.2
  | ok answer =>
    obtain ⟨peer, handle⟩ := answer
    obtain ⟨a, b₁, self, haddress, hpick, hcounting, hkeeps, rfl, hcounting'⟩ := h
    have hmade : a < b.made :=
      htallied.counting.quiet.registered.known_of_mem (mem_availableOf.mp hpick.mem).1
    have hkept := htallied.of_keeps hcounting hkeeps
    have hmade' := Nat.lt_of_lt_of_le hmade hkeeps.made
    exact ⟨hkept.append hmade' hcounting' haddress,
      fun i old hi hfree => hkept.fill hi hfree hmade' hcounting' haddress⟩

theorem leastConnectionsLoop_fuel {dns : Dns} {cacheOnly : Bool} {fuel : Nat}
    {address : Option AddressId} {handle : Handle} {self : LeastConnections} {outcome : Outcome}
    (h : leastConnectionsLoop lib dns cacheOnly fuel address handle self b = some outcome) :
    0 < fuel := by
  cases fuel with
  | zero => cases h
  | succ fuel => exact Nat.succ_pos fuel

theorem getPeer_some (h : Counting b) {handle : Option Handle} {outcome : Outcome}
    (hget : getPeer lib b (call.withHandle handle) = some outcome) :
    0 < call.fuel ∧ ∀ old, handle = some old → old.address ≠ none := by
  obtain ⟨self, hself⟩ := h.fits
  rw [getPeer, hself.algorithm] at hget
  change leastConnectionsGetPeer lib call.dns call.fuel self b call.cacheOnly handle = some outcome
    at hget
  cases handle with
  | none => exact ⟨leastConnectionsLoop_fuel lib hget, fun old hold => by cases hold⟩
  | some old =>
    have hheld : old.address ≠ none := by
      intro hnone
      obtain ⟨retryCount, address, hashValue, failed⟩ := old
      obtain rfl : address = none := hnone
      cases hget
    rw [leastConnectionsGetPeer_retry lib hheld] at hget
    obtain ⟨released, -, hloop⟩ := Option.bind_eq_some_iff.mp hget
    refine ⟨leastConnectionsLoop_fuel lib hloop, fun old' hold => ?_⟩
    rw [← Option.some.inj hold]
    exact hheld

theorem Tallied.step (hleast : LeastFirst lib) {s : Session} (h : Tallied s.balancer s.handles)
    (event : SessionEvent) (hadmits : Admits lib s event) :
    Tallied (s.step lib event).balancer (s.step lib event).handles := by
  cases event with
  | queryDns dns t =>
    exact h.of_keeps (h.counting.queryDns lib dns t) (.queryDns lib h.counting.quiet dns t)
  | setAddressStatus a available =>
    exact h.of_keeps (h.counting.setAddressStatus lib a available) (.setAddressStatus lib s.balancer a available)
  | getPeer call =>
    rw [Session.step]
    cases hget : Balancers.getPeer lib s.balancer (call.withHandle none) with
    | none => exact h
    | some outcome =>
      obtain ⟨outcome', hget', hends⟩ :=
        getPeer_first lib hleast h (getPeer_some lib h.counting hget).1 hadmits
      obtain rfl := Option.some.inj (hget.symm.trans hget')
      obtain ⟨result, b'⟩ := outcome
      have htallied := hends.tallied h
      cases result with
      | error err => exact htallied
      | ok answer => exact htallied.1
  | retry i call =>
    rw [Session.step]
    cases hi : s.handles[i]? with
    | none => exact h
    | some old =>
      dsimp only
      cases hget : Balancers.getPeer lib s.balancer (call.withHandle (some old)) with
      | none => exact h
      | some outcome =>
        obtain ⟨hfuel, hheld⟩ := getPeer_some lib h.counting hget
        obtain ⟨hlisted, hsurvive⟩ := hadmits old hi
        obtain ⟨self', outcome', hget', hreleased, hends⟩ := getPeer_retry lib hleast h hfuel hi
          (hheld old rfl) hlisted (hsurvive (hheld old rfl))
        obtain rfl := Option.some.inj (hget.symm.trans hget')
        obtain ⟨result, b'⟩ := outcome
        have htallied := hends.tallied (hreleased { old with address := none } rfl)
        cases result with
        | error err => exact htallied
        | ok answer =>
          have hlt := (List.getElem?_eq_some_iff.mp hi).1
          have hfilled := htallied.2 i { old with address := none } (by simp [hlt]) rfl
          rw [List.set_set] at hfilled
          exact hfilled
  | release i =>
    rw [Session.step]
    cases hi : s.handles[i]? with
    | none => exact h
    | some old =>
      obtain ⟨b', hrelease, htallied⟩ := release_fits h hi (hadmits old hi)
      dsimp only
      rw [hrelease]
      exact htallied _ rfl

theorem leastConnectionsSession_tallied {b₀ : Balancer} (hfresh : Fresh b₀)
    (hnew : b₀.algorithm = none) (queries : List (Dns × TargetId)) :
    Tallied (leastConnectionsSession lib b₀ queries).balancer [] := by
  have hquery : ∀ (b : Balancer) (query : Dns × TargetId), Quiet b ∧ KeepsCounts b₀ b →
      Quiet (queryDns lib query.1 b query.2) ∧ KeepsCounts b₀ (queryDns lib query.1 b query.2) := by
    rintro b query ⟨hquiet, hkeeps⟩
    exact ⟨hquiet.queryDns lib query.1 query.2,
      hkeeps.trans (.queryDns lib hquiet query.1 query.2)⟩
  obtain ⟨-, hkeeps⟩ := Run.exec_invariant hquery ⟨hfresh.quiet hnew, .refl b₀⟩ queries
  have hbuilt := hkeeps.trans (.newAlgorithm lib .leastConnections _)
  have hcounting : Counting (leastConnectionsSession lib b₀ queries).balancer :=
    .of_steady (((Steady.of_fresh hfresh hnew).resolved lib queries).newAlgorithm lib
      .leastConnections) ⟨_, leastConnectionsAfterHostUpdate_fits _⟩
  exact ⟨hcounting, fun handle hmem => absurd hmem List.not_mem_nil,
    fun a ha => hbuilt.fresh a (hfresh.made ▸ Nat.zero_le a) ha⟩

theorem picksSurvive_of_available {handle : Option Handle}
    (h : ∀ a ∈ availableOf (letGo b handle),
      Survives lib call.dns call.cacheOnly (letGo b handle) a) : PicksSurvive lib b call handle :=
  fun _ a ha => h a ha.mem

theorem admits_retry_of_available {s : Session} {i : Nat}
    (h : ∀ old ∈ s.handles[i]?, HoldsListed s.balancer old
      ∧ ∀ a ∈ availableOf (letGo s.balancer (some old)),
        Survives lib call.dns call.cacheOnly (letGo s.balancer (some old)) a) :
    Admits lib s (.retry i call) :=
  fun old hold => ⟨(h old hold).1, fun _ => picksSurvive_of_available lib (h old hold).2⟩

end Sessions

/-- In every run in which no handle lets go of an available address that
is listed no longer, and no refresh within a call takes away what the
call picks: the heap holds the available listed addresses by their keys,
the count of an address is the number of the handles that hold it, a
call raises nothing and picks a candidate of least key, and a release
raises only when the condition fails. -/
theorem least_connections_counted (lib : Lib) (hleast : LeastFirst lib) {b₀ : Balancer}
    (hfresh : Fresh b₀) (hnew : b₀.algorithm = none) (queries : List (Dns × TargetId))
    (events : List SessionEvent)
    (hrun : Run.Guarded (Session.step lib) (Admits lib) (leastConnectionsSession lib b₀ queries)
      events) :
    let s := Run.exec (Session.step lib) (leastConnectionsSession lib b₀ queries) events
    let b := s.balancer
    (∃ self, b.algorithm = some (.leastConnections self) ∧ self.binaryHeap.Perm (heapOf b))
      ∧ (∀ a < b.made, countOf b a = holders s.handles a)
      ∧ (∀ (i : Nat) (handle : Handle), s.handles[i]? = some handle →
        (release b handle = none ↔ ¬ HoldsListed b handle))
      ∧ ∀ (call : GetPeer) (handle : Option Handle), 0 < call.fuel →
        (∀ old, handle = some old →
          (∃ i : Nat, s.handles[i]? = some old) ∧ old.address ≠ none ∧ HoldsListed b old) →
        PicksSurvive lib b call handle →
        ∃ result b', getPeer lib b (call.withHandle handle) = some (result, b')
          ∧ ∀ peer handle', result = .ok (peer, handle') →
            ∃ a, handle'.address = some a ∧ MayPick (letGo b handle) (failedBefore handle) a := by
  intro s b
  have hstep : ∀ (s : Session) (event : SessionEvent), Tallied s.balancer s.handles →
      Admits lib s event → Tallied (s.step lib event).balancer (s.step lib event).handles :=
    fun s event hs hadmits => hs.step lib hleast event hadmits
  have h : Tallied b s.handles :=
    hrun.invariant hstep (leastConnectionsSession_tallied lib hfresh hnew queries)
  obtain ⟨self, hself⟩ := h.counting.fits
  refine ⟨⟨self, hself.algorithm, hself.heap⟩, h.count,
    fun i handle hi => release_eq_none_iff h hi, fun call handle hfuel hretry hsurvive => ?_⟩
  cases handle with
  | none =>
    obtain ⟨⟨result, b'⟩, hget, hends⟩ := getPeer_first lib hleast h hfuel hsurvive
    refine ⟨result, b', hget, ?_⟩
    rintro peer handle' rfl
    obtain ⟨a, -, -, haddress, hpick, -⟩ := hends
    exact ⟨a, haddress, hpick⟩
  | some old =>
    obtain ⟨⟨i, hi⟩, hheld, hlisted⟩ := hretry old rfl
    obtain ⟨self', ⟨result, b'⟩, hget, -, hends⟩ :=
      getPeer_retry lib hleast h hfuel hi hheld hlisted hsurvive
    refine ⟨result, b', hget, ?_⟩
    rintro peer handle' rfl
    obtain ⟨a, -, -, haddress, hpick, -⟩ := hends
    exact ⟨a, haddress, hpick⟩

/-- The heap's library: the first entry of a least value. -/
def heapLib : Lib :=
  { Lib.plain with
    peek := fun heap => (RatioKey.least heap).map Prod.snd
    peek_mem := by
      intro heap a h
      obtain ⟨entry, hentry, rfl⟩ := Option.map_eq_some_iff.mp h
      exact List.mem_map_of_mem (RatioKey.least_mem hentry)
    peek_none := by
      intro heap h
      exact RatioKey.least_eq_none.mp (Option.map_eq_none_iff.mp h) }

theorem heapLib_leastFirst : LeastFirst heapLib := by
  intro heap a hpos hpeek
  obtain ⟨entry, hentry, rfl⟩ := Option.map_eq_some_iff.mp hpeek
  exact ⟨entry.1, RatioKey.least_mem hentry, RatioKey.least_le hpos hentry⟩

/-- One target with an answer. -/
def resolvedSession (ips : List String) : Session :=
  leastConnectionsSession heapLib (emptyBalancer none) [(dnsAt 0 ips, 0)]

/-- Two calls, one of which is tried again; the other one's address is
marked down and released. -/
def retriedOnce : List SessionEvent :=
  let call := firstCall (dnsAt 0 ["10.0.0.1", "10.0.0.2"])
  [.getPeer call, .getPeer call, .retry 0 call, .setAddressStatus 1 false, .release 1]

theorem least_connections_counted_retried :
    let s := Run.exec (Session.step heapLib) (resolvedSession ["10.0.0.1", "10.0.0.2"]) retriedOnce
    (s.handles.map fun handle => handle.address) = [some 1, none]
      ∧ (∃ self, s.balancer.algorithm = some (.leastConnections self)
        ∧ self.binaryHeap.Perm [((1, 10), 0)])
      ∧ countOf s.balancer 1 = holders s.handles 1
      ∧ ∃ result b', getPeer heapLib s.balancer (firstCall (dnsAt 0 [])) = some (result, b')
        ∧ ∀ peer handle, result = .ok (peer, handle) →
          ∃ a, handle.address = some a ∧ MayPick s.balancer [] a := by
  intro s
  have hrun : Run.Guarded (Session.step heapLib) (Admits heapLib)
      (resolvedSession ["10.0.0.1", "10.0.0.2"]) retriedOnce := by
    refine ⟨?_, ?_, ?_, trivial, ?_, trivial⟩
    · exact picksSurvive_of_available heapLib (by decide +kernel)
    · exact picksSurvive_of_available heapLib (by decide +kernel)
    · exact admits_retry_of_available heapLib (by decide +kernel)
    · show ∀ old ∈ (_ : Option Handle), HoldsListed _ old
      decide +kernel
  obtain ⟨⟨self, hself, hheap⟩, hcount, -, hget⟩ := least_connections_counted heapLib
    heapLib_leastFirst (emptyBalancer_fresh none) rfl _ retriedOnce hrun
  refine ⟨by decide +kernel, ⟨self, hself, hheap.trans (.of_eq (by decide +kernel))⟩,
    hcount 1 (by decide +kernel), ?_⟩
  exact hget (firstCall (dnsAt 0 [])) none (by decide) (fun old hold => by cases hold)
    (picksSurvive_of_available heapLib (by decide +kernel))

/-- A connection to an address that the next answer leaves out. -/
def heldTooLong : List SessionEvent :=
  [.getPeer (firstCall (dnsAt 0 ["10.0.0.1"])), .queryDns (dnsAt 40000 ["10.0.0.2"]) 0]

/-- The addresses in the heap. -/
def heapPayloads (b : Balancer) : List AddressId :=
  match b.algorithm with
  | some (.leastConnections self) => self.binaryHeap.map Prod.snd
  | _ => []

/-- The handle that is released holds an available address that the heap
does not have, and so the release raises. A call whose refresh takes
away what it picked raises as well. -/
theorem removed_address_is_released :
    let s := Run.exec (Session.step heapLib) (resolvedSession ["10.0.0.1"]) heldTooLong
    (s.handles.map fun handle => handle.address) = [some 0] ∧ countOf s.balancer 0 = 1
      ∧ (s.balancer.address 0).available = true ∧ 0 ∉ s.balancer.allAddresses
      ∧ heapPayloads s.balancer = [1]
      ∧ (∀ handle ∈ s.handles, release s.balancer handle = none)
      ∧ getPeer heapLib (resolvedSession ["10.0.0.1"]).balancer
          (firstCall (dnsAt 40000 ["10.0.0.2"])) = none := by
  intro s
  refine ⟨by decide +kernel, by decide +kernel, by decide +kernel, by decide +kernel,
    by decide +kernel, fun handle hmem => ?_, ?_⟩
  · have hraises : ∀ handle ∈ s.handles, (release s.balancer handle).isNone = true := by
      decide +kernel
    exact Option.isNone_iff_eq_none.mp (hraises handle hmem)
  · exact Option.isNone_iff_eq_none.mp (by decide +kernel)

end KongGateway.Kong.Balancers

import KongGateway.Kong.Balancers.Rebuild
import KongGateway.Lib.Rotation
import KongGateway.Lib.Wheel
import Mathlib.Data.Nat.ModEq

/-!
# RoundRobin — a turn of the wheel hands out the weights

A build puts every listed address on the wheel as often as its weight
says, in lowest terms; the shuffle only moves them. A call moves the
pointer on to the next address that can be selected, so that a turn of
the wheel, from wherever the pointer stands, comes to every place. The
pointer outlives the builds: it may stand beyond a wheel that got
smaller, and the loop, which ends where it started, ends then because a
healthy balancer has an address to select.
-/

namespace KongGateway.Kong.Balancers

/-! ## The build -/

/-- The greatest common divisor of the listed weights. -/
def divisorOf (b : Balancer) : Nat :=
  (b.allAddresses.map fun a => (b.address a).weight).foldl Nat.gcd 0

def weightTotal (b : Balancer) : Nat := (b.allAddresses.map fun a => (b.address a).weight).sum

/-- The listed addresses, as often as their weights say, before the
shuffle. -/
def wheelOf (b : Balancer) : List AddressId :=
  Wheel.wheel (fun a => (b.address a).weight / divisorOf b) b.allAddresses

section Build

variable {b b' : Balancer} {self : RoundRobin} {a : AddressId}

theorem foldl_gcd_dvd (weights : List Nat) (divisor : Nat) :
    weights.foldl Nat.gcd divisor ∣ divisor
      ∧ ∀ weight ∈ weights, weights.foldl Nat.gcd divisor ∣ weight := by
  induction weights generalizing divisor with
  | nil => exact ⟨Nat.dvd_refl _, fun weight hweight => absurd hweight List.not_mem_nil⟩
  | cons first rest ih =>
    obtain ⟨hdivisor, hrest⟩ := ih (Nat.gcd divisor first)
    refine ⟨hdivisor.trans (Nat.gcd_dvd_left _ _), fun weight hweight => ?_⟩
    rcases List.mem_cons.mp hweight with rfl | hmem
    · exact hdivisor.trans (Nat.gcd_dvd_right _ _)
    · exact hrest weight hmem

theorem divisorOf_dvd (ha : a ∈ b.allAddresses) : divisorOf b ∣ (b.address a).weight :=
  (foldl_gcd_dvd _ 0).2 _ (List.mem_map_of_mem ha)

theorem weight_le_weightTotal (ha : a ∈ b.allAddresses) : (b.address a).weight ≤ weightTotal b :=
  List.single_le_sum (fun _ _ => Nat.zero_le _) _ (List.mem_map_of_mem ha)

theorem divisorOf_pos (h : 0 < weightTotal b) : 0 < divisorOf b := by
  refine Nat.pos_of_ne_zero fun hzero => ?_
  have hnone : weightTotal b = 0 := by
    refine List.sum_eq_zero fun weight hweight => ?_
    obtain ⟨a, ha, rfl⟩ := List.mem_map.mp hweight
    have hdvd := divisorOf_dvd ha
    rw [hzero] at hdvd
    exact Nat.eq_zero_of_zero_dvd hdvd
  omega

theorem length_wheelOf (h : 0 < weightTotal b) :
    (wheelOf b).length = weightTotal b / divisorOf b := by
  have hpos := divisorOf_pos h
  have hdvd : ∀ a ∈ b.allAddresses, divisorOf b ∣ (b.address a).weight := fun a => divisorOf_dvd
  rw [wheelOf, Wheel.length_wheel, weightTotal]
  revert hdvd
  generalize b.allAddresses = addresses
  intro hdvd
  induction addresses with
  | nil => simp
  | cons a rest ih =>
    rw [List.map_cons, List.map_cons, List.sum_cons, List.sum_cons,
      ih fun a' ha' => hdvd a' (List.mem_cons_of_mem a ha'),
      Nat.add_div_of_dvd_right (hdvd a List.mem_cons_self)]

/-- The wheel holds what the listed weights say, if they say anything. -/
structure WheelFits (b : Balancer) (built : RoundRobin) : Prop where
  wheel : 0 < weightTotal b → built.wheel.Perm (wheelOf b)
  size : built.wheelSize = built.wheel.length

theorem wheelOf_count (hnodup : b.allAddresses.Nodup) (ha : a ∈ b.allAddresses) :
    (wheelOf b).count a = (b.address a).weight / divisorOf b := by
  rw [wheelOf, Wheel.count_wheel, List.count_eq_one_of_mem hnodup ha, Nat.one_mul]

theorem WheelFits.mem (h : WheelFits b self) (ha : a ∈ b.allAddresses)
    (hweight : 0 < (b.address a).weight) : a ∈ self.wheel := by
  have hpos : 0 < weightTotal b := Nat.lt_of_lt_of_le hweight (weight_le_weightTotal ha)
  refine (h.wheel hpos).mem_iff.mpr (Wheel.mem_wheel.mpr ⟨ha, ?_⟩)
  exact Nat.div_pos (Nat.le_of_dvd hweight (divisorOf_dvd ha)) (divisorOf_pos hpos)

theorem WheelFits.mem_listed (h : WheelFits b self) (hpos : 0 < weightTotal b)
    (ha : a ∈ self.wheel) : a ∈ b.allAddresses :=
  (Wheel.mem_wheel.mp ((h.wheel hpos).mem_iff.mp ha)).1

theorem WheelFits.of_same (h : WheelFits b self) (hsame : SameInputs b b') : WheelFits b' self := by
  have hlisted : b'.allAddresses.Perm b.allAddresses :=
    hsame.targets.flatMap fun t _ => hsame.addresses t
  have hweights : (b'.allAddresses.map fun a => (b'.address a).weight).Perm
      (b.allAddresses.map fun a => (b.address a).weight) := by
    simp only [hsame.weight]
    exact hlisted.map _
  have htotal : weightTotal b' = weightTotal b := hweights.sum_eq
  have hdivisor : divisorOf b' = divisorOf b := hweights.foldl_eq 0
  refine ⟨fun hpos => (h.wheel (htotal ▸ hpos)).trans ?_, h.size⟩
  rw [wheelOf, wheelOf, hdivisor, Wheel.wheel, Wheel.wheel]
  simp only [hsame.weight]
  exact (hlisted.flatMap fun a _ => .refl _).symm

/-- The pointer stays, and the wheel is the one of the weights, if they
say anything. -/
theorem roundRobinAfterHostUpdate_algorithm (lib : Lib) (self : RoundRobin) (b : Balancer) :
    ∃ built : RoundRobin,
      (roundRobinAfterHostUpdate lib self b).algorithm = some (.roundRobin built)
        ∧ built.pointer = self.pointer
        ∧ (weightTotal b = 0 → built = self)
        ∧ (0 < weightTotal b → built.wheel.Perm (wheelOf b)
          ∧ built.wheelSize = built.wheel.length) := by
  have htotal : (b.allAddresses.map fun a => (b.address a).weight).sum = weightTotal b := rfl
  have hdivisor : (b.allAddresses.map fun a => (b.address a).weight).foldl Nat.gcd 0
      = divisorOf b := rfl
  have hwheel : (b.allAddresses.flatMap fun a =>
      List.replicate ((b.address a).weight / divisorOf b) a) = wheelOf b := rfl
  simp only [roundRobinAfterHostUpdate, htotal, hdivisor, hwheel]
  split
  · rename_i hzero
    exact ⟨self, rfl, rfl, fun _ => rfl, fun hpos => absurd hzero (Nat.ne_of_gt hpos)⟩
  · rename_i hne
    have hpos := Nat.pos_of_ne_zero hne
    have hperm := wheelShuffleFrom_perm lib (wheelOf b).length b.draws (wheelOf b)
    refine ⟨_, rfl, rfl, fun hzero => absurd hzero hne, fun _ => ⟨hperm, ?_⟩⟩
    dsimp only
    rw [if_pos (divisorOf_pos hpos), ← length_wheelOf hpos]
    exact hperm.length_eq.symm

theorem roundRobinAfterHostUpdate_fits (lib : Lib) (hsize : self.wheelSize = self.wheel.length) :
    ∃ built : RoundRobin,
      (roundRobinAfterHostUpdate lib self b).algorithm = some (.roundRobin built)
        ∧ built.pointer = self.pointer
        ∧ WheelFits (roundRobinAfterHostUpdate lib self b) built := by
  obtain ⟨built, hbuilt, hpointer, hkept, hnew⟩ := roundRobinAfterHostUpdate_algorithm lib self b
  have hrearranged := roundRobinAfterHostUpdate_rearranged lib self b
  have hsame : WheelFits b built := by
    refine ⟨fun hpos => (hnew hpos).1, ?_⟩
    rcases Nat.eq_zero_or_pos (weightTotal b) with hzero | hpos
    · rw [hkept hzero]
      exact hsize
    · exact (hnew hpos).2
  refine ⟨built, hbuilt, hpointer, ?_⟩
  rw [roundRobinAfterHostUpdate]
  split
  · exact ⟨hsame.wheel, hsame.size⟩
  · exact ⟨hsame.wheel, hsame.size⟩

end Build

/-! ## What keeps the wheel -/

/-- The algorithm is round robin with its pointer there, and its wheel
fits. -/
def Rotates (pointer : Nat) (b : Balancer) : Prop :=
  ∃ self, b.algorithm = some (.roundRobin self) ∧ self.pointer = pointer ∧ WheelFits b self

/-- The balancer with the pointer of its wheel moved. -/
def pointAt (b : Balancer) (self : RoundRobin) (pointer : Nat) : Balancer :=
  { b with algorithm := some (.roundRobin { self with pointer := pointer }) }

section Steps

variable (lib : Lib) {b b' : Balancer} {t : TargetId} {pointer : Nat}

theorem Rotates.of_same (h : Rotates pointer b) (hsame : SameInputs b b')
    (halgorithm : b'.algorithm = b.algorithm) : Rotates pointer b' := by
  obtain ⟨self, hself, hpointer, hfits⟩ := h
  exact ⟨self, halgorithm.trans hself, hpointer, hfits.of_same hsame⟩

theorem Rotates.afterHostUpdate (h : Rotates pointer b) (halgorithm : b'.algorithm = b.algorithm) :
    Rotates pointer (afterHostUpdate lib b') := by
  obtain ⟨self, hself, hpointer, hfits⟩ := h
  obtain ⟨built, hbuilt, hkept, hfits'⟩ := @roundRobinAfterHostUpdate_fits b' self lib hfits.size
  rw [Balancers.afterHostUpdate, halgorithm, hself]
  exact ⟨built, hbuilt, hkept.trans hpointer, hfits'⟩

theorem DnsStep.rotates (h : DnsStep lib t b b') (hb : Rotates pointer b) : Rotates pointer b' := by
  cases h with
  | add entry ht => exact hb.afterHostUpdate lib rfl
  | reweigh weight ha henabled => exact hb.afterHostUpdate lib rfl
  | @disable a ha =>
    have hbuilt : Rotates pointer
        (Balancers.afterHostUpdate lib (updateStatus (reprice b a 0 (b.address a).available))) :=
      hb.afterHostUpdate lib rfl
    exact hbuilt.of_same (.markDisabled _ a) rfl
  | remember query sorted => exact hb.of_same (.of_target ⟨rfl, rfl⟩ (.refl _)) rfl
  | finish =>
    have hbuilt : Rotates pointer (Balancers.afterHostUpdate lib b) := hb.afterHostUpdate lib rfl
    rw [deleteDisabledAddresses_eq]
    split
    · exact hbuilt.afterHostUpdate lib rfl
    · rename_i hnone
      exact hbuilt.of_same (.dropDisabled hnone) rfl
  | prolong lastQuery => exact hb.of_same (.of_target ⟨rfl, rfl⟩ (.refl _)) rfl

/-- What holds of a round-robin balancer between the calls. -/
structure Rotating (pointer : Nat) (b : Balancer) : Prop where
  quiet : Quiet b
  rotates : Rotates pointer b
  consistent : Consistent b
  healthThreshold : 0 ≤ b.healthThreshold

theorem Rotating.steady (h : Rotating pointer b) : Steady b :=
  ⟨h.quiet, h.consistent, h.healthThreshold⟩

theorem Rotating.of_steady (h : Steady b) (hrotates : Rotates pointer b) : Rotating pointer b :=
  ⟨h.quiet, hrotates, h.consistent, h.healthThreshold⟩

theorem Rotating.queryDns (h : Rotating pointer b) (dns : Dns) (t : TargetId) :
    Rotating pointer (queryDns lib dns b t) :=
  .of_steady (h.steady.queryDns lib dns t)
    (queryDns_induction lib (P := Rotates pointer) (fun _ hstep hP => hstep.rotates lib hP) dns
      h.quiet h.rotates)

theorem Rotating.setAddressStatus (h : Rotating pointer b) (a : AddressId) (available : Bool) :
    Rotating pointer (setAddressStatus lib b a available).2 :=
  .of_steady (h.steady.setAddressStatus lib a available)
    (setAddressStatus_induction lib (P := Rotates pointer) h.rotates fun _ _ =>
      h.rotates.afterHostUpdate lib rfl)

theorem Rotating.pointAt (h : Rotating pointer b) {self : RoundRobin}
    (hself : b.algorithm = some (.roundRobin self)) (moved : Nat) :
    Rotating moved (pointAt b self moved) := by
  obtain ⟨self', hself', -, hfits⟩ := h.rotates
  rw [hself] at hself'
  obtain rfl := Algorithm.roundRobin.inj (Option.some.inj hself')
  have hknows := h.quiet.knows
  rw [Knows, hself] at hknows
  exact ⟨h.quiet.with_wheel hknows, ⟨_, rfl, rfl, hfits.wheel, hfits.size⟩,
    h.consistent.with_algorithm _, h.healthThreshold⟩

theorem Rotating.refreshed (h : Rotating pointer b) (dns : Dns) (cacheOnly : Bool) (a : AddressId) :
    Rotating pointer (refreshed lib dns cacheOnly b a) := by
  rw [Balancers.refreshed]
  split
  · exact h.queryDns lib dns _
  · exact h

end Steps

/-! ## The loop -/

/-- The address at a place of the wheel, if it can be selected. -/
def selectableAt (b : Balancer) (self : RoundRobin) (place : Nat) : Option AddressId :=
  (self.wheel[place - 1]?).filter (selectable b)

section Loop

variable (lib : Lib) (dns : Dns) (cacheOnly : Bool) {b : Balancer} {self : RoundRobin}
  {handle : Handle} {pointer : Nat}

theorem Rotating.pointer_eq (h : Rotating pointer b)
    (hself : b.algorithm = some (.roundRobin self)) : self.pointer = pointer := by
  obtain ⟨self', hself', hpointer, -⟩ := h.rotates
  rw [hself] at hself'
  obtain rfl := Algorithm.roundRobin.inj (Option.some.inj hself')
  exact hpointer

theorem Rotating.fits (h : Rotating pointer b)
    (hself : b.algorithm = some (.roundRobin self)) : WheelFits b self := by
  obtain ⟨self', hself', -, hfits⟩ := h.rotates
  rw [hself] at hself'
  obtain rfl := Algorithm.roundRobin.inj (Option.some.inj hself')
  exact hfits

theorem Rotating.made (h : Rotating pointer b) (hself : b.algorithm = some (.roundRobin self))
    {a : AddressId} (ha : a ∈ self.wheel) : a < b.made := by
  have hknows := h.quiet.knows
  rw [Knows, hself] at hknows
  exact hknows a ha

theorem roundRobinTurn_skip (hnone : selectableAt b self self.pointer = none)
    (next : RoundRobin → Balancer → Option Outcome) :
    roundRobinTurn lib dns cacheOnly handle self b next = next self b := by
  rw [selectableAt] at hnone
  rw [roundRobinTurn]
  cases hat : self.wheel[self.pointer - 1]? with
  | none => rfl
  | some a =>
    rw [hat] at hnone
    have hselect := Option.filter_eq_none_iff.mp hnone a rfl
    rw [selectable] at hselect
    dsimp only
    rw [if_neg hselect]

/-- A turn at an address that can be selected ends the loop, with the
peer of the address or with the error of its name. -/
theorem roundRobinTurn_selects (h : Rotating pointer b)
    (hself : b.algorithm = some (.roundRobin self)) {a : AddressId}
    (ha : selectableAt b self self.pointer = some a)
    (next : RoundRobin → Balancer → Option Outcome) :
    roundRobinTurn lib dns cacheOnly handle self b next
      = some ((addressPeer dns (b.address a)).map fun peer =>
          (peer, { handle with address := some a }), refreshed lib dns cacheOnly b a) := by
  obtain ⟨hat, hselect⟩ := Option.filter_eq_some_iff.mp ha
  have hmade := h.made hself (List.mem_of_getElem? hat)
  rw [selectable] at hselect
  have havailable := (Bool.and_eq_true_iff.mp hselect).1
  have hpeer := getAddressPeer_fst lib dns h.quiet hmade havailable cacheOnly
  rw [getAddressPeer_eq lib dns cacheOnly h.quiet hmade, if_pos havailable] at hpeer
  dsimp only at hpeer
  rw [roundRobinTurn, hat]
  dsimp only
  rw [if_pos hselect, getAddressPeer_eq lib dns cacheOnly h.quiet hmade, if_pos havailable, hpeer]
  cases hresolved : addressPeer dns (b.address a) with
  | ok peer => rfl
  | error err =>
    obtain ⟨hupdated, hunavailable⟩ := addressPeer_error dns hresolved
    obtain ⟨self', hself', -, -⟩ := (h.refreshed lib dns cacheOnly a).rotates
    dsimp only
    rw [hself']
    dsimp only
    rw [if_neg hupdated, if_neg hunavailable]
    rfl

/-- The loop ends at the first place with an address that can be
selected, if it does not come to its start before. -/
theorem roundRobinLoop_selects (h : Rotating pointer b)
    (hself : b.algorithm = some (.roundRobin self)) {startingPointer fuel place : Nat}
    {before after : List Nat}
    (hvisits : Rotation.visits self.wheelSize self.pointer fuel = before ++ place :: after)
    (hskipped : ∀ p ∈ before, selectableAt b self p = none) (hstart : startingPointer ∉ before)
    {a : AddressId} (ha : selectableAt b self place = some a) :
    roundRobinLoop lib dns cacheOnly handle startingPointer fuel self b
      = some ((addressPeer dns (b.address a)).map fun peer =>
          (peer, { handle with address := some a }),
        refreshed lib dns cacheOnly (pointAt b self place) a) := by
  induction before generalizing fuel self b pointer with
  | nil =>
    cases fuel with
    | zero => cases hvisits
    | succ fuel =>
      obtain ⟨rfl, -⟩ := List.cons.inj hvisits
      have hpoint := h.pointAt hself (Rotation.next self.wheelSize self.pointer)
      rw [roundRobinLoop]
      exact roundRobinTurn_selects lib dns cacheOnly hpoint rfl ha _
  | cons p rest ih =>
    cases fuel with
    | zero => cases hvisits
    | succ fuel =>
      obtain ⟨rfl, hrest⟩ := List.cons.inj hvisits
      have hpoint := h.pointAt hself (Rotation.next self.wheelSize self.pointer)
      have hnone : selectableAt (pointAt b self (Rotation.next self.wheelSize self.pointer))
          self.advance self.advance.pointer = none := hskipped _ List.mem_cons_self
      have hmore : self.advance.pointer ≠ startingPointer := by
        rintro rfl
        exact hstart List.mem_cons_self
      rw [roundRobinLoop]
      refine (roundRobinTurn_skip lib dns cacheOnly hnone _).trans ?_
      rw [if_neg hmore]
      exact ih hpoint rfl hrest (fun p hp => hskipped p (List.mem_cons_of_mem _ hp))
        (fun hmem => hstart (List.mem_cons_of_mem _ hmem)) ha

theorem roundRobinLoop_keeps (h : Rotating pointer b)
    (hself : b.algorithm = some (.roundRobin self)) {startingPointer fuel : Nat} {outcome : Outcome}
    (hloop : roundRobinLoop lib dns cacheOnly handle startingPointer fuel self b = some outcome) :
    ∃ moved, Rotating moved outcome.2 := by
  induction fuel generalizing self b pointer with
  | zero => cases hloop
  | succ fuel ih =>
    have hpoint := h.pointAt hself (Rotation.next self.wheelSize self.pointer)
    rw [roundRobinLoop] at hloop
    cases hselect : selectableAt (pointAt b self (Rotation.next self.wheelSize self.pointer))
        self.advance self.advance.pointer with
    | none =>
      have hnext := (roundRobinTurn_skip lib dns cacheOnly hselect _).symm.trans hloop
      split at hnext
      · cases hnext
        exact ⟨_, hpoint⟩
      · exact ih hpoint rfl hnext
    | some a =>
      have hend := (roundRobinTurn_selects lib dns cacheOnly hpoint rfl hselect _).symm.trans hloop
      cases hend
      exact ⟨_, hpoint.refreshed lib dns cacheOnly a⟩

end Loop

/-! ## A call -/

/-- The handle of a call, before it has an address. -/
def roundRobinHandle : Option Handle → Handle
  | none => Handle.new
  | some handle => { handle with retryCount := handle.retryCount + 1 }

section Call

variable (lib : Lib) {b : Balancer} {self : RoundRobin} {pointer : Nat} {call : GetPeer}

theorem getPeer_roundRobin (hself : b.algorithm = some (.roundRobin self)) (call : GetPeer) :
    getPeer lib b call
      = roundRobinLoop lib call.dns call.cacheOnly (roundRobinHandle call.handle) self.pointer
          call.fuel self b := by
  rw [getPeer, hself]
  cases hhandle : call.handle with
  | none => rfl
  | some handle => rfl

theorem getPeer_selects (h : Rotating pointer b) (hself : b.algorithm = some (.roundRobin self))
    {place : Nat} {before after : List Nat}
    (hvisits : Rotation.visits self.wheelSize self.pointer call.fuel = before ++ place :: after)
    (hskipped : ∀ p ∈ before, selectableAt b self p = none) (hstart : self.pointer ∉ before)
    {a : AddressId} (ha : selectableAt b self place = some a) :
    getPeer lib b call
      = some ((addressPeer call.dns (b.address a)).map fun peer =>
          (peer, { roundRobinHandle call.handle with address := some a }),
        refreshed lib call.dns call.cacheOnly (pointAt b self place) a) := by
  rw [getPeer_roundRobin lib hself]
  exact roundRobinLoop_selects lib call.dns call.cacheOnly h hself hvisits hskipped hstart ha

theorem Rotating.getPeer (h : Rotating pointer b) {outcome : Outcome}
    (hcall : getPeer lib b call = some outcome) : ∃ moved, Rotating moved outcome.2 := by
  obtain ⟨self, hself, -, -⟩ := h.rotates
  rw [getPeer_roundRobin lib hself] at hcall
  exact roundRobinLoop_keeps lib call.dns call.cacheOnly h hself hcall

theorem mem_of_selectableAt {place : Nat} {a : AddressId} (h : selectableAt b self place = some a) :
    a ∈ self.wheel ∧ selectable b a = true := by
  obtain ⟨hat, hselect⟩ := Option.filter_eq_some_iff.mp h
  exact ⟨List.mem_of_getElem? hat, hselect⟩

/-- A healthy balancer has an address to select, and a turn of the wheel
comes to it. -/
theorem exists_selectableAt (h : Rotating pointer b) (hself : b.algorithm = some (.roundRobin self))
    (hhealthy : b.healthy = true) :
    ∃ place ∈ Rotation.visits self.wheelSize self.pointer self.wheelSize,
      (selectableAt b self place).isSome = true := by
  obtain ⟨t, ht, a, ha, havailable, hdisabled, hweight⟩ :=
    h.consistent.exists_available h.healthThreshold hhealthy
  have hlisted : a ∈ b.allAddresses := List.mem_flatMap.mpr ⟨t, ht, ha⟩
  have hfits := h.fits hself
  obtain ⟨i, hi, hat⟩ := List.getElem_of_mem (hfits.mem hlisted hweight)
  refine ⟨i + 1, ?_, ?_⟩
  · rw [(Rotation.visits_round_perm _ _).mem_iff, List.mem_range'_1, hfits.size]
    omega
  · rw [selectableAt, Nat.add_sub_cancel, List.getElem?_eq_getElem hi, hat, Option.filter_some,
      selectable, havailable, hdisabled]
    rfl

/-- **A healthy balancer.** Within one turn of the wheel a call comes to
an address that is available, also at the end of the call, and resolves
its name. -/
theorem getPeer_healthy (h : Rotating pointer b) (hself : b.algorithm = some (.roundRobin self))
    (hhealthy : b.healthy = true) (hfuel : self.wheelSize ≤ call.fuel) :
    ∃ a ∈ b.allAddresses, ∃ handle b', handle.address = some a
      ∧ getPeer lib b call
        = some ((addressPeer call.dns (b.address a)).map fun peer => (peer, handle), b')
      ∧ (b.address a).available = true ∧ (b'.address a).available = true := by
  obtain ⟨place, hplace⟩ := Option.isSome_iff_exists.mp
    (List.find?_isSome.mpr (exists_selectableAt h hself hhealthy))
  obtain ⟨hsome, before, after, hvisits, hskipped⟩ := List.find?_eq_some_iff_append.mp hplace
  obtain ⟨a, ha⟩ := Option.isSome_iff_exists.mp hsome
  obtain ⟨hwheel, hselect⟩ := mem_of_selectableAt ha
  -- the whole loop starts with one turn of the wheel
  obtain ⟨later, hlater⟩ := Rotation.visits_more self.wheelSize self.pointer self.wheelSize
    (call.fuel - self.wheelSize)
  rw [Nat.add_sub_cancel' hfuel, hvisits, List.append_assoc, List.cons_append] at hlater
  have hnone : ∀ p ∈ before, selectableAt b self p = none := fun p hp => by
    simpa using hskipped p hp
  have hcall := getPeer_selects lib h hself hlater hnone (Rotation.not_mem_before hvisits) ha
  have hmade := h.made hself hwheel
  have hpoint := h.pointAt hself place
  have havailable := (Bool.and_eq_true_iff.mp hselect).1
  refine ⟨a, ?_, _, _, rfl, hcall, havailable, ?_⟩
  · obtain ⟨t, ht, x, hx, -, -, hweight⟩ :=
      h.consistent.exists_available h.healthThreshold hhealthy
    have hpos : 0 < weightTotal b :=
      Nat.lt_of_lt_of_le hweight (weight_le_weightTotal (List.mem_flatMap.mpr ⟨t, ht, hx⟩))
    exact (h.fits hself).mem_listed hpos hwheel
  · rw [((Retains.refreshed lib call.dns call.cacheOnly hpoint.quiet).address a hmade).2]
    exact havailable

end Call

/-! ## A turn of calls -/

/-- The address a call hands out. -/
def handedOutBy : Option Outcome → Option AddressId
  | some (.ok (_, handle), _) => handle.address
  | _ => none

/-- The addresses that calls one after another hand out. -/
def handedOut (lib : Lib) : Balancer → List GetPeer → List (Option AddressId) :=
  Run.outputs fun b call => (handedOutBy (getPeer lib b call), react lib b (.getPeer call))

/-- A call that changes nothing of the addresses and of the wheel but
the pointer. -/
def Undisturbing (lib : Lib) (b : Balancer) (call : GetPeer) : Prop :=
  (react lib b (.getPeer call)).address = b.address
    ∧ ∀ self, b.algorithm = some (.roundRobin self) →
      ∃ moved, (react lib b (.getPeer call)).algorithm = some (.roundRobin { self with pointer := moved })

section Turn

variable (lib : Lib) {b : Balancer} {self : RoundRobin} {pointer : Nat}

/-- A call takes the next place of the wheel, when every address of it
can be selected and resolved. -/
theorem getPeer_next (h : Rotating pointer b) (hself : b.algorithm = some (.roundRobin self))
    (hsize : 0 < self.wheelSize) (hselect : ∀ a ∈ self.wheel, selectable b a = true)
    {call : GetPeer} (hfuel : 0 < call.fuel)
    (hnames : ∀ a ∈ self.wheel, ∃ peer, addressPeer call.dns (b.address a) = .ok peer) :
    ∃ a, self.wheel[Rotation.next self.wheelSize self.pointer - 1]? = some a
      ∧ handedOutBy (getPeer lib b call) = some a
      ∧ react lib b (.getPeer call) = refreshed lib call.dns call.cacheOnly
        (pointAt b self (Rotation.next self.wheelSize self.pointer)) a := by
  obtain ⟨hlow, hhigh⟩ := Rotation.next_mem hsize self.pointer
  have hlt : Rotation.next self.wheelSize self.pointer - 1 < self.wheel.length := by
    rw [← (h.fits hself).size]
    omega
  have hat := List.getElem?_eq_getElem hlt
  have hmem := List.getElem_mem hlt
  obtain ⟨peer, hpeer⟩ := hnames _ hmem
  have hplace : selectableAt b self (Rotation.next self.wheelSize self.pointer)
      = some self.wheel[Rotation.next self.wheelSize self.pointer - 1] := by
    rw [selectableAt, hat, Option.filter_some, if_pos (hselect _ hmem)]
  obtain ⟨fuel, hfuel'⟩ : ∃ fuel, call.fuel = fuel + 1 := ⟨call.fuel - 1, by omega⟩
  have hvisits : Rotation.visits self.wheelSize self.pointer call.fuel
      = [] ++ Rotation.next self.wheelSize self.pointer
        :: Rotation.visits self.wheelSize (Rotation.next self.wheelSize self.pointer) fuel := by
    rw [hfuel']
    rfl
  have hcall := getPeer_selects lib h hself hvisits (fun _ hp => absurd hp List.not_mem_nil)
    List.not_mem_nil hplace
  rw [hpeer] at hcall
  refine ⟨_, hat, ?_, ?_⟩
  · rw [hcall]
    rfl
  · rw [react, hcall]
    rfl

theorem handedOut_eq (h : Rotating pointer b) (hself : b.algorithm = some (.roundRobin self))
    (hsize : 0 < self.wheelSize) {calls : List GetPeer}
    (hselect : ∀ a ∈ self.wheel, selectable b a = true)
    (hresolve : ∀ call ∈ calls, 0 < call.fuel ∧ ∀ a ∈ self.wheel,
      ∃ peer, addressPeer call.dns (b.address a) = .ok peer)
    (hcalls : Run.Guarded (fun b call => react lib b (.getPeer call)) (Undisturbing lib) b calls) :
    handedOut lib b calls
      = (Rotation.visits self.wheelSize self.pointer calls.length).map fun place =>
          self.wheel[place - 1]? := by
  induction calls generalizing b self pointer with
  | nil => rfl
  | cons call rest ih =>
    obtain ⟨hfuel, hnames⟩ := hresolve call List.mem_cons_self
    obtain ⟨⟨haddress, hmoved⟩, hrest⟩ := (Run.guarded_cons b call rest).mp hcalls
    obtain ⟨a, hat, hhanded, hreact⟩ := getPeer_next lib h hself hsize hselect hfuel hnames
    have hnext : Rotating (Rotation.next self.wheelSize self.pointer)
        (react lib b (.getPeer call)) := by
      rw [hreact]
      exact (h.pointAt hself _).refreshed lib call.dns call.cacheOnly _
    obtain ⟨moved, hself'⟩ := hmoved self hself
    obtain rfl : moved = Rotation.next self.wheelSize self.pointer := hnext.pointer_eq hself'
    have hlater := ih hnext hself' hsize
      (fun a ha => by
        rw [selectable, haddress]
        exact hselect a ha)
      (fun call' hcall' => by
        rw [haddress]
        exact hresolve call' (List.mem_cons_of_mem _ hcall'))
      hrest
    rw [handedOut] at hlater ⊢
    rw [Run.outputs_cons, hlater, hhanded, List.length_cons, Rotation.visits, List.map_cons, hat]

theorem map_getElem?_range' (wheel : List AddressId) :
    (List.range' 1 wheel.length).map (fun place => wheel[place - 1]?) = wheel.map some := by
  apply List.ext_getElem
  · simp
  · intro i hi _
    rw [List.length_map, List.length_range'] at hi
    simp [hi]

/-- **A turn of calls** hands out every address as often as the wheel
has it. -/
theorem handedOut_perm (h : Rotating pointer b) (hself : b.algorithm = some (.roundRobin self))
    (hsize : 0 < self.wheelSize) {calls : List GetPeer} (hlength : calls.length = self.wheelSize)
    (hselect : ∀ a ∈ self.wheel, selectable b a = true)
    (hresolve : ∀ call ∈ calls, 0 < call.fuel ∧ ∀ a ∈ self.wheel,
      ∃ peer, addressPeer call.dns (b.address a) = .ok peer)
    (hcalls : Run.Guarded (fun b call => react lib b (.getPeer call)) (Undisturbing lib) b calls) :
    (handedOut lib b calls).Perm (self.wheel.map some) := by
  rw [handedOut_eq lib h hself hsize hselect hresolve hcalls, hlength, ← map_getElem?_range',
    ← (h.fits hself).size]
  exact (Rotation.visits_round_perm _ _).map _

end Turn

/-! ## Whole runs -/

/-- What happens to a balancer once its algorithm is round robin. -/
inductive WheelEvent where
  | queryDns (dns : Dns) (t : TargetId)
  | setAddressStatus (a : AddressId) (available : Bool)
  | getPeer (call : GetPeer)

def WheelEvent.event : WheelEvent → Event
  | .queryDns dns t => .queryDns dns t
  | .setAddressStatus a available => .setAddressStatus a available
  | .getPeer call => .getPeer call

/-- A balancer as `create_balancer` makes it: its targets are resolved,
then the algorithm is built. -/
def roundRobinBalancer (lib : Lib) (b : Balancer) (queries : List (Dns × TargetId)) : Balancer :=
  newAlgorithm lib .roundRobin
    (Run.exec (fun b query => queryDns lib query.1 b query.2) b queries)

/-- The balancer after a run. -/
def roundRobinRun (lib : Lib) (b : Balancer) (queries : List (Dns × TargetId))
    (events : List WheelEvent) : Balancer :=
  Run.exec (fun b event => react lib b event.event) (roundRobinBalancer lib b queries) events

section Runs

variable (lib : Lib) {b : Balancer} {pointer : Nat}

theorem Rotating.react (h : Rotating pointer b) (event : WheelEvent) :
    ∃ moved, Rotating moved (react lib b event.event) := by
  cases event with
  | queryDns dns t => exact ⟨pointer, h.queryDns lib dns t⟩
  | setAddressStatus a available => exact ⟨pointer, h.setAddressStatus lib a available⟩
  | getPeer call =>
    show ∃ moved, Rotating moved (((Balancers.getPeer lib b call).map Prod.snd).getD b)
    cases hcall : Balancers.getPeer lib b call with
    | none => exact ⟨pointer, h⟩
    | some outcome => exact h.getPeer lib hcall

theorem roundRobinRun_rotating {b₀ : Balancer} (hfresh : Fresh b₀) (hnew : b₀.algorithm = none)
    (queries : List (Dns × TargetId)) (events : List WheelEvent) :
    ∃ pointer, Rotating pointer (roundRobinRun lib b₀ queries events) := by
  have hcreated : Rotating 1 (roundRobinBalancer lib b₀ queries) :=
    .of_steady (((Steady.of_fresh hfresh hnew).resolved lib queries).newAlgorithm lib .roundRobin)
      (roundRobinAfterHostUpdate_fits lib rfl)
  have hstep : ∀ (b : Balancer) (event : WheelEvent), (∃ pointer, Rotating pointer b) →
      ∃ pointer, Rotating pointer (react lib b event.event) := by
    rintro b event ⟨pointer, h⟩
    exact h.react lib event
  exact Run.exec_invariant hstep ⟨1, hcreated⟩ events

end Runs

/-- A build of listed weights that are all positive counts every address
as often as its weight over the divisor, whatever the shuffle does. A
turn of calls that all find a peer and change nothing hands out every
address as often, when all are available. In every state in which a
round-robin balancer is healthy, a call comes within a turn to a listed
address that is available, also at the end of the call, and returns its
peer, or the error if its name is not resolved. -/
theorem round_robin_exact (lib : Lib) :
    (∀ (b : Balancer) (self : RoundRobin), b.algorithm = some (.roundRobin self) →
      b.allAddresses.Nodup → (∀ a ∈ b.allAddresses, 0 < (b.address a).weight) →
      ∃ built : RoundRobin, (afterHostUpdate lib b).algorithm = some (.roundRobin built)
        ∧ ∀ a ∈ b.allAddresses, built.wheel.count a = (b.address a).weight / divisorOf b)
    ∧ ∀ b₀, Fresh b₀ → b₀.algorithm = none → ∀ queries events self,
      let b := roundRobinRun lib b₀ queries events
      b.algorithm = some (.roundRobin self) →
        (∀ calls : List GetPeer, calls.length = self.wheelSize →
          (∀ a ∈ b.allAddresses, 0 < (b.address a).weight ∧ (b.address a).available = true) →
          (∀ call ∈ calls, 0 < call.fuel ∧ ∀ a ∈ b.allAddresses,
            ∃ peer, addressPeer call.dns (b.address a) = .ok peer) →
          Run.Guarded (fun b call => react lib b (.getPeer call)) (Undisturbing lib) b calls →
          ∀ a ∈ b.allAddresses,
            (handedOut lib b calls).count (some a) = (b.address a).weight / divisorOf b)
        ∧ (b.healthy = true → ∀ call : GetPeer, self.wheelSize ≤ call.fuel →
          ∃ a ∈ b.allAddresses, ∃ handle b', handle.address = some a
            ∧ getPeer lib b call
              = some ((addressPeer call.dns (b.address a)).map fun peer => (peer, handle), b')
            ∧ (b.address a).available = true ∧ (b'.address a).available = true) := by
  refine ⟨fun b self hself hnodup hweights => ?_, fun b₀ hfresh hnew queries events self => ?_⟩
  · obtain ⟨built, hbuilt, -, -, hwheel⟩ := roundRobinAfterHostUpdate_algorithm lib self b
    refine ⟨built, ?_, fun a ha => ?_⟩
    · rw [afterHostUpdate, hself]
      exact hbuilt
    · have hpos := Nat.lt_of_lt_of_le (hweights a ha) (weight_le_weightTotal ha)
      obtain ⟨hperm, -⟩ := hwheel hpos
      rw [hperm.count_eq, wheelOf_count hnodup ha]
  · obtain ⟨pointer, h⟩ := roundRobinRun_rotating lib hfresh hnew queries events
    intro b hself
    refine ⟨fun calls hlength haddresses hresolve hcalls a ha => ?_, fun hhealthy call hfuel =>
      getPeer_healthy lib h hself hhealthy hfuel⟩
    have hpos := Nat.lt_of_lt_of_le (haddresses a ha).1 (weight_le_weightTotal ha)
    have hfits := h.fits hself
    have hlisted : ∀ x ∈ self.wheel, x ∈ b.allAddresses := fun x => hfits.mem_listed hpos
    have hsize : 0 < self.wheelSize := by
      rw [hfits.size]
      exact List.length_pos_of_mem (hfits.mem ha (haddresses a ha).1)
    have hselect : ∀ x ∈ self.wheel, selectable b x = true := by
      intro x hx
      obtain ⟨t, -, hmem⟩ := List.mem_flatMap.mp (hlisted x hx)
      rw [selectable, (haddresses x (hlisted x hx)).2, h.quiet.enabled t x hmem]
      rfl
    have hperm := handedOut_perm lib h hself hsize hlength hselect
      (fun call hcall => ⟨(hresolve call hcall).1, fun x hx => (hresolve call hcall).2 x (hlisted x hx)⟩)
      hcalls
    rw [hperm.count_eq, List.count_map_of_injective _ _ (Option.some_injective _),
      (hfits.wheel hpos).count_eq, wheelOf_count h.quiet.registered.nodup_allAddresses ha]

/-- The DNS client with one answer for all targets. -/
def srvDns (entries : List Entry) (toip : String → Nat → Except (String × String) (String × Nat)) :
    Dns where
  now := 0
  resolve := fun _ => .ok (.answer ⟨entries, 30000, false⟩)
  toip := toip

/-- Two addresses of one service, one of twice the weight. -/
def twoToOne : Dns :=
  srvDns [.srv "10.0.0.1" 80 2 1 30, .srv "10.0.0.2" 80 4 1 30] fun ip port => .ok (ip, port)

theorem roundRobinRun_healthy (lib : Lib) {b₀ : Balancer} (hfresh : Fresh b₀)
    (hnew : b₀.algorithm = none) {queries : List (Dns × TargetId)} {events : List WheelEvent}
    (hthreshold : (roundRobinRun lib b₀ queries events).healthThreshold < 100)
    (htotal : 0 < (roundRobinRun lib b₀ queries events).totalWeight)
    (hnone : (roundRobinRun lib b₀ queries events).unavailableWeight = 0) :
    (roundRobinRun lib b₀ queries events).healthy = true := by
  obtain ⟨pointer, h⟩ := roundRobinRun_rotating lib hfresh hnew queries events
  refine h.consistent.status.mpr ⟨htotal, ?_⟩
  rw [hnone, sub_zero]
  exact mul_lt_mul_of_pos_right hthreshold (Int.cast_pos.mpr htotal)

theorem round_robin_exact_two_to_one :
    let b := roundRobinRun Lib.plain (emptyBalancer none) [(twoToOne, 0)] []
    (∃ built : RoundRobin, (afterHostUpdate Lib.plain b).algorithm = some (.roundRobin built)
        ∧ built.wheel.count 1 = 2)
      ∧ (handedOut Lib.plain b (List.replicate 3 (firstCall twoToOne))).count (some 1) = 2
      ∧ ∃ a ∈ b.allAddresses, ∃ peer handle b', handle.address = some a
        ∧ getPeer Lib.plain b (firstCall twoToOne) = some (.ok (peer, handle), b') := by
  intro b
  have hfresh := emptyBalancer_fresh none
  have hself : b.algorithm = some (.roundRobin ⟨[1, 1, 0], 3, 1⟩) := rfl
  have hhealthy : b.healthy = true := by
    refine roundRobinRun_healthy Lib.plain hfresh rfl ?_ (by decide) (by decide)
    show (0 : ℚ) < 100
    norm_num
  have hweight : (b.address 1).weight / divisorOf b = 2 := by decide
  have hpeers : ∀ a ∈ b.allAddresses, ∃ peer, addressPeer twoToOne (b.address a) = .ok peer := by
    intro a ha
    have hlisted : a ∈ [0, 1] := ha
    rcases List.mem_pair.mp hlisted with rfl | rfl
    · exact ⟨_, rfl⟩
    · exact ⟨_, rfl⟩
  have hsame : Run.Guarded (fun b call => react Lib.plain b (.getPeer call)) (Undisturbing Lib.plain)
      b (List.replicate 3 (firstCall twoToOne)) := by
    refine ⟨⟨rfl, ?_⟩, ⟨rfl, ?_⟩, ⟨rfl, ?_⟩, trivial⟩
    · intro self h
      cases h
      exact ⟨2, rfl⟩
    · intro self h
      cases h
      exact ⟨3, rfl⟩
    · intro self h
      cases h
      exact ⟨1, rfl⟩
  obtain ⟨hbuild, hruns⟩ := round_robin_exact Lib.plain
  obtain ⟨hturn, hcalls⟩ := hruns _ hfresh rfl [(twoToOne, 0)] [] _ hself
  obtain ⟨built, hbuilt, hcount⟩ := hbuild b _ hself (by decide) (by decide)
  obtain ⟨a, ha, handle, b', haddress, hcall, -⟩ := hcalls hhealthy (firstCall twoToOne) (by decide)
  obtain ⟨peer, hpeer⟩ := hpeers a ha
  refine ⟨⟨built, hbuilt, (hcount 1 (by decide)).trans hweight⟩, ?_, a, ha, peer, handle, b',
    haddress, hcall.trans ?_⟩
  · refine (hturn (List.replicate 3 (firstCall twoToOne)) rfl (by decide) ?_ hsame 1
      (by decide)).trans hweight
    intro call hcall
    rw [List.eq_of_mem_replicate hcall]
    exact ⟨by decide, hpeers⟩
  · have hdns : addressPeer (firstCall twoToOne).dns (b.address a) = .ok peer := hpeer
    rw [hdns]
    rfl

/-- A service at a name that is not resolved. -/
def unresolved : Dns :=
  srvDns [.srv "backend.internal" 80 5 1 30] fun _ _ => .error ("dns server error", "[]")

/-- A healthy balancer, all of whose addresses are available, with no
peer to hand out. -/
theorem healthy_without_peer :
    let b := roundRobinRun Lib.plain (emptyBalancer none) [(unresolved, 0)] []
    Fresh (emptyBalancer none) ∧ (emptyBalancer none).algorithm.isNone
      ∧ b.healthy = true ∧ (∀ a ∈ b.allAddresses, (b.address a).available = true)
      ∧ ∀ fuel peer handle b',
        getPeer Lib.plain b { firstCall unresolved with fuel := fuel }
          ≠ some (.ok (peer, handle), b') := by
  have hfresh := emptyBalancer_fresh none
  refine ⟨hfresh, rfl, roundRobinRun_healthy Lib.plain hfresh rfl ?_ (by decide) (by decide),
    by decide, fun fuel peer handle b' hcall => ?_⟩
  · show (0 : ℚ) < 100
    norm_num
  · cases fuel with
    | zero => cases hcall
    | succ fuel => cases hcall

end KongGateway.Kong.Balancers

import KongGateway.Kong.Balancers.Operations
import KongGateway.Lib.Run
import Mathlib.Algebra.BigOperators.Ring.Finset
import Mathlib.Algebra.Order.BigOperators.Group.List
import Mathlib.Algebra.Order.Field.Basic
import Mathlib.Tactic.Linarith

/-!
# Weights — the counters of a balancer agree with its addresses

A target counts the weights of its addresses and of the unavailable
ones, the balancer counts those of its targets. Every operation moves
the four counters by the same differences. `Accounted` is the invariant;
an address that has left its target's list is disabled and weighs
nothing, so that it can still change its status.
-/

namespace KongGateway.Kong.Balancers

/-! ## Sums over lists -/

section Sums

variable {α : Type} {f g : α → Int}

theorem sum_map_change {l : List α} (hnodup : l.Nodup) {a : α} (ha : a ∈ l)
    (hother : ∀ x, x ≠ a → g x = f x) : (l.map g).sum = (l.map f).sum + (g a - f a) := by
  induction l with
  | nil => exact absurd ha List.not_mem_nil
  | cons x rest ih =>
    rw [List.nodup_cons] at hnodup
    rw [List.map_cons, List.map_cons, List.sum_cons, List.sum_cons]
    rcases List.mem_cons.mp ha with rfl | hrest
    · have hsame : rest.map g = rest.map f := by
        refine List.map_congr_left fun y hy => hother y ?_
        rintro rfl
        exact hnodup.1 hy
      rw [hsame]
      omega
    · have hx : g x = f x := by
        refine hother x ?_
        rintro rfl
        exact hnodup.1 hrest
      rw [hx, ih hnodup.2 hrest]
      omega

theorem sum_map_move {l : List α} (hnodup : l.Nodup) {a : α} {d : Int}
    (hother : ∀ x, x ≠ a → g x = f x) (hmove : a ∈ l → g a - f a = d) (hstay : a ∉ l → d = 0) :
    (l.map g).sum = (l.map f).sum + d := by
  by_cases ha : a ∈ l
  · rw [sum_map_change hnodup ha hother, hmove ha]
  · have hsame : l.map g = l.map f := by
      refine List.map_congr_left fun x hx => hother x ?_
      rintro rfl
      exact ha hx
    rw [hsame, hstay ha]
    omega

theorem sum_map_nonneg {l : List α} (h : ∀ a ∈ l, 0 ≤ f a) : 0 ≤ (l.map f).sum := by
  refine List.sum_nonneg fun x hx => ?_
  obtain ⟨a, ha, rfl⟩ := List.mem_map.mp hx
  exact h a ha

theorem sum_map_filter {l : List α} {p : α → Bool} (h : ∀ a ∈ l, p a = false → f a = 0) :
    ((l.filter p).map f).sum = (l.map f).sum := by
  induction l with
  | nil => rfl
  | cons x rest ih =>
    have hrest := ih fun a ha => h a (List.mem_cons_of_mem x ha)
    rw [List.map_cons, List.sum_cons]
    cases hx : p x with
    | true => rw [List.filter_cons_of_pos hx, List.map_cons, List.sum_cons, hrest]
    | false =>
      rw [List.filter_cons_of_neg (by simp [hx]), hrest, h x List.mem_cons_self hx]
      omega

end Sums

/-! ## The invariant -/

def weightSum (b : Balancer) (as : List AddressId) : Int :=
  (as.map fun a => ((b.address a).weight : Int)).sum

def unavailableSum (b : Balancer) (as : List AddressId) : Int :=
  (as.map fun a => (b.address a).unavailable).sum

/-- The lists are in order, and the counters are the sums. -/
structure Accounted (b : Balancer) : Prop where
  registered : Registered b
  disabled : ∀ a < b.made, (b.address a).disabled = true → (b.address a).weight = 0
  total : ∀ t, (b.target t).totalWeight = weightSum b (b.target t).addresses
  unavailable : ∀ t, (b.target t).unavailableWeight = unavailableSum b (b.target t).addresses
  totals : b.totalWeight = (b.targets.map fun t => (b.target t).totalWeight).sum
  unavailables : b.unavailableWeight = (b.targets.map fun t => (b.target t).unavailableWeight).sum

/-- The status is the one of the counters, in exact arithmetic. -/
def StatusHolds (b : Balancer) : Prop :=
  b.healthy = true ↔ 0 < b.totalWeight
    ∧ b.healthThreshold * b.totalWeight < 100 * (b.totalWeight - b.unavailableWeight : Int)

theorem Address.unavailable_nonneg (address : Address) : 0 ≤ address.unavailable := by
  rw [Address.unavailable]
  split <;> omega

section

variable {b b' : Balancer}

theorem Accounted.totalWeight_nonneg (h : Accounted b) : 0 ≤ b.totalWeight := by
  rw [h.totals]
  refine sum_map_nonneg fun t _ => ?_
  rw [h.total t]
  exact sum_map_nonneg fun a _ => Int.natCast_nonneg _

theorem Accounted.totalWeight_eq (h : Accounted b) :
    ((b.allAddresses.map fun a => (b.address a).weight).sum : Nat) = b.totalWeight := by
  have hsum : ∀ targets : List TargetId,
      ((((targets.flatMap fun t => (b.target t).addresses).map fun a => (b.address a).weight).sum
        : Nat) : Int) = (targets.map fun t => (b.target t).totalWeight).sum := by
    intro targets
    induction targets with
    | nil => rfl
    | cons t rest ih =>
      rw [List.flatMap_cons, List.map_append, List.sum_append, Nat.cast_add, ih, List.map_cons,
        List.sum_cons, h.total t, weightSum, Nat.cast_list_sum, List.map_map]
      rfl
  rw [h.totals]
  exact hsum b.targets

theorem sum_map_perm {α : Type} {l l' : List α} (h : l.Perm l') {f g : α → Int}
    (hf : ∀ a, f a = g a) : (l.map f).sum = (l'.map g).sum := by
  rw [funext hf]
  exact (h.map g).sum_eq

/-- `afterHostUpdate` keeps the accounts and the status. -/
theorem Rearranged.totals (h : Rearranged b b') (hb : Accounted b) :
    b'.totalWeight = b.totalWeight := by
  rcases h.totalWeight with heq | heq
  · exact heq
  · rw [heq, hb.totalWeight_eq]

theorem Rearranged.unavailable (h : Rearranged b b') (a : AddressId) :
    (b'.address a).unavailable = (b.address a).unavailable := by
  rw [Address.unavailable, Address.unavailable, h.available, h.weight]

theorem Rearranged.accounted (h : Rearranged b b') (hb : Accounted b) : Accounted b' where
  registered := h.registered hb.registered
  disabled := by
    intro a ha hdisabled
    rw [h.made] at ha
    rw [h.disabled] at hdisabled
    rw [h.weight]
    exact hb.disabled a ha hdisabled
  total := by
    intro t
    rw [h.targetTotal, hb.total t]
    refine (sum_map_perm (h.addresses t) fun a => ?_).symm
    rw [h.weight]
  unavailable := by
    intro t
    rw [h.targetUnavailable, hb.unavailable t]
    exact (sum_map_perm (h.addresses t) h.unavailable).symm
  totals := by
    rw [h.totals hb, hb.totals]
    exact (sum_map_perm h.targets h.targetTotal).symm
  unavailables := by
    rw [h.unavailableWeight, hb.unavailables]
    exact (sum_map_perm h.targets h.targetUnavailable).symm

theorem Rearranged.statusHolds (h : Rearranged b b') (hb : Accounted b) (hstatus : StatusHolds b) :
    StatusHolds b' := by
  rw [StatusHolds, h.healthy, h.totals hb, h.unavailableWeight, h.healthThreshold]
  exact hstatus

theorem updateStatus_accounted (hb : Accounted b) : Accounted (updateStatus b) :=
  ⟨hb.registered.updateStatus, hb.disabled, hb.total, hb.unavailable, hb.totals, hb.unavailables⟩

theorem updateStatus_statusHolds (hb : Accounted b) : StatusHolds (updateStatus b) := by
  have hnonneg := hb.totalWeight_nonneg
  rw [StatusHolds, updateStatus]
  dsimp only
  split
  · rename_i hzero
    rw [hzero]
    simp
  · rename_i hne
    have hpos : 0 < b.totalWeight := by omega
    have hposQ : (0 : ℚ) < b.totalWeight := by exact_mod_cast hpos
    rw [decide_eq_true_iff, gt_iff_lt, div_mul_eq_mul_div, lt_div_iff₀ hposQ]
    push_cast
    constructor
    · intro h
      exact ⟨hpos, by linarith⟩
    · intro h
      linarith [h.2]

/-- The accounts and the status hold. -/
structure Consistent (b : Balancer) : Prop where
  accounted : Accounted b
  status : StatusHolds b

theorem Accounted.afterHostUpdate (lib : Lib) (hb : Accounted b) :
    Consistent (afterHostUpdate lib (updateStatus b)) :=
  have hupdated := updateStatus_accounted hb
  have hrearranged := afterHostUpdate_rearranged lib (updateStatus b)
  ⟨hrearranged.accounted hupdated,
    hrearranged.statusHolds hupdated (updateStatus_statusHolds hb)⟩

end

/-! ## The operations -/

section Reprice

variable {b : Balancer} {a : AddressId} {weight : Nat} {available : Bool}

theorem Accounted.unlisted (hb : Accounted b) (ha : a < b.made)
    (hweight : (b.address a).disabled = true → weight = 0)
    (hunlisted : a ∉ (b.target (b.address a).target).addresses) :
    (b.address a).weight = 0 ∧ weight = 0 := by
  cases hdisabled : (b.address a).disabled with
  | false => exact absurd (hb.registered.listed a ha hdisabled) hunlisted
  | true => exact ⟨hb.disabled a ha hdisabled, hweight hdisabled⟩

theorem Accounted.reprice_sum (hb : Accounted b) (ha : a < b.made)
    (hweight : (b.address a).disabled = true → weight = 0) (t : TargetId) :
    weightSum (reprice b a weight available) (b.target t).addresses
        = ((reprice b a weight available).target t).totalWeight
      ∧ unavailableSum (reprice b a weight available) (b.target t).addresses
        = ((reprice b a weight available).target t).unavailableWeight := by
  have hother : ∀ a', a' ≠ a → (reprice b a weight available).address a' = b.address a' :=
    fun a' hne => reprice_of_ne b a weight available hne
  have hself := reprice_self b a weight available
  by_cases heq : t = (b.address a).target
  · subst heq
    have hnodup := hb.registered.nodup (b.address a).target
    have hzero := hb.unlisted ha hweight
    constructor
    · have hmove := sum_map_move hnodup (a := a) (d := weight - (b.address a).weight)
        (f := fun a => ((b.address a).weight : Int))
        (g := fun a' => (((reprice b a weight available).address a').weight : Int))
        (fun x hx => by rw [hother x hx]) (fun _ => by rw [hself])
        (fun hnot => by rw [(hzero hnot).1, (hzero hnot).2]; rfl)
      rw [weightSum, hmove]
      simp [reprice, hb.total, weightSum]
    · have hmove := sum_map_move hnodup (a := a)
        (d := Address.unavailable { b.address a with
          weight := weight, available := available } - (b.address a).unavailable)
        (f := fun a => (b.address a).unavailable)
        (g := fun a' => ((reprice b a weight available).address a').unavailable)
        (fun x hx => by rw [hother x hx]) (fun _ => by rw [hself])
        (fun hnot => by simp [Address.unavailable, (hzero hnot).1, (hzero hnot).2])
      rw [unavailableSum, hmove]
      simp [reprice, hb.unavailable, unavailableSum]
  · -- no address of another target is touched
    have hsame : ∀ a' ∈ (b.target t).addresses,
        (reprice b a weight available).address a' = b.address a' := by
      intro a' ha'
      refine hother a' ?_
      rintro rfl
      exact heq (hb.registered.known t a' ha').2.symm
    have htarget : (reprice b a weight available).target t = b.target t := by
      simp [reprice, heq]
    rw [htarget, hb.total, hb.unavailable]
    constructor
    · exact congrArg List.sum (List.map_congr_left fun a' ha' => by rw [hsame a' ha'])
    · exact congrArg List.sum (List.map_congr_left fun a' ha' => by rw [hsame a' ha'])

theorem Accounted.reprice (hb : Accounted b) (ha : a < b.made)
    (hweight : (b.address a).disabled = true → weight = 0) :
    Accounted (reprice b a weight available) where
  registered := hb.registered.reprice a weight available
  disabled := by
    intro a' ha' hdisabled
    rw [(reprice_address b a weight available a').2.1] at hdisabled
    by_cases heq : a' = a
    · subst heq
      rw [reprice_self]
      exact hweight hdisabled
    · rw [reprice_of_ne b a weight available heq]
      exact hb.disabled a' ha' hdisabled
  total := by
    intro t
    rw [(reprice_target b a weight available t).1]
    exact ((hb.reprice_sum ha hweight t).1).symm
  unavailable := by
    intro t
    rw [(reprice_target b a weight available t).1]
    exact ((hb.reprice_sum ha hweight t).2).symm
  totals := by
    have hzero : (b.address a).target ∉ b.targets → (weight : Int) - (b.address a).weight = 0 := by
      intro hnot
      obtain ⟨hold, hnew⟩ := hb.unlisted ha hweight (by rw [hb.registered.owned _ hnot]; simp)
      rw [hold, hnew]
      rfl
    have hmove := sum_map_move hb.registered.targets
      (f := fun t => (b.target t).totalWeight)
      (g := fun t => ((Balancers.reprice b a weight available).target t).totalWeight)
      (a := (b.address a).target) (d := weight - (b.address a).weight)
      (fun t ht => by simp [Balancers.reprice, ht]) (fun _ => by simp [Balancers.reprice]) hzero
    exact (congrArg (· + _) hb.totals).trans hmove.symm
  unavailables := by
    have hzero : (b.address a).target ∉ b.targets → Address.unavailable { b.address a with
        weight := weight, available := available } - (b.address a).unavailable = 0 := by
      intro hnot
      obtain ⟨hold, hnew⟩ := hb.unlisted ha hweight (by rw [hb.registered.owned _ hnot]; simp)
      simp [Address.unavailable, hold, hnew]
    have hmove := sum_map_move hb.registered.targets
      (f := fun t => (b.target t).unavailableWeight)
      (g := fun t => ((Balancers.reprice b a weight available).target t).unavailableWeight)
      (a := (b.address a).target) (d := Address.unavailable { b.address a with
        weight := weight, available := available } - (b.address a).unavailable)
      (fun t ht => by simp [Balancers.reprice, ht]) (fun _ => by simp [Balancers.reprice]) hzero
    exact (congrArg (· + _) hb.unavailables).trans hmove.symm

end Reprice

section Operations

variable {b : Balancer} (lib : Lib)

theorem Consistent.changeWeight (h : Consistent b) (t : TargetId) (entry : Entry) (newWeight : Nat)
    (henabled : newWeight = 0 ∨ ∀ a, findAddress b t entry = some a →
      (b.address a).disabled = false) :
    Consistent (changeWeight lib b t entry newWeight).2 := by
  cases hfind : findAddress b t entry with
  | none =>
    rw [changeWeight_none lib hfind]
    exact h
  | some a =>
    obtain ⟨ha, howner⟩ := h.accounted.registered.known t a (findAddress_mem hfind)
    rw [changeWeight_eq lib hfind howner]
    refine (h.accounted.reprice ha fun hdisabled => ?_).afterHostUpdate lib
    rcases henabled with hzero | hall
    · exact hzero
    · exact absurd (hall a hfind) (by simp [hdisabled])

theorem Consistent.markDisabled (h : Consistent b) {a : AddressId}
    (hweight : (b.address a).weight = 0) : Consistent (markDisabled b a) := by
  have hb := h.accounted
  have hunavailable : ∀ a', ((Balancers.markDisabled b a).address a').unavailable
      = (b.address a').unavailable := by
    intro a'
    rw [Address.unavailable, Address.unavailable, (markDisabled_address b a a').2.1,
      (markDisabled_address b a a').2.2.1]
  refine ⟨⟨hb.registered.markDisabled a, ?_, ?_, ?_, hb.totals, hb.unavailables⟩, h.status⟩
  · intro a' ha' hdisabled
    rw [(markDisabled_address b a a').2.1]
    by_cases heq : a' = a
    · rw [heq]
      exact hweight
    · rw [markDisabled_of_ne b a heq] at hdisabled
      exact hb.disabled a' ha' hdisabled
  · intro t
    refine (hb.total t).trans (congrArg List.sum (List.map_congr_left fun a' _ => ?_))
    rw [(markDisabled_address b a a').2.1]
  · intro t
    refine (hb.unavailable t).trans (congrArg List.sum (List.map_congr_left fun a' _ => ?_))
    exact (hunavailable a').symm

theorem Consistent.disableAddress (h : Consistent b) (t : TargetId) (entry : Entry) :
    Consistent (disableAddress lib b t entry) := by
  cases hfind : findAddress b t entry with
  | none =>
    rw [disableAddress_none lib hfind]
    exact h
  | some a =>
    obtain ⟨ha, howner⟩ := h.accounted.registered.known t a (findAddress_mem hfind)
    rw [disableAddress_eq lib hfind howner]
    refine ((h.accounted.reprice ha fun _ => rfl).afterHostUpdate lib).markDisabled ?_
    rw [(afterHostUpdate_rearranged lib _).weight]
    exact congrArg Address.weight (reprice_self b a 0 _)

theorem Consistent.setAddressStatus (h : Consistent b) (a : AddressId) (available : Bool) :
    Consistent (setAddressStatus lib b a available).2 := by
  refine setAddressStatus_induction lib (P := Consistent) h fun hknown _ => ?_
  exact (h.accounted.reprice hknown.1 fun hdisabled =>
    h.accounted.disabled a hknown.1 hdisabled).afterHostUpdate lib

theorem Accounted.withAddress (hb : Accounted b) {t : TargetId} (ht : t ∈ b.targets)
    (entry : Entry) : Accounted (withAddress b t entry) := by
  have hr := hb.registered
  -- the other addresses count as before
  have hsum : ∀ t', ∀ f : Address → Int, ((b.target t').addresses.map fun a =>
      f ((Balancers.withAddress b t entry).address a)).sum
      = ((b.target t').addresses.map fun a => f (b.address a)).sum := by
    intro t' f
    exact congrArg List.sum (List.map_congr_left fun a ha => by
      rw [withAddress_of_ne b entry (hr.ne_made ha)])
  refine ⟨hr.withAddress ht entry, ?_, ?_, ?_, ?_, ?_⟩
  · intro a ha hdisabled
    by_cases hnew : a = b.made
    · subst hnew
      rw [withAddress_made] at hdisabled
      cases hdisabled
    · have ha' : a < b.made := Nat.lt_of_le_of_ne (Nat.le_of_lt_succ ha) hnew
      rw [withAddress_of_ne b entry hnew] at hdisabled ⊢
      exact hb.disabled a ha' hdisabled
  · intro t'
    have hkept := hsum t' fun address => address.weight
    rw [withAddress_addresses]
    by_cases heq : t' = t
    · subst heq
      rw [if_pos rfl, weightSum, List.map_append, List.sum_append, hkept, List.map_singleton,
        List.sum_singleton, withAddress_made]
      simp [Balancers.withAddress, Balancer.modifyTarget, hb.total, weightSum, newAddress]
    · rw [if_neg heq, weightSum, hkept]
      simpa [Balancers.withAddress, Balancer.modifyTarget, heq, weightSum] using hb.total t'
  · intro t'
    have hkept := hsum t' Address.unavailable
    rw [withAddress_addresses]
    by_cases heq : t' = t
    · subst heq
      rw [if_pos rfl, unavailableSum, List.map_append, List.sum_append, hkept, List.map_singleton,
        List.sum_singleton, withAddress_made]
      simp [Balancers.withAddress, Balancer.modifyTarget, hb.unavailable, unavailableSum,
        newAddress, Address.unavailable]
    · rw [if_neg heq, unavailableSum, hkept]
      simpa [Balancers.withAddress, Balancer.modifyTarget, heq, unavailableSum] using hb.unavailable t'
  · have hmove := sum_map_move hr.targets (a := t) (d := entryWeight (b.target t) entry)
      (f := fun t => (b.target t).totalWeight)
      (g := fun t' => ((Balancers.withAddress b t entry).target t').totalWeight)
      (fun t' ht' => by simp [Balancers.withAddress, Balancer.modifyTarget, ht'])
      (fun _ => by simp [Balancers.withAddress, Balancer.modifyTarget])
      (fun hnot => absurd ht hnot)
    exact (congrArg (· + _) hb.totals).trans hmove.symm
  · refine hb.unavailables.trans (congrArg List.sum (List.map_congr_left fun t' _ => ?_))
    by_cases heq : t' = t
    · subst heq
      simp [Balancers.withAddress, Balancer.modifyTarget]
    · simp [Balancers.withAddress, Balancer.modifyTarget, heq]

theorem Consistent.addAddress (h : Consistent b) (t : TargetId) (entry : Entry) :
    Consistent (addAddress lib b t entry).2 := by
  by_cases ht : t ∈ b.targets
  · rw [addAddress_eq lib ht]
    exact (h.accounted.withAddress ht entry).afterHostUpdate lib
  · rw [Balancers.addAddress, if_pos ht]
    exact h

theorem Accounted.dropDisabled (hb : Accounted b) (t : TargetId) : Accounted (dropDisabled b t) := by
  have hzero : ∀ a ∈ (b.target t).addresses, (!(b.address a).disabled) = false →
      (b.address a).weight = 0 := by
    intro a ha hdisabled
    exact hb.disabled a (hb.registered.known t a ha).1 (by simpa using hdisabled)
  refine ⟨hb.registered.dropDisabled t, hb.disabled, ?_, ?_, ?_, ?_⟩
  · intro t'
    rw [(dropDisabled_target b t t').1, dropDisabled_addresses]
    split
    · rename_i heq
      rw [heq]
      refine (hb.total t).trans (sum_map_filter fun a ha hdisabled => ?_).symm
      exact congrArg Nat.cast (hzero a ha hdisabled)
    · exact hb.total t'
  · intro t'
    rw [(dropDisabled_target b t t').2.1, dropDisabled_addresses]
    split
    · rename_i heq
      rw [heq]
      refine (hb.unavailable t).trans (sum_map_filter fun a ha hdisabled => ?_).symm
      have hunavailable : (b.address a).unavailable = 0 := by
        simp [Address.unavailable, hzero a ha hdisabled]
      exact hunavailable
    · exact hb.unavailable t'
  · refine hb.totals.trans (congrArg List.sum (List.map_congr_left fun t' _ => ?_))
    exact (dropDisabled_target b t t').1.symm
  · refine hb.unavailables.trans (congrArg List.sum (List.map_congr_left fun t' _ => ?_))
    exact (dropDisabled_target b t t').2.1.symm

theorem Consistent.deleteDisabledAddresses (h : Consistent b) (t : TargetId) :
    Consistent (deleteDisabledAddresses lib b t) := by
  have hdropped := h.accounted.dropDisabled t
  rw [deleteDisabledAddresses_eq]
  split
  · have hrearranged := afterHostUpdate_rearranged lib (Balancers.dropDisabled b t)
    exact ⟨hrearranged.accounted hdropped, hrearranged.statusHolds hdropped h.status⟩
  · exact ⟨hdropped, h.status⟩

end Operations

/-! ## Runs -/

inductive Operation where
  | addAddress (t : TargetId) (entry : Entry)
  | changeWeight (t : TargetId) (entry : Entry) (newWeight : Nat)
  | disableAddress (t : TargetId) (entry : Entry)
  | deleteDisabledAddresses (t : TargetId)
  | setAddressStatus (a : AddressId) (available : Bool)

def operate (lib : Lib) (b : Balancer) : Operation → Balancer
  | .addAddress t entry => (addAddress lib b t entry).2
  | .changeWeight t entry newWeight => (changeWeight lib b t entry newWeight).2
  | .disableAddress t entry => disableAddress lib b t entry
  | .deleteDisabledAddresses t => deleteDisabledAddresses lib b t
  | .setAddressStatus a available => (setAddressStatus lib b a available).2

/-- A balancer as `create` makes it, before its first address. -/
structure Fresh (b : Balancer) : Prop where
  targets : b.targets.Nodup
  target : ∀ t, (b.target t).addresses = [] ∧ (b.target t).totalWeight = 0
    ∧ (b.target t).unavailableWeight = 0
  made : b.made = 0
  totalWeight : b.totalWeight = 0
  unavailableWeight : b.unavailableWeight = 0
  healthy : b.healthy = false
  healthThreshold : 0 ≤ b.healthThreshold

/-- An address that is disabled is deleted before it is given a weight
again. -/
def DeletedFirst (b : Balancer) : Operation → Prop
  | .changeWeight t entry newWeight => newWeight = 0 ∨ ∀ a, findAddress b t entry = some a →
      (b.address a).disabled = false
  | _ => True

theorem Fresh.registered {b : Balancer} (h : Fresh b) : Registered b := by
  have hmade : ∀ a, ¬ a < b.made := by
    intro a ha
    rw [h.made] at ha
    exact Nat.not_lt_zero a ha
  refine ⟨h.targets, fun t _ => (h.target t).1, ?_, ?_, fun a ha => absurd ha (hmade a)⟩
  · intro t a ha
    rw [(h.target t).1] at ha
    exact absurd ha List.not_mem_nil
  · intro t
    rw [(h.target t).1]
    exact List.nodup_nil

theorem Fresh.consistent {b : Balancer} (h : Fresh b) : Consistent b where
  accounted := by
    refine ⟨h.registered, ?_, ?_, ?_, ?_, ?_⟩
    · intro a ha
      rw [h.made] at ha
      exact absurd ha (Nat.not_lt_zero a)
    · intro t
      rw [(h.target t).1, (h.target t).2.1]
      rfl
    · intro t
      rw [(h.target t).1, (h.target t).2.2]
      rfl
    · rw [h.totalWeight, funext fun t => (h.target t).2.1]
      simp
    · rw [h.unavailableWeight, funext fun t => (h.target t).2.2]
      simp
  status := by
    rw [StatusHolds, h.healthy, h.totalWeight]
    simp

theorem Consistent.operate (lib : Lib) {b : Balancer} (h : Consistent b) (operation : Operation)
    (horder : DeletedFirst b operation) : Consistent (operate lib b operation) := by
  cases operation with
  | addAddress t entry => exact h.addAddress lib t entry
  | changeWeight t entry newWeight => exact h.changeWeight lib t entry newWeight horder
  | disableAddress t entry => exact h.disableAddress lib t entry
  | deleteDisabledAddresses t => exact h.deleteDisabledAddresses lib t
  | setAddressStatus a available => exact h.setAddressStatus lib a available

theorem Consistent.exists_available {b : Balancer} (h : Consistent b)
    (hthreshold : 0 ≤ b.healthThreshold) (hhealthy : b.healthy = true) :
    ∃ t ∈ b.targets, ∃ a ∈ (b.target t).addresses, (b.address a).available = true
      ∧ (b.address a).disabled = false ∧ 0 < (b.address a).weight := by
  obtain ⟨hpos, hlt⟩ := h.status.mp hhealthy
  have hb := h.accounted
  have hless : b.unavailableWeight < b.totalWeight := by
    have hposQ : (0 : ℚ) < b.totalWeight := by exact_mod_cast hpos
    have hnonneg : 0 ≤ b.healthThreshold * b.totalWeight := mul_nonneg hthreshold hposQ.le
    have hdiff : (0 : ℚ) < ((b.totalWeight - b.unavailableWeight : Int) : ℚ) := by linarith
    have : 0 < b.totalWeight - b.unavailableWeight := by exact_mod_cast hdiff
    omega
  rw [hb.totals, hb.unavailables] at hless
  obtain ⟨t, ht, htarget⟩ := List.exists_lt_of_sum_lt _ _ hless
  rw [hb.total, hb.unavailable, weightSum, unavailableSum] at htarget
  obtain ⟨a, ha, haddress⟩ := List.exists_lt_of_sum_lt _ _ htarget
  have hweight : 0 < (b.address a).weight := by
    have := (b.address a).unavailable_nonneg
    omega
  refine ⟨t, ht, a, ha, ?_, ?_, hweight⟩
  · cases havailable : (b.address a).available with
    | true => rfl
    | false => simp [Address.unavailable, havailable] at haddress
  · cases hdisabled : (b.address a).disabled with
    | false => rfl
    | true =>
      have := hb.disabled a (hb.registered.known t a ha).1 hdisabled
      omega

theorem operate_healthThreshold (lib : Lib) (b : Balancer) (operation : Operation) :
    (operate lib b operation).healthThreshold = b.healthThreshold := by
  have hchange : ∀ t entry newWeight,
      (changeWeight lib b t entry newWeight).2.healthThreshold = b.healthThreshold := by
    intro t entry newWeight
    rw [changeWeight]
    split
    · rfl
    · exact (afterHostUpdate_rearranged lib _).healthThreshold
  cases operation with
  | addAddress t entry =>
    rw [operate, addAddress]
    split
    · rfl
    · exact (afterHostUpdate_rearranged lib _).healthThreshold
  | changeWeight t entry newWeight => exact hchange t entry newWeight
  | disableAddress t entry =>
    have hzero := hchange t entry 0
    rw [operate, disableAddress]
    split
    · rename_i b' heq
      rwa [heq] at hzero
    · rename_i a b' heq
      rwa [heq] at hzero
  | deleteDisabledAddresses t =>
    rw [operate, deleteDisabledAddresses]
    split
    · exact (afterHostUpdate_rearranged lib _).healthThreshold
    · rfl
  | setAddressStatus a available =>
    rw [operate, setAddressStatus]
    split
    · rfl
    · split
      · rfl
      · exact (afterHostUpdate_rearranged lib _).healthThreshold

/-- In every state that operations lead to, if no disabled address is
given a weight before it is deleted, the counters are the sums of the
weights, disabled addresses weigh nothing, the status is the one of the
counters, and a healthy balancer has an available address with a
weight. -/
theorem weights_accounted (lib : Lib) {b₀ : Balancer} (hfresh : Fresh b₀)
    (operations : List Operation)
    (hrun : Run.Guarded (operate lib) DeletedFirst b₀ operations) :
    let b := Run.exec (operate lib) b₀ operations
    (∀ t, (b.target t).totalWeight = weightSum b (b.target t).addresses
        ∧ (b.target t).unavailableWeight = unavailableSum b (b.target t).addresses)
      ∧ b.totalWeight = (b.targets.map fun t => (b.target t).totalWeight).sum
      ∧ b.unavailableWeight = (b.targets.map fun t => (b.target t).unavailableWeight).sum
      ∧ (∀ a < b.made, (b.address a).disabled = true → (b.address a).weight = 0)
      ∧ StatusHolds b
      ∧ (b.healthy = true → ∃ t ∈ b.targets, ∃ a ∈ (b.target t).addresses,
        (b.address a).available = true ∧ (b.address a).disabled = false
          ∧ 0 < (b.address a).weight) := by
  have hstep : ∀ b operation, Consistent b ∧ 0 ≤ b.healthThreshold → DeletedFirst b operation →
      Consistent (operate lib b operation) ∧ 0 ≤ (operate lib b operation).healthThreshold := by
    intro b operation h horder
    rw [operate_healthThreshold]
    exact ⟨h.1.operate lib operation horder, h.2⟩
  obtain ⟨h, hthreshold⟩ :=
    hrun.invariant hstep ⟨hfresh.consistent, hfresh.healthThreshold⟩
  exact ⟨fun t => ⟨h.accounted.total t, h.accounted.unavailable t⟩, h.accounted.totals,
    h.accounted.unavailables, h.accounted.disabled, h.status, h.exists_available hthreshold⟩

/-! ### One target -/

/-- A balancer with one target and no address. -/
def emptyBalancer (algorithm : Option Algorithm) : Balancer where
  address := fun _ => ⟨"", 0, 0, 0, .ipv4, none, false, false, none⟩
  made := 0
  target := fun _ => ⟨"example.com", 80, 10, [], 0, 0, none, none⟩
  targets := [0]
  totalWeight := 0
  unavailableWeight := 0
  healthy := false
  healthThreshold := 0
  useSRVname := false
  requeryInterval := 30000
  ttl0Interval := 60000
  algorithm := algorithm
  draws := 0

theorem emptyBalancer_fresh (algorithm : Option Algorithm) : Fresh (emptyBalancer algorithm) :=
  ⟨by simp [emptyBalancer], fun _ => ⟨rfl, rfl, rfl⟩, rfl, rfl, rfl, rfl, by simp [emptyBalancer]⟩

def localRecord : Entry := .a "127.0.0.1" 30

/-- A disabled address that is still listed gets a weight. -/
theorem reweighted_before_deletion :
    let b := Run.exec (operate Lib.plain) (emptyBalancer none)
      [.addAddress 0 localRecord, .disableAddress 0 localRecord, .changeWeight 0 localRecord 5]
    Fresh (emptyBalancer none)
      ∧ 0 < b.made ∧ (b.address 0).disabled = true ∧ (b.address 0).weight ≠ 0 :=
  ⟨emptyBalancer_fresh none, by decide, by decide, by decide⟩

theorem weights_accounted_after_failure :
    let b := Run.exec (operate Lib.plain) (emptyBalancer none)
      [.addAddress 0 localRecord, .setAddressStatus 0 false, .changeWeight 0 localRecord 5]
    b.unavailableWeight = 5
      ∧ b.unavailableWeight = (b.targets.map fun t => (b.target t).unavailableWeight).sum := by
  refine ⟨by decide, (weights_accounted Lib.plain (emptyBalancer_fresh none) _ ?_).2.2.1⟩
  refine ⟨trivial, trivial, .inr fun a hfind => ?_, trivial⟩
  obtain rfl : 0 = a := Option.some.inj hfind
  decide

end KongGateway.Kong.Balancers

import KongGateway.Kong.Balancers.Operations
import KongGateway.Kong.Balancers.SortKeys

/-!
# Slots — the addresses of a target, one ip and port at a time

The methods of the balancer find an address by its ip and port, so they
act on each such endpoint alone: on the list of the weights and marks of
the addresses there. Between two methods the algorithm may have sorted
the addresses; only consistent hashing does.
-/

namespace KongGateway.Kong.Balancers

/-- The algorithm leaves the address lists in their order. -/
def KeepsOrder (b : Balancer) : Prop :=
  match b.algorithm with
  | some (.consistentHashing _) => False
  | _ => True

instance (b : Balancer) : Decidable (KeepsOrder b) := by
  unfold KeepsOrder
  split
  · exact inferInstanceAs (Decidable False)
  · exact inferInstanceAs (Decidable True)

section KeepsOrder

variable {b b' : Balancer}

theorem KeepsOrder.of_algorithm (h : KeepsOrder b) (heq : b'.algorithm = b.algorithm) :
    KeepsOrder b' := by
  rwa [KeepsOrder, heq]

theorem afterHostUpdate_keepsOrder (lib : Lib) (h : KeepsOrder b) :
    KeepsOrder (afterHostUpdate lib b)
      ∧ ∀ t, ((afterHostUpdate lib b).target t).addresses = (b.target t).addresses := by
  rw [KeepsOrder] at h
  cases halgorithm : b.algorithm with
  | none =>
    rw [afterHostUpdate, halgorithm]
    exact ⟨by rw [KeepsOrder, halgorithm]; trivial, fun _ => rfl⟩
  | some algorithm =>
    cases algorithm with
    | roundRobin self =>
      rw [afterHostUpdate, halgorithm]
      dsimp only
      rw [roundRobinAfterHostUpdate]
      split
      · exact ⟨trivial, fun _ => rfl⟩
      · exact ⟨trivial, fun _ => rfl⟩
    | consistentHashing self =>
      rw [halgorithm] at h
      exact h.elim
    | leastConnections self =>
      rw [afterHostUpdate, halgorithm]
      obtain ⟨address, hfold, -⟩ := foldl_insertAddr b.allAddresses b []
      refine ⟨trivial, fun t => ?_⟩
      simp only [leastConnectionsAfterHostUpdate, hfold]
    | latency self =>
      rw [afterHostUpdate, halgorithm]
      dsimp only
      rw [latencyAfterHostUpdate]
      split
      · exact ⟨trivial, fun _ => rfl⟩
      · exact ⟨trivial, fun _ => rfl⟩

end KeepsOrder

/-! ## Slots -/

/-- The weights and marks of the addresses of a target at an endpoint. -/
def slots (b : Balancer) (t : TargetId) (g : String × Nat) : List (Nat × Bool) :=
  ((b.target t).addresses.filter fun a => ((b.address a).ip, (b.address a).port) = g).map fun a =>
    ((b.address a).weight, (b.address a).disabled)

/-- The slots that entries make at an endpoint. -/
def entrySlots (target : Target) (entries : List Entry) (g : String × Nat) : List (Nat × Bool) :=
  (entries.filter fun e => endpoint target e = g).map fun e => (entryWeight target e, false)

/-- The same list, or the same values in another order when the
algorithm sorts. -/
def Same (order : Prop) (l l' : List (Nat × Bool)) : Prop := l.Perm l' ∧ (order → l = l')

namespace Same

variable {order : Prop} {l l' l'' : List (Nat × Bool)}

theorem refl (order : Prop) (l : List (Nat × Bool)) : Same order l l := ⟨.refl _, fun _ => rfl⟩

theorem of_eq (h : l = l') : Same order l l' := ⟨.of_eq h, fun _ => h⟩

theorem trans (h : Same order l l') (h' : Same order l' l'') : Same order l l'' :=
  ⟨h.1.trans h'.1, fun ho => (h.2 ho).trans (h'.2 ho)⟩

theorem append (h : Same order l l') (m : List (Nat × Bool)) : Same order (l ++ m) (l' ++ m) :=
  ⟨h.1.append_right m, fun ho => by rw [h.2 ho]⟩

theorem filter (h : Same order l l') (p : Nat × Bool → Bool) :
    Same order (l.filter p) (l'.filter p) :=
  ⟨h.1.filter p, fun ho => by rw [h.2 ho]⟩

theorem eq_of_length_le (h : Same order l l') (hlen : l'.length ≤ 1) : l = l' := by
  match l', hlen with
  | [], _ => exact h.1.eq_nil
  | [x], _ => exact h.1.eq_singleton

/-- Two slots have one order when the algorithm keeps it or when they
are equal. -/
theorem eq_of_pair {x y : Nat × Bool} (h : Same order l [x, y]) (hpair : order ∨ x = y) :
    l = [x, y] := by
  rcases hpair with ho | rfl
  · exact h.2 ho
  · exact (List.perm_replicate (n := 2) (a := x)).mp h.1

end Same

/-! ## The changes -/

/-- The first slot gets a weight. -/
def setFirst (weight : Nat) : List (Nat × Bool) → List (Nat × Bool)
  | [] => []
  | (_, disabled) :: rest => (weight, disabled) :: rest

/-- The first slot is disabled. -/
def disableFirst : List (Nat × Bool) → List (Nat × Bool)
  | [] => []
  | _ :: rest => (0, true) :: rest

section Changes

variable {b b' : Balancer} {t : TargetId} {g : String × Nat}

theorem Rearranged.slots (h : Rearranged b b') (order : Prop)
    (horder : order → (b'.target t).addresses = (b.target t).addresses) :
    Same order (slots b' t g) (slots b t g) := by
  have hsame : Balancers.slots b' t g
      = ((b'.target t).addresses.filter fun a =>
          ((b.address a).ip, (b.address a).port) = g).map fun a =>
        ((b.address a).weight, (b.address a).disabled) := by
    simp only [Balancers.slots, h.ip, h.port, h.weight, h.disabled]
  rw [hsame]
  refine ⟨((h.addresses t).filter _).map _, fun ho => ?_⟩
  rw [horder ho]
  rfl

theorem slots_afterHostUpdate (lib : Lib) (order : Prop) (horder : order → KeepsOrder b) :
    Same order (slots (afterHostUpdate lib b) t g) (slots b t g) :=
  (afterHostUpdate_rearranged lib b).slots order
    fun ho => (afterHostUpdate_keepsOrder lib (horder ho)).2 t

theorem slots_withAddress (h : Registered b) (entry : Entry) :
    slots (withAddress b t entry) t g
      = slots b t g ++ entrySlots (b.target t) [entry] g := by
  have hold : ∀ a ∈ (b.target t).addresses, (withAddress b t entry).address a = b.address a :=
    fun a ha => withAddress_of_ne b entry (h.ne_made ha)
  rw [slots, withAddress_addresses, if_pos rfl, List.filter_append, List.map_append]
  congr 1
  · rw [slots]
    have hfilter : ((b.target t).addresses.filter fun a =>
          (((withAddress b t entry).address a).ip, ((withAddress b t entry).address a).port) = g)
        = (b.target t).addresses.filter fun a => ((b.address a).ip, (b.address a).port) = g := by
      refine List.filter_congr fun a ha => ?_
      rw [hold a ha]
    rw [hfilter]
    refine List.map_congr_left fun a ha => ?_
    rw [hold a (List.mem_of_mem_filter ha)]
  · by_cases hg : endpoint (b.target t) entry = g
    · have hnew : (((withAddress b t entry).address b.made).ip,
          ((withAddress b t entry).address b.made).port) = g := by
        rw [withAddress_made]
        exact hg
      rw [entrySlots, List.filter_cons_of_pos (by simpa using hnew),
        List.filter_cons_of_pos (by simpa using hg)]
      simp [withAddress_made, newAddress]
    · have hnew : ¬ (((withAddress b t entry).address b.made).ip,
          ((withAddress b t entry).address b.made).port) = g := by
        rw [withAddress_made]
        exact hg
      rw [entrySlots, List.filter_cons_of_neg (by simpa using hnew),
        List.filter_cons_of_neg (by simpa using hg)]
      rfl

theorem findAddress_eq (b : Balancer) (t : TargetId) (entry : Entry) :
    findAddress b t entry = (b.target t).addresses.find? fun a =>
      ((b.address a).ip, (b.address a).port) = endpoint (b.target t) entry := by
  simp only [findAddress, endpoint, Prod.mk.injEq]

theorem slots_of_find_none {entry : Entry} (hfind : findAddress b t entry = none) :
    slots b t (endpoint (b.target t) entry) = [] := by
  rw [findAddress_eq, List.find?_eq_none] at hfind
  rw [slots, List.map_eq_nil_iff, List.filter_eq_nil_iff]
  exact hfind

theorem filter_of_find {entry : Entry} {a : AddressId} (hfind : findAddress b t entry = some a)
    (hnodup : (b.target t).addresses.Nodup) :
    ∃ rest, a ∉ rest ∧ ((b.target t).addresses.filter fun a' =>
      ((b.address a').ip, (b.address a').port) = endpoint (b.target t) entry) = a :: rest := by
  rw [findAddress_eq, ← List.head?_filter] at hfind
  obtain ⟨rest, hrest⟩ := List.head?_eq_some_iff.mp hfind
  refine ⟨rest, ?_, hrest⟩
  have hfiltered := hnodup.filter fun a' =>
    decide (((b.address a').ip, (b.address a').port) = endpoint (b.target t) entry)
  rw [hrest, List.nodup_cons] at hfiltered
  exact hfiltered.1

/-- A change of the address that an entry finds changes the first slot
of its endpoint. -/
theorem slots_of_find {entry : Entry} {a : AddressId} (h : Registered b)
    (hfind : findAddress b t entry = some a)
    (haddresses : (b'.target t).addresses = (b.target t).addresses)
    (hplace : ∀ a', (b'.address a').ip = (b.address a').ip
      ∧ (b'.address a').port = (b.address a').port)
    (hother : ∀ a', a' ≠ a → (b'.address a').weight = (b.address a').weight
      ∧ (b'.address a').disabled = (b.address a').disabled) :
    slots b' t g = if endpoint (b.target t) entry = g then
        ((b'.address a).weight, (b'.address a).disabled) :: (slots b t g).tail
      else slots b t g := by
  obtain ⟨rest, hrest, hfilter⟩ := filter_of_find hfind (h.nodup t)
  have hplaced : slots b' t g = ((b.target t).addresses.filter fun a' =>
      ((b.address a').ip, (b.address a').port) = g).map fun a' =>
        ((b'.address a').weight, (b'.address a').disabled) := by
    simp only [slots, haddresses, (hplace _).1, (hplace _).2]
  have hkeep : ∀ as : List AddressId, a ∉ as →
      (as.map fun a' => ((b'.address a').weight, (b'.address a').disabled))
        = as.map fun a' => ((b.address a').weight, (b.address a').disabled) := by
    intro as has
    refine List.map_congr_left fun a' ha' => ?_
    have hne : a' ≠ a := by
      rintro rfl
      exact has ha'
    rw [(hother a' hne).1, (hother a' hne).2]
  rw [hplaced]
  split
  · rename_i hg
    subst hg
    rw [slots, hfilter, List.map_cons, List.map_cons, List.tail_cons, hkeep rest hrest]
  · rename_i hg
    rw [slots]
    refine hkeep _ fun hmem => hg ?_
    have hfound := List.find?_some (findAddress_eq b t entry ▸ hfind)
    exact (of_decide_eq_true hfound).symm.trans (of_decide_eq_true (List.mem_filter.mp hmem).2)

theorem slots_reprice {entry : Entry} {a : AddressId} (h : Registered b)
    (hfind : findAddress b t entry = some a) (weight : Nat) (available : Bool) :
    slots (reprice b a weight available) t g
      = if endpoint (b.target t) entry = g then setFirst weight (slots b t g)
        else slots b t g := by
  rw [slots_of_find h hfind (reprice_target b a weight available t).1
    (fun a' => (reprice_address b a weight available a').2.2)
    (fun a' hne => by rw [reprice_of_ne b a weight available hne]; exact ⟨rfl, rfl⟩)]
  split
  · rename_i hg
    subst hg
    obtain ⟨rest, -, hfilter⟩ := filter_of_find hfind (h.nodup t)
    rw [reprice_self, slots, hfilter]
    rfl
  · rfl

theorem Rearranged.markDisabled (h : Rearranged b b') (a : AddressId) :
    Rearranged (markDisabled b a) (markDisabled b' a) where
  address := by
    intro a'
    by_cases heq : a' = a
    · subst heq
      rw [markDisabled_self, markDisabled_self]
      exact congrArg (fun address : Address => { address with disabled := true }) (h.address a')
    · rw [markDisabled_of_ne b a heq, markDisabled_of_ne b' a heq]
      exact h.address a'
  target := h.target
  addresses := h.addresses
  targets := h.targets
  made := h.made
  totalWeight := by
    rcases h.totalWeight with hsame | hsum
    · exact .inl hsame
    · refine .inr (hsum.trans ?_)
      simp only [(markDisabled_address b a _).2.1]
      rfl
  unavailableWeight := h.unavailableWeight
  healthy := h.healthy
  healthThreshold := h.healthThreshold
  useSRVname := h.useSRVname

theorem slots_dropDisabled :
    slots (dropDisabled b t) t g = (slots b t g).filter fun slot => !slot.2 := by
  have haddress : (dropDisabled b t).address = b.address := rfl
  rw [slots, slots, dropDisabled_addresses, if_pos rfl, List.filter_map, List.filter_filter,
    List.filter_filter, haddress]
  congr 1
  refine List.filter_congr fun a _ => ?_
  rw [Bool.and_comm]
  rfl

end Changes

/-! ## The methods -/

/-- A balancer on the way from another one: what a DNS update of a
target does not change. -/
structure UnderWay (b₀ b : Balancer) (t : TargetId) : Prop where
  registered : Registered b
  listed : t ∈ b.targets
  port : (b.target t).port = (b₀.target t).port
  weight : (b.target t).weight = (b₀.target t).weight
  order : KeepsOrder b₀ → KeepsOrder b

namespace UnderWay

variable {b₀ b b' : Balancer} {t : TargetId} (lib : Lib)

theorem endpoint (h : UnderWay b₀ b t) (entry : Entry) :
    endpoint (b.target t) entry = endpoint (b₀.target t) entry := by
  rw [Balancers.endpoint, Balancers.endpoint, entryPort, entryPort, h.port]

theorem entryWeight (h : UnderWay b₀ b t) (entry : Entry) :
    entryWeight (b.target t) entry = entryWeight (b₀.target t) entry := by
  rw [Balancers.entryWeight, Balancers.entryWeight, h.weight]

theorem entrySlots (h : UnderWay b₀ b t) (entries : List Entry) (g : String × Nat) :
    entrySlots (b.target t) entries g = entrySlots (b₀.target t) entries g := by
  simp only [Balancers.entrySlots, h.endpoint, h.entryWeight]

theorem of_step (h : UnderWay b₀ b t) (hregistered : Registered b')
    (hlisted : b'.targets = b.targets) (hport : (b'.target t).port = (b.target t).port)
    (hweight : (b'.target t).weight = (b.target t).weight)
    (halgorithm : b'.algorithm = b.algorithm) : UnderWay b₀ b' t where
  registered := hregistered
  listed := hlisted ▸ h.listed
  port := hport.trans h.port
  weight := hweight.trans h.weight
  order := fun ho => (h.order ho).of_algorithm halgorithm

theorem afterHostUpdate (h : UnderWay b₀ b t) : UnderWay b₀ (afterHostUpdate lib b) t where
  registered := h.registered.afterHostUpdate lib
  listed := (afterHostUpdate_rearranged lib b).targets.mem_iff.mpr h.listed
  port := ((afterHostUpdate_rearranged lib b).targetPort t).trans h.port
  weight := ((afterHostUpdate_rearranged lib b).targetWeight t).trans h.weight
  order := fun ho => (afterHostUpdate_keepsOrder lib (h.order ho)).1

/-- A change, then `updateStatus` and `afterHostUpdate`. -/
theorem settle (h : UnderWay b₀ b t) (g : String × Nat) :
    UnderWay b₀ (Balancers.afterHostUpdate lib (updateStatus b)) t
      ∧ Same (KeepsOrder b₀) (slots (Balancers.afterHostUpdate lib (updateStatus b)) t g)
        (slots b t g) := by
  have hstatus : UnderWay b₀ (updateStatus b) t :=
    h.of_step h.registered.updateStatus rfl rfl rfl rfl
  exact ⟨hstatus.afterHostUpdate lib, slots_afterHostUpdate lib _ hstatus.order⟩

theorem addAddress (h : UnderWay b₀ b t) (entry : Entry) (g : String × Nat) :
    UnderWay b₀ (addAddress lib b t entry).2 t
      ∧ Same (KeepsOrder b₀) (slots (addAddress lib b t entry).2 t g)
        (slots b t g ++ Balancers.entrySlots (b₀.target t) [entry] g) := by
  have hadded : UnderWay b₀ (withAddress b t entry) t :=
    h.of_step (h.registered.withAddress h.listed entry) rfl (withAddress_target b t entry t).1
      (withAddress_target b t entry t).2.1 rfl
  rw [addAddress_eq lib h.listed]
  refine ⟨(hadded.settle lib g).1, (hadded.settle lib g).2.trans (.of_eq ?_)⟩
  rw [slots_withAddress h.registered, h.entrySlots]

theorem changeWeight (h : UnderWay b₀ b t) (entry : Entry) (weight : Nat) (g : String × Nat) :
    UnderWay b₀ (changeWeight lib b t entry weight).2 t
      ∧ Same (KeepsOrder b₀) (slots (changeWeight lib b t entry weight).2 t g)
        (if Balancers.endpoint (b₀.target t) entry = g then setFirst weight (slots b t g)
          else slots b t g) := by
  rw [← h.endpoint]
  cases hfind : findAddress b t entry with
  | none =>
    rw [changeWeight_none lib hfind]
    refine ⟨h, .of_eq ?_⟩
    split
    · rename_i hg
      subst hg
      rw [slots_of_find_none hfind]
      rfl
    · rfl
  | some a =>
    have hpriced : UnderWay b₀ (reprice b a weight (b.address a).available) t := by
      have htarget := reprice_target b a weight (b.address a).available t
      exact h.of_step (h.registered.reprice a weight _) rfl htarget.2.1 htarget.2.2.1 rfl
    rw [changeWeight_eq lib hfind (h.registered.known t a (findAddress_mem hfind)).2]
    refine ⟨(hpriced.settle lib g).1, (hpriced.settle lib g).2.trans (.of_eq ?_)⟩
    exact slots_reprice h.registered hfind weight _

theorem disableAddress (h : UnderWay b₀ b t) (entry : Entry) (g : String × Nat) :
    UnderWay b₀ (disableAddress lib b t entry) t
      ∧ Same (KeepsOrder b₀) (slots (disableAddress lib b t entry) t g)
        (if Balancers.endpoint (b₀.target t) entry = g then disableFirst (slots b t g)
          else slots b t g) := by
  rw [← h.endpoint]
  cases hfind : findAddress b t entry with
  | none =>
    rw [disableAddress_none lib hfind]
    refine ⟨h, .of_eq ?_⟩
    split
    · rename_i hg
      subst hg
      rw [slots_of_find_none hfind]
      rfl
    · rfl
  | some a =>
    have howner := (h.registered.known t a (findAddress_mem hfind)).2
    have htarget := reprice_target b a 0 (b.address a).available t
    have hpriced : UnderWay b₀ (updateStatus (reprice b a 0 (b.address a).available)) t :=
      h.of_step (h.registered.reprice a 0 _).updateStatus rfl htarget.2.1 htarget.2.2.1 rfl
    have hafter := hpriced.afterHostUpdate lib
    rw [disableAddress_eq lib hfind howner]
    refine ⟨hafter.of_step (hafter.registered.markDisabled a) rfl rfl rfl rfl, ?_⟩
    have hrearranged := (afterHostUpdate_rearranged lib
      (updateStatus (reprice b a 0 (b.address a).available))).markDisabled a
    refine (hrearranged.slots (KeepsOrder b₀) fun ho =>
      (afterHostUpdate_keepsOrder lib (hpriced.order ho)).2 t).trans (.of_eq ?_)
    have hlists : ((markDisabled (updateStatus (reprice b a 0 (b.address a).available)) a).target
        t).addresses = (b.target t).addresses := htarget.1
    rw [slots_of_find h.registered hfind hlists]
    · split
      · rename_i hg
        subst hg
        obtain ⟨rest, -, hfilter⟩ := filter_of_find hfind (h.registered.nodup t)
        rw [markDisabled_self, slots, hfilter]
        have hself := reprice_self b a 0 (b.address a).available
        have hweight : ((updateStatus (reprice b a 0 (b.address a).available)).address a).weight
            = 0 := congrArg Address.weight hself
        rw [hweight]
        rfl
      · rfl
    · intro a'
      have hmark := markDisabled_address
        (updateStatus (reprice b a 0 (b.address a).available)) a a'
      have hprice := reprice_address b a 0 (b.address a).available a'
      exact ⟨hmark.2.2.2.1.trans hprice.2.2.1, hmark.2.2.2.2.trans hprice.2.2.2⟩
    · intro a' hne
      rw [markDisabled_of_ne _ a hne]
      have hkeep : (updateStatus (reprice b a 0 (b.address a).available)).address a'
          = b.address a' := reprice_of_ne b a 0 _ hne
      rw [hkeep]
      exact ⟨rfl, rfl⟩

theorem deleteDisabledAddresses (h : UnderWay b₀ b t) (g : String × Nat) :
    UnderWay b₀ (deleteDisabledAddresses lib b t) t
      ∧ Same (KeepsOrder b₀) (slots (deleteDisabledAddresses lib b t) t g)
        ((slots b t g).filter fun slot => !slot.2) := by
  have hdropped : UnderWay b₀ (dropDisabled b t) t :=
    h.of_step (h.registered.dropDisabled t) rfl (dropDisabled_target b t t).2.2.1
      (dropDisabled_target b t t).2.2.2.1 rfl
  rw [deleteDisabledAddresses_eq]
  split
  · exact ⟨hdropped.afterHostUpdate lib,
      (slots_afterHostUpdate lib _ hdropped.order).trans (.of_eq slots_dropDisabled)⟩
  · exact ⟨hdropped, .of_eq slots_dropDisabled⟩

end UnderWay

end KongGateway.Kong.Balancers

import KongGateway.Kong.Balancers.Rebuild

/-!
# Stability — what a status change does to the peers of other keys

`setAddressStatus` builds the continuum again, and gets the one there
was. The loop of `getPeer` looks at the ring in its order, so it ends at
the address it ended at, unless an address before it has become
available.
-/

namespace KongGateway.Kong.Balancers

open LuaStd Finset

/-! ## The walk of a key -/

/-- The addresses on the ring, counter-clockwise from the hashed index. -/
def walk (self : ConsistentHashing) (hashValue : Nat) : List AddressId :=
  (ringFrom self.points hashValue).filterMap self.continuum

/-- The indices the loop looks at. -/
def lookedAt (points hashValue : Nat) : Nat → Nat → List Nat
  | 0, _ => []
  | fuel + 1, index =>
    if index = hashValue + 1 then []
    else
      let index := if index = 0 then points else index
      index :: lookedAt points hashValue fuel (index - 1)

section Walk

variable {points hashValue : Nat}

theorem lookedAt_prefix_of_le {m n : Nat} (h : m ≤ n) (index : Nat) :
    lookedAt points hashValue m index <+: lookedAt points hashValue n index := by
  induction m generalizing n index with
  | zero => exact ⟨_, rfl⟩
  | succ m ih =>
    obtain ⟨n, rfl⟩ : ∃ k, n = k + 1 := ⟨n - 1, by omega⟩
    rw [lookedAt, lookedAt]
    split
    · exact List.prefix_refl _
    · exact List.prefix_cons_inj _ |>.mpr (ih (by omega) _)

theorem lookedAt_downFrom {top n : Nat} (hn : n ≤ top) (hstop : hashValue + 1 ∉ downFrom top n)
    (fuel : Nat) :
    lookedAt points hashValue (fuel + n) top
      = downFrom top n ++ lookedAt points hashValue fuel (top - n) := by
  induction n generalizing top with
  | zero => rfl
  | succ n ih =>
    rw [downFrom, List.mem_cons, not_or] at hstop
    rw [← Nat.add_assoc, lookedAt, if_neg (Ne.symm hstop.1), downFrom, List.cons_append]
    simp only [if_neg (show top ≠ 0 by omega)]
    rw [ih (by omega) hstop.2, Nat.sub_sub, Nat.add_comm 1 n]

theorem mem_lookedAt {fuel index i : Nat} (hpoints : 0 < points) (hindex : index ≤ points)
    (hi : i ∈ lookedAt points hashValue fuel index) : 1 ≤ i ∧ i ≤ points := by
  induction fuel generalizing index with
  | zero => cases hi
  | succ fuel ih =>
    rw [lookedAt] at hi
    split at hi
    · cases hi
    · dsimp only at hi
      rcases List.mem_cons.mp hi with rfl | hrest
      · split <;> omega
      · refine ih ?_ hrest
        split <;> omega

theorem mem_ringFrom {i : Nat} (hle : hashValue ≤ points) :
    i ∈ ringFrom points hashValue ↔ 1 ≤ i ∧ i ≤ points := by
  rw [ringFrom, List.mem_append, mem_downFrom (Nat.le_refl _), mem_downFrom (Nat.sub_le _ _)]
  omega

/-- The loop looks at the ring in its order: at a part of it, or at all
of it and then again. -/
theorem lookedAt_ring (hpos : 1 ≤ hashValue) (hle : hashValue ≤ points) (fuel : Nat) :
    lookedAt points hashValue fuel hashValue <+: ringFrom points hashValue
      ∨ ringFrom points hashValue <+: lookedAt points hashValue fuel hashValue := by
  have hlower : hashValue + 1 ∉ downFrom hashValue hashValue := by
    rw [mem_downFrom (Nat.le_refl _)]
    omega
  rcases Nat.lt_or_ge (hashValue + 1) points with hroom | htop
  · left
    have hupper : hashValue + 1 ∉ downFrom points (points - hashValue - 1) := by
      rw [mem_downFrom (by omega)]
      omega
    have hwhole : lookedAt points hashValue
        (fuel + 1 + (points - hashValue - 1) + hashValue) hashValue = visited points hashValue := by
      have hwrap : lookedAt points hashValue (fuel + 1 + (points - hashValue - 1)) 0
          = lookedAt points hashValue (fuel + 1 + (points - hashValue - 1)) points := by
        rw [Nat.add_right_comm, lookedAt, if_neg (show ¬ 0 = hashValue + 1 by omega), lookedAt,
          if_neg (show ¬ points = hashValue + 1 by omega)]
        simp only [if_true, if_neg (show points ≠ 0 by omega)]
      have hend : points - (points - hashValue - 1) = hashValue + 1 := by omega
      rw [lookedAt_downFrom (Nat.le_refl _) hlower, Nat.sub_self, hwrap,
        lookedAt_downFrom (by omega) hupper, hend, lookedAt, if_pos rfl, List.append_nil, visited]
    rw [ringFrom_eq (by omega), ← hwhole]
    exact (lookedAt_prefix_of_le (by omega) _).trans (List.prefix_append _ _)
  · -- one round is the whole ring
    have hround : lookedAt points hashValue points hashValue = ringFrom points hashValue := by
      rcases Nat.eq_or_lt_of_le hle with rfl | hlt
      · have hall := @lookedAt_downFrom hashValue hashValue hashValue hashValue (Nat.le_refl _) hlower 0
        rw [Nat.zero_add] at hall
        rw [hall, ringFrom, Nat.sub_self]
        rfl
      · obtain rfl : points = hashValue + 1 := by omega
        have hall := @lookedAt_downFrom (hashValue + 1) hashValue hashValue hashValue (Nat.le_refl _)
          hlower 1
        rw [Nat.add_comm 1 hashValue] at hall
        rw [hall, ringFrom, Nat.sub_self, lookedAt, if_neg (by omega)]
        simp [downFrom, lookedAt]
    rw [← hround]
    rcases Nat.le_total fuel points with hfuel | hfuel
    · exact .inl (lookedAt_prefix_of_le hfuel _)
    · exact .inr (lookedAt_prefix_of_le hfuel _)

/-- What comes before a value in a list comes before it in a longer
one. -/
theorem takeWhile_of_prefix_mem {α : Type} {p : α → Bool} {l l' : List α} (h : l <+: l') {a : α}
    (ha : a ∈ l) (hp : p a = false) : l'.takeWhile p = l.takeWhile p := by
  obtain ⟨rest, rfl⟩ := h
  induction l with
  | nil => cases ha
  | cons x l ih =>
    rw [List.cons_append]
    cases hx : p x with
    | false => rw [List.takeWhile_cons_of_neg (by simp [hx]), List.takeWhile_cons_of_neg (by simp [hx])]
    | true =>
      rw [List.takeWhile_cons_of_pos hx, List.takeWhile_cons_of_pos hx]
      rcases List.mem_cons.mp ha with rfl | hrest
      · rw [hx] at hp
        cases hp
      · rw [ih hrest]

/-- What the loop passes before an address stands before it on the
walk. -/
theorem takeWhile_walk {self : ConsistentHashing} (hpos : 1 ≤ hashValue)
    (hle : hashValue ≤ self.points) {fuel : Nat} {a : AddressId}
    (ha : a ∈ (lookedAt self.points hashValue fuel hashValue).filterMap self.continuum) :
    (walk self hashValue).takeWhile (fun y => y ≠ a)
      = ((lookedAt self.points hashValue fuel hashValue).filterMap self.continuum).takeWhile
          fun y => y ≠ a := by
  have hself : (fun y : AddressId => decide (y ≠ a)) a = false := by simp
  rcases lookedAt_ring hpos hle fuel with hpart | hall
  · exact takeWhile_of_prefix_mem (hpart.filterMap self.continuum) ha hself
  · refine (@takeWhile_of_prefix_mem _ (fun y => decide (y ≠ a)) _ _
      (hall.filterMap self.continuum) a ?_ hself).symm
    obtain ⟨i, hi, hia⟩ := List.mem_filterMap.mp ha
    have hbounds := mem_lookedAt (by omega) hle hi
    exact List.mem_filterMap.mpr ⟨i, (mem_ringFrom hle).mpr hbounds, hia⟩

/-- A search finds what it found when nothing it passed is let
through. -/
theorem find?_stable {α : Type} [DecidableEq α] {p q : α → Bool} {l : List α} {a : α}
    (h : l.find? p = some a) (hqa : q a = true)
    (hpassed : ∀ x ∈ l.takeWhile (fun y => y ≠ a), p x = false → q x = false) :
    l.find? q = some a := by
  induction l with
  | nil => cases h
  | cons x rest ih =>
    by_cases hx : x = a
    · rw [List.find?_cons, hx, hqa]
    · rw [List.takeWhile_cons_of_pos (by simpa using hx)] at hpassed
      rw [List.find?_cons] at h
      cases hp : p x with
      | true =>
        rw [hp] at h
        exact absurd (Option.some.inj h) hx
      | false =>
        rw [hp] at h
        rw [List.find?_cons, hpassed x List.mem_cons_self hp]
        exact ih h fun y hy => hpassed y (List.mem_cons_of_mem x hy)

end Walk

/-! ## The search -/

section Search

variable (lib : Lib) (dns : Dns) (cacheOnly : Bool) {b : Balancer} {self : ConsistentHashing}
  {handle : Handle} {hashValue : Nat}

/-- The address a search settles on. -/
def settlesOn (b : Balancer) (self : ConsistentHashing) (hashValue fuel index : Nat) :
    Option AddressId :=
  ((lookedAt self.points hashValue fuel index).filterMap self.continuum).find? (selectable b)

theorem settlesOn_succ (fuel : Nat) {index : Nat} (hindex : index ≠ hashValue + 1) :
    settlesOn b self hashValue (fuel + 1) index
      = ((self.continuum (if index = 0 then self.points else index)).filter (selectable b)).or
          (settlesOn b self hashValue fuel ((if index = 0 then self.points else index) - 1)) := by
  rw [settlesOn, lookedAt, if_neg hindex]
  dsimp only
  rw [List.filterMap_cons]
  cases self.continuum (if index = 0 then self.points else index) with
  | none => rfl
  | some a =>
    rw [List.find?_cons]
    cases hselect : selectable b a with
    | true => simp [Option.filter, hselect]
    | false =>
      simp only [Option.filter, hselect]
      rfl

theorem consistentHashingTurn_settled {index : Nat} {a : AddressId}
    (ha : (self.continuum index).filter (selectable b) = some a) (h : Quiet b) (hmade : a < b.made)
    (next : ConsistentHashing → Balancer → Option Outcome) :
    match addressPeer dns (b.address a) with
    | .ok peer => ∃ b', consistentHashingTurn lib dns cacheOnly handle index self b next
        = some (.ok (peer, { handle with address := some a }), b')
    | .error _ => ∀ result b', consistentHashingTurn lib dns cacheOnly handle index self b next
        ≠ some (.ok result, b') := by
  obtain ⟨hindex, hselect⟩ := Option.filter_eq_some_iff.mp ha
  have havailable : (b.address a).available = true := by
    rw [selectable, Bool.and_eq_true] at hselect
    exact hselect.1
  have hpeer := getAddressPeer_fst lib dns h hmade havailable cacheOnly
  rw [selectable] at hselect
  rw [consistentHashingTurn, hindex]
  dsimp only
  rw [if_pos hselect]
  revert hpeer
  generalize getAddressPeer lib dns b a cacheOnly = answer
  obtain ⟨result, b'⟩ := answer
  intro hpeer
  rw [← hpeer]
  cases result with
  | ok peer => exact ⟨b', rfl⟩
  | error err =>
    obtain ⟨hupdated, hunavailable⟩ := addressPeer_error dns hpeer.symm
    intro result b'' hturn
    dsimp only at hturn
    split at hturn
    · rw [if_neg hupdated, if_neg hunavailable] at hturn
      cases hturn
    · cases hturn

theorem consistentHashingTurn_passed {index : Nat}
    (ha : (self.continuum index).filter (selectable b) = none)
    (next : ConsistentHashing → Balancer → Option Outcome) :
    consistentHashingTurn lib dns cacheOnly handle index self b next = next self b := by
  refine consistentHashingTurn_skip ?_ next
  rw [usable]
  cases hindex : self.continuum index with
  | none => rfl
  | some a =>
    rw [hindex] at ha
    have hselect := Option.filter_eq_none_iff.mp ha a rfl
    rw [selectable] at hselect
    exact Bool.eq_false_iff.mpr hselect

/-- The outcome of the loop is the peer of the address it settles on,
if that has one. -/
theorem consistentHashingLoop_settled (h : Quiet b)
    (hknown : ∀ i a, self.continuum i = some a → a < b.made) (fuel index : Nat) :
    (∀ peer handle' b', consistentHashingLoop lib dns cacheOnly handle hashValue fuel index self b
        = some (.ok (peer, handle'), b') →
      ∃ a, settlesOn b self hashValue fuel index = some a
        ∧ addressPeer dns (b.address a) = .ok peer ∧ handle' = { handle with address := some a })
    ∧ ∀ a peer, settlesOn b self hashValue fuel index = some a →
      addressPeer dns (b.address a) = .ok peer →
      ∃ b', consistentHashingLoop lib dns cacheOnly handle hashValue fuel index self b
        = some (.ok (peer, { handle with address := some a }), b') := by
  induction fuel generalizing index with
  | zero =>
    refine ⟨fun peer handle' b' hloop => ?_, fun a peer hsettles => ?_⟩
    · cases hloop
    · cases hsettles
  | succ fuel ih =>
    rw [consistentHashingLoop]
    by_cases hindex : index = hashValue + 1
    · rw [if_pos hindex, settlesOn, lookedAt, if_pos hindex]
      refine ⟨fun peer handle' b' hloop => ?_, fun a peer hsettles => ?_⟩
      · cases hloop
      · cases hsettles
    · rw [if_neg hindex, settlesOn_succ fuel hindex]
      dsimp only
      generalize (if index = 0 then self.points else index) = i
      cases hfilter : (self.continuum i).filter (selectable b) with
      | none =>
        rw [consistentHashingTurn_passed lib dns cacheOnly hfilter, Option.none_or]
        exact ih (i - 1)
      | some a =>
        have hmade := hknown i a (Option.filter_eq_some_iff.mp hfilter).1
        have hturn := @consistentHashingTurn_settled lib dns cacheOnly b self handle i a hfilter h
          hmade (consistentHashingLoop lib dns cacheOnly handle hashValue fuel (i - 1))
        rw [Option.some_or]
        cases hpeer : addressPeer dns (b.address a) with
        | error err =>
          rw [hpeer] at hturn
          refine ⟨fun peer handle' b' hloop => absurd hloop (hturn _ b'), ?_⟩
          intro a' peer hsettles hok
          obtain rfl := Option.some.inj hsettles
          rw [hpeer] at hok
          cases hok
        | ok peer =>
          rw [hpeer] at hturn
          obtain ⟨b'', hturn⟩ := hturn
          rw [hturn]
          refine ⟨fun peer' handle' b' hloop => ⟨a, rfl, ?_, ?_⟩, ?_⟩
          · rw [hpeer]
            cases hloop
            rfl
          · cases hloop
            rfl
          · intro a' peer' hsettles hok
            obtain rfl := Option.some.inj hsettles
            rw [hpeer] at hok
            cases hok
            exact ⟨b'', rfl⟩

end Search

/-! ## The peer of a key -/

/-- The first call for a key. -/
def keyCall (dns : Dns) (fuel : Nat) (cacheOnly : Bool) (key : String) : GetPeer :=
  ⟨dns, fun _ => 0, fuel, cacheOnly, none, some key⟩

/-- An address stands before another one on the walk of a key. -/
def Precedes (lib : Lib) (self : ConsistentHashing) (key : String) (x a : AddressId) : Prop :=
  x ∈ (walk self (getContinuumIndex lib key self.points)).takeWhile fun y => y ≠ a

section Peer

variable (lib : Lib) {b : Balancer} {self : ConsistentHashing}

theorem getPeer_keyCall (hself : b.algorithm = some (.consistentHashing self)) (dns : Dns)
    (fuel : Nat) (cacheOnly : Bool) (key : String) :
    getPeer lib b (keyCall dns fuel cacheOnly key)
      = consistentHashingLoop lib dns cacheOnly
          (startHandle none (getContinuumIndex lib key self.points))
          (getContinuumIndex lib key self.points) fuel (getContinuumIndex lib key self.points)
          self b := by
  rw [getPeer, hself]
  exact consistentHashingGetPeer_eq rfl fuel

theorem setAddressStatus_selectable {x : AddressId} {available : Bool}
    (hset : (x < b.made ∧ (b.address x).target ∈ b.targets)
      ∧ (b.address x).available ≠ available) (y : AddressId) :
    selectable (setAddressStatus lib b x available).2 y
      = if y = x then available && !(b.address x).disabled else selectable b y := by
  rw [setAddressStatus_eq lib hset.1 hset.2]
  dsimp only
  have hrearranged := afterHostUpdate_rearranged lib
    (updateStatus (reprice b x (b.address x).weight available))
  rw [selectable, hrearranged.available, hrearranged.disabled, updateStatus]
  dsimp only
  split
  · rename_i heq
    subst heq
    rw [reprice_self]
  · rename_i hne
    rw [reprice_of_ne b x _ available hne, selectable]

theorem SamePeers.setAddressStatus (b : Balancer) (x : AddressId) (available : Bool) :
    SamePeers b (setAddressStatus lib b x available).2 :=
  setAddressStatus_induction lib (P := SamePeers b) (.refl b) fun _ _ =>
    (SamePeers.reprice b x _ available).trans (.afterHostUpdate lib _)

/-- The search settles on the address it settled on, when the status of
another one changes that does not come before it. -/
theorem settlesOn_setAddressStatus (hpos : 0 < self.points) {key : String} {fuel : Nat}
    {a x : AddressId} (hx : x ≠ a) {available : Bool}
    (hwalk : available = true → ¬ Precedes lib self key x a)
    (hset : (x < b.made ∧ (b.address x).target ∈ b.targets)
      ∧ (b.address x).available ≠ available)
    (hsettles : settlesOn b self (getContinuumIndex lib key self.points) fuel
      (getContinuumIndex lib key self.points) = some a) :
    settlesOn (setAddressStatus lib b x available).2 self
      (getContinuumIndex lib key self.points) fuel (getContinuumIndex lib key self.points)
      = some a := by
  obtain ⟨hlow, hhigh⟩ := @getContinuumIndex_bounds lib key self.points hpos
  refine find?_stable hsettles ?_ fun y hy hpassed => ?_
  · rw [setAddressStatus_selectable lib hset, if_neg (Ne.symm hx)]
    exact List.find?_some hsettles
  · rw [setAddressStatus_selectable lib hset]
    split
    · rename_i heq
      cases available with
      | false => rfl
      | true =>
        refine absurd ?_ (hwalk rfl)
        rw [Precedes, takeWhile_walk hlow hhigh (List.mem_of_find?_eq_some hsettles), ← heq]
        exact hy
    · exact hpassed

theorem getPeer_setAddressStatus (hquiet : Quiet b) (hbuilt : Built lib b) (hdistinct : Distinct b)
    (hself : b.algorithm = some (.consistentHashing self)) (hpos : 0 < self.points) {dns : Dns}
    {fuel : Nat} {cacheOnly : Bool} {key : String} {peer : Peer} {handle : Handle} {b' : Balancer}
    (hget : getPeer lib b (keyCall dns fuel cacheOnly key) = some (.ok (peer, handle), b'))
    {a x : AddressId} (ha : handle.address = some a) (hx : x ≠ a) {available : Bool}
    (hwalk : available = true → ¬ Precedes lib self key x a) :
    ∃ b'', getPeer lib (setAddressStatus lib b x available).2 (keyCall dns fuel cacheOnly key)
      = some (.ok (peer, handle), b'') := by
  by_cases hset : (x < b.made ∧ (b.address x).target ∈ b.targets)
      ∧ (b.address x).available ≠ available
  · have hself' := setAddressStatus_algorithm hbuilt hdistinct hself x available
    have hquiet' := hquiet.setAddressStatus lib x available
    have hknown := hquiet.knows
    have hknown' := hquiet'.knows
    rw [Knows, hself] at hknown
    rw [Knows, hself'] at hknown'
    rw [getPeer_keyCall lib hself] at hget
    rw [getPeer_keyCall lib hself']
    obtain ⟨a', hsettles, hpeer, rfl⟩ :=
      (consistentHashingLoop_settled lib dns cacheOnly hquiet hknown fuel _).1 peer handle b' hget
    obtain rfl : a' = a := Option.some.inj ha
    have hmade : a' < b.made := by
      obtain ⟨i, -, hi⟩ := List.mem_filterMap.mp (List.mem_of_find?_eq_some hsettles)
      exact hknown i a' hi
    refine (consistentHashingLoop_settled lib dns cacheOnly hquiet' hknown' fuel _).2 a' peer
      (settlesOn_setAddressStatus lib hpos hx hwalk hset hsettles) ?_
    rw [(SamePeers.setAddressStatus lib b x available).peer a' hmade dns]
    exact hpeer
  · rw [setAddressStatus_of_not lib hset]
    exact ⟨b', hget⟩

end Peer

/-! ## Whole runs -/

/-- What happens to a balancer once its algorithm hashes. -/
inductive HashingEvent where
  | queryDns (dns : Dns) (t : TargetId)
  | setAddressStatus (a : AddressId) (available : Bool)
  | getPeer (call : GetPeer)

def HashingEvent.event : HashingEvent → Event
  | .queryDns dns t => .queryDns dns t
  | .setAddressStatus a available => .setAddressStatus a available
  | .getPeer call => .getPeer call

/-- A balancer as `create_balancer` makes it: its targets are resolved,
then the algorithm is built. -/
def hashingBalancer (lib : Lib) (b : Balancer) (queries : List (Dns × TargetId))
    (wheelSize : Nat) : Balancer :=
  newAlgorithm lib (.consistentHashing wheelSize)
    (Run.exec (fun b query => queryDns lib query.1 b query.2) b queries)

/-- The balancer after a run. -/
def hashingRun (lib : Lib) (b : Balancer) (queries : List (Dns × TargetId)) (wheelSize : Nat)
    (events : List HashingEvent) : Balancer :=
  Run.exec (fun b event => react lib b event.event) (hashingBalancer lib b queries wheelSize) events

section Runs

variable (lib : Lib) {b : Balancer}

/-- What holds of a balancer that hashes, between the calls. -/
structure Hashing (b : Balancer) : Prop where
  quiet : Quiet b
  hashes : Hashes b
  built : Built lib b

theorem Hashing.queryDns (h : Hashing lib b) (dns : Dns) (t : TargetId) :
    Hashing lib (queryDns lib dns b t) := by
  obtain ⟨hhashes, hbuilt⟩ := queryDns_induction lib (P := fun b => Hashes b ∧ Built lib b)
    (fun _ hstep hP => hstep.built lib hP) dns h.quiet ⟨h.hashes, h.built⟩ (t := t)
  exact ⟨h.quiet.queryDns lib dns t, hhashes, hbuilt⟩

theorem Hashing.setAddressStatus (h : Hashing lib b) (a : AddressId) (available : Bool) :
    Hashing lib (setAddressStatus lib b a available).2 := by
  have hhashes : Hashes (updateStatus (reprice b a (b.address a).weight available)) :=
    h.hashes.of_algorithm rfl
  obtain ⟨hhashes', hbuilt⟩ := @setAddressStatus_induction lib b (fun b => Hashes b ∧ Built lib b) a
    available ⟨h.hashes, h.built⟩ fun _ _ => ⟨hhashes.afterHostUpdate, .afterHostUpdate hhashes⟩
  exact ⟨h.quiet.setAddressStatus lib a available, hhashes', hbuilt⟩

theorem Hashing.getAddressPeer (h : Hashing lib b) (dns : Dns) (a : AddressId) (cacheOnly : Bool) :
    Hashing lib (getAddressPeer lib dns b a cacheOnly).2 := by
  rw [Balancers.getAddressPeer]
  split
  · exact h
  · dsimp only
    split
    · split
      · exact h.queryDns lib dns _
      · exact h.queryDns lib dns _
    · exact h

theorem consistentHashingLoop_keeps (h : Hashing lib b) (dns : Dns) (cacheOnly : Bool)
    {self : ConsistentHashing} {handle : Handle} {hashValue : Nat} (fuel index : Nat)
    {outcome : Outcome}
    (hloop : consistentHashingLoop lib dns cacheOnly handle hashValue fuel index self b
      = some outcome) : Hashing lib outcome.2 := by
  induction fuel generalizing index self b with
  | zero => cases hloop
  | succ fuel ih =>
    rw [consistentHashingLoop] at hloop
    split at hloop
    · cases hloop
      exact h
    · dsimp only at hloop
      rw [consistentHashingTurn] at hloop
      split at hloop
      · exact ih h _ hloop
      · rename_i a _
        have hpeer := h.getAddressPeer lib dns a cacheOnly
        split at hloop
        · split at hloop
          · rename_i hanswer
            rw [hanswer] at hpeer
            cases hloop
            exact hpeer
          · rename_i hanswer
            rw [hanswer] at hpeer
            split at hloop
            · split at hloop
              · split at hloop
                · exact ih hpeer _ hloop
                · cases hloop
                  exact hpeer
              · split at hloop
                · exact ih hpeer _ hloop
                · cases hloop
                  exact hpeer
            · cases hloop
        · exact ih h _ hloop

theorem Hashing.react (h : Hashing lib b) (event : HashingEvent) :
    Hashing lib (react lib b event.event) := by
  cases event with
  | queryDns dns t => exact h.queryDns lib dns t
  | setAddressStatus a available => exact h.setAddressStatus lib a available
  | getPeer call =>
    obtain ⟨self, hself, -⟩ := h.hashes
    show Hashing lib (((Balancers.getPeer lib b call).map Prod.snd).getD b)
    cases hget : Balancers.getPeer lib b call with
    | none => exact h
    | some outcome =>
      rw [Balancers.getPeer, hself] at hget
      dsimp only at hget
      unfold consistentHashingGetPeer at hget
      dsimp only at hget
      split at hget
      · cases hget
      · exact consistentHashingLoop_keeps lib h call.dns call.cacheOnly call.fuel _ hget

theorem hashingRun_hashing {b₀ : Balancer} (hfresh : Fresh b₀) (hnew : b₀.algorithm = none)
    (queries : List (Dns × TargetId)) (wheelSize : Nat) (events : List HashingEvent) :
    Hashing lib (hashingRun lib b₀ queries wheelSize events) := by
  have hquiet : Quiet (Run.exec (fun b query => Balancers.queryDns lib query.1 b query.2) b₀
      queries) :=
    ((Steady.of_fresh hfresh hnew).resolved lib queries).quiet
  have hcreated : Hashing lib (hashingBalancer lib b₀ queries wheelSize) := by
    have hhashes : Hashes { Run.exec (fun b query => Balancers.queryDns lib query.1 b query.2) b₀
        queries with algorithm := some (AlgorithmType.consistentHashing wheelSize).empty } := by
      refine ⟨_, rfl, ?_⟩
      dsimp only
      split
      · rename_i hsize
        exact Nat.lt_of_lt_of_le (by decide) hsize.1
      · decide
    exact ⟨hquiet.newAlgorithm lib _, hhashes.afterHostUpdate, .afterHostUpdate hhashes⟩
  exact Run.exec_invariant (fun b event (hb : Hashing lib b) => hb.react lib event) hcreated events

end Runs

/-- In every state a hashing balancer gets to in which no two targets
have one name and port and no two addresses of a target one ip and port,
the peer of a key outlives every status change of another address,
unless this is available again and stands before it on the walk. -/
theorem peer_stable (lib : Lib) {b₀ : Balancer} (hfresh : Fresh b₀) (hnew : b₀.algorithm = none)
    (queries : List (Dns × TargetId)) (wheelSize : Nat) (events : List HashingEvent)
    {self : ConsistentHashing}
    (hself : (hashingRun lib b₀ queries wheelSize events).algorithm = some (.consistentHashing self))
    (hdistinct : Distinct (hashingRun lib b₀ queries wheelSize events)) {dns : Dns} {fuel : Nat}
    {cacheOnly : Bool} {key : String} {peer : Peer} {handle : Handle} {b' : Balancer}
    (hget : getPeer lib (hashingRun lib b₀ queries wheelSize events)
      (keyCall dns fuel cacheOnly key) = some (.ok (peer, handle), b'))
    {a x : AddressId} (ha : handle.address = some a) (hx : x ≠ a) {available : Bool}
    (hwalk : available = true → ¬ Precedes lib self key x a) :
    ∃ b'', getPeer lib
        (setAddressStatus lib (hashingRun lib b₀ queries wheelSize events) x available).2
        (keyCall dns fuel cacheOnly key)
      = some (.ok (peer, handle), b'') := by
  have hhashing := hashingRun_hashing lib hfresh hnew queries wheelSize events
  obtain ⟨self', hself', hpos⟩ := hhashing.hashes
  rw [hself] at hself'
  obtain rfl := Algorithm.consistentHashing.inj (Option.some.inj hself')
  exact getPeer_setAddressStatus lib hhashing.quiet hhashing.built hdistinct hself hpos hget ha hx
    hwalk

/-! ## A continuum in full

With a hash function that gives the number at the end of a name, an
address takes the next free indices from 2 on. -/

def trailingNumber (s : String) : Nat :=
  Nat.ofDigitChars 10 (s.toList.reverse.takeWhile fun c => c ≠ ' ').reverse 0

def countingLib (tables : TableSort) : Lib :=
  { Lib.plain with tables := tables, xxhash32 := trailingNumber }

theorem trailingNumber_append (s : String) (n : Nat) :
    trailingNumber (s ++ " " ++ toString n) = n := by
  have hdigits : (toString n).toList = Nat.toDigits 10 n := Nat.toList_repr
  have hspace : ∀ c ∈ (Nat.toDigits 10 n).reverse, decide (c ≠ ' ') = true := by
    intro c hc
    have hdigit := Nat.isDigit_of_mem_toDigits (by decide) (by decide) (List.mem_reverse.mp hc)
    refine decide_eq_true ?_
    rintro rfl
    exact absurd hdigit (by decide)
  have hsep : (" ").toList.reverse = [' '] := rfl
  rw [trailingNumber, String.toList_append, String.toList_append, hdigits, List.reverse_append,
    List.reverse_append, List.takeWhile_append_of_pos hspace, hsep, List.cons_append,
    List.takeWhile_cons_of_neg (by decide), List.append_nil, List.reverse_reverse]
  exact Nat.ofDigitChars_ten_toDigits

section Counting

variable (tables : TableSort) (b : Balancer)

theorem tryIndex_counting (a : AddressId) {k : Nat} (hk : k < 1000) :
    tryIndex (countingLib tables) 1000 (labelOf b a) k = k + 1 := by
  have hhash : (countingLib tables).xxhash32 (labelOf b a ++ toString k) = k :=
    trailingNumber_append ((b.address a).ip ++ ":" ++ (":" ++ toString (b.address a).port)) k
  rw [tryIndex, getContinuumIndex, hhash, Nat.mod_eq_of_lt hk]

/-- The indices from 2 up to `next` are taken. -/
def TakenUpTo (next : Nat) (continuum : Nat → Option AddressId) : Prop :=
  ∀ i, (continuum i).isNone = true ↔ ¬ (2 ≤ i ∧ i < next)

/-- `n` indices from `next` on. -/
def fill (continuum : Nat → Option AddressId) (next : Nat) (a : AddressId) (n : Nat) :
    Nat → Option AddressId := fun i =>
  if next ≤ i ∧ i < next + n then some a else continuum i

theorem freeIndices_counting {continuum : Nat → Option AddressId} {next : Nat}
    (htaken : TakenUpTo next continuum) (hnext : 2 ≤ next) (a : AddressId) {k : Nat} (hk : k < 1000) :
    freeIndices (countingLib tables) 1000 (labelOf b a) continuum k = Ico next (k + 2) := by
  ext i
  rw [freeIndices, mem_filter, mem_image, mem_Ico, htaken]
  constructor
  · rintro ⟨⟨j, hj, rfl⟩, hfree⟩
    rw [mem_range] at hj
    rw [tryIndex_counting tables b a (by omega)] at hfree ⊢
    omega
  · rintro ⟨hlow, hhigh⟩
    refine ⟨⟨i - 2, mem_range.mpr (by omega), ?_⟩, by omega⟩
    rw [tryIndex_counting tables b a (by omega)]
    omega

theorem placeNext_counting {continuum : Nat → Option AddressId} {next : Nat}
    (htaken : TakenUpTo next continuum) (hnext : 2 ≤ next) {a : AddressId} {n : Nat}
    (hn : pointsOf (countingLib tables) b a = n) (hpos : 0 < n) (hroom : next + n ≤ 1001) :
    placeNext (countingLib tables) b 1000 continuum a = some (fill continuum next a n)
      ∧ TakenUpTo (next + n) (fill continuum next a n) := by
  constructor
  · have henough : pointsOf (countingLib tables) b a
        ≤ #(freeIndices (countingLib tables) 1000 (labelOf b a) continuum (1000 - 1)) := by
      rw [freeIndices_counting tables b htaken hnext a (by omega), Nat.card_Ico, hn]
      omega
    obtain ⟨m, hm, hcount, hplace⟩ := placeAddress_enough a henough
    rw [freeIndices_counting tables b htaken hnext a (by omega), Nat.card_Ico, hn] at hcount
    obtain rfl : m = next + n - 2 := by omega
    rw [placeNext, hplace]
    congr 1
    funext i
    rw [taken, fill, freeIndices_counting tables b htaken hnext a (by omega)]
    have hend : next + n - 2 + 2 = next + n := by omega
    simp only [mem_Ico, hend]
  · intro i
    rw [fill]
    split
    · simp
      omega
    · rw [htaken]
      omega

/-- The continuum of addresses that ask for so many points each. -/
def countingRing : List (AddressId × Nat) → Nat → (Nat → Option AddressId) → Nat → Option AddressId
  | [], _, continuum => continuum
  | (a, n) :: rest, next, continuum => countingRing rest (next + n) (fill continuum next a n)

theorem foldlM_counting (as : List AddressId) {entries : List (AddressId × Nat)}
    (hentries : as.map (fun a => (a, pointsOf (countingLib tables) b a)) = entries)
    (hpos : ∀ entry ∈ entries, 0 < entry.2) {next : Nat} (hnext : 2 ≤ next)
    (hroom : next + (entries.map Prod.snd).sum ≤ 1001) {continuum : Nat → Option AddressId}
    (htaken : TakenUpTo next continuum) :
    as.foldlM (placeNext (countingLib tables) b 1000) continuum
      = some (countingRing entries next continuum) := by
  subst hentries
  induction as generalizing next continuum with
  | nil => rfl
  | cons a rest ih =>
    rw [List.map_cons, List.map_cons, List.sum_cons] at hroom
    rw [List.map_cons] at hpos
    obtain ⟨hplace, htaken'⟩ := placeNext_counting tables b htaken hnext rfl
      (hpos _ List.mem_cons_self) (by omega)
    rw [List.foldlM_cons, hplace]
    exact ih (by omega) htaken' (fun entry hentry => hpos entry (List.mem_cons_of_mem _ hentry))
      (by omega)

theorem newContinuum_counting {entries : List (AddressId × Nat)}
    (hentries : b.allAddresses.map (fun a => (a, pointsOf (countingLib tables) b a)) = entries)
    (hpos : ∀ entry ∈ entries, 0 < entry.2) (hroom : (entries.map Prod.snd).sum ≤ 999) :
    newContinuum (countingLib tables) b 1000 = some (countingRing entries 2 fun _ => none) := by
  rw [newContinuum_eq]
  refine foldlM_counting tables b _ hentries hpos (Nat.le_refl 2) (by omega) fun i => ?_
  -- no index is taken before the first one
  exact ⟨fun _ h => absurd h.2 (Nat.not_lt.mpr h.1), fun _ => rfl⟩

theorem afterHostUpdate_counting {b : Balancer} {self : ConsistentHashing}
    (hself : b.algorithm = some (.consistentHashing self)) (hpoints : self.points = 1000)
    {entries : List (AddressId × Nat)}
    (hentries : (sortHostsAndAddresses (countingLib tables) b).allAddresses.map
      (fun a => (a, pointsOf (countingLib tables) (sortHostsAndAddresses (countingLib tables) b) a))
      = entries)
    (hpos : ∀ entry ∈ entries, 0 < entry.2) (hroom : (entries.map Prod.snd).sum ≤ 999) :
    afterHostUpdate (countingLib tables) b
      = { sortHostsAndAddresses (countingLib tables) b with
          algorithm := some (.consistentHashing ⟨1000, countingRing entries 2 fun _ => none⟩) } := by
  have hnew := newContinuum_counting tables _ hentries hpos hroom
  obtain ⟨points, continuum⟩ := self
  obtain rfl : points = 1000 := hpoints
  rw [afterHostUpdate_hashing hself, consistentHashingAfterHostUpdate]
  dsimp only
  rw [hnew]

end Counting

theorem thousand_empty : (AlgorithmType.consistentHashing 1000).empty
    = .consistentHashing ⟨1000, fun _ => none⟩ := by
  rw [AlgorithmType.empty, if_pos (by decide)]

/-- A client with one answer, that does not expire soon. -/
def answering (entries : List Entry) : Dns where
  now := 0
  resolve := fun _ => .ok (.answer ⟨entries, 600000, false⟩)
  toip := fun ip port => .ok (ip, port)

/-! ### Two addresses with one ip and port -/

/-- Of four values in order the middle two are exchanged if they are
equivalent: so does a quicksort that takes the second one as pivot. -/
def swapMiddle {α : Type} (lt : α → α → Bool) : List α → List α
  | [w, x, y, z] => if lt x y || lt y x then [w, x, y, z] else [w, y, x, z]
  | l => l

/-- A sort that is not stable. -/
def swappingTable : TableSort where
  sort := fun lt l => swapMiddle lt (insertionSort lt l)
  perm := by
    intro α lt l
    refine List.Perm.trans ?_ (insertionSort_perm lt l)
    generalize insertionSort lt l = sorted
    rw [swapMiddle.eq_def]
    split
    · split
      · exact .refl _
      · exact .cons _ (.swap _ _ _)
    · exact .refl _
  sorted := by
    intro α lt l h
    have hsorted := insertionSort_sorted h
    revert hsorted
    generalize insertionSort lt l = sorted
    intro hsorted
    rw [swapMiddle.eq_def]
    split
    · split
      · exact hsorted
      · rename_i hmiddle
        simp only [Bool.or_eq_true, not_or, Bool.not_eq_true] at hmiddle
        simp only [List.pairwise_cons, List.mem_cons, forall_eq_or_imp, List.not_mem_nil]
          at hsorted ⊢
        simp_all
    · exact hsorted

abbrev swappingLib : Lib := countingLib swappingTable

/-- Four records, two of them with one target and port. -/
def doubleRecord : Dns :=
  answering [.srv "a.example" 80 65535 1 600, .srv "b.example" 80 1 1 600,
    .srv "b.example" 80 2 1 600, .srv "c.example" 80 1 1 600]

def doubleResolved : Balancer := queryDns swappingLib doubleRecord (emptyBalancer none) 0

/-- The balancer as it is made. -/
def doubled : Balancer :=
  { sortHostsAndAddresses swappingLib doubleResolved with
    algorithm := some (.consistentHashing
      ⟨1000, countingRing [(0, 159), (2, 1), (1, 1), (3, 1)] 2 fun _ => none⟩) }

theorem hashingBalancer_doubled :
    hashingBalancer swappingLib (emptyBalancer none) [(doubleRecord, 0)] 1000 = doubled := by
  have hbuilt := @afterHostUpdate_counting swappingTable
    { doubleResolved with algorithm := some (.consistentHashing ⟨1000, fun _ => none⟩) }
    ⟨1000, fun _ => none⟩ rfl rfl [(0, 159), (2, 1), (1, 1), (3, 1)] (by decide) (by decide)
    (by decide)
  rw [hashingBalancer, Run.exec_cons, Run.exec_nil, newAlgorithm, thousand_empty]
  exact hbuilt

/-- The balancer once one of the two has failed: they have changed
places. -/
def doubledFailed : Balancer :=
  { sortHostsAndAddresses swappingLib (updateStatus (reprice doubled 1 2 false)) with
    algorithm := some (.consistentHashing
      ⟨1000, countingRing [(0, 159), (1, 1), (2, 1), (3, 1)] 2 fun _ => none⟩) }

theorem setAddressStatus_doubled :
    (setAddressStatus swappingLib doubled 1 false).2 = doubledFailed := by
  have hweight : (doubled.address 1).weight = 2 := by decide
  have hself : (updateStatus (reprice doubled 1 2 false)).algorithm
      = some (.consistentHashing
        ⟨1000, countingRing [(0, 159), (2, 1), (1, 1), (3, 1)] 2 fun _ => none⟩) := rfl
  have hbuilt := @afterHostUpdate_counting swappingTable _ _ hself rfl
    [(0, 159), (1, 1), (2, 1), (3, 1)] (by decide) (by decide) (by decide)
  rw [setAddressStatus_eq swappingLib (by decide) (by decide), hweight]
  dsimp only
  rw [hbuilt, doubledFailed]

/-- One of the two addresses fails, and the key of the other one gets
another peer. -/
theorem peer_moves_with_double_record :
    Fresh (emptyBalancer none) ∧ (emptyBalancer none).algorithm.isNone
      ∧ ∃ peer peer' handle handle' b' b'',
        getPeer swappingLib
            (hashingRun swappingLib (emptyBalancer none) [(doubleRecord, 0)] 1000 [])
            (keyCall doubleRecord 3 false "160") = some (.ok (peer, handle), b')
          ∧ handle.address = some 2
          ∧ getPeer swappingLib
            (setAddressStatus swappingLib
              (hashingRun swappingLib (emptyBalancer none) [(doubleRecord, 0)] 1000 []) 1 false).2
            (keyCall doubleRecord 3 false "160") = some (.ok (peer', handle'), b'')
          ∧ peer' ≠ peer := by
  rw [hashingRun, Run.exec_nil, hashingBalancer_doubled, setAddressStatus_doubled]
  refine ⟨emptyBalancer_fresh none, rfl, ⟨"b.example", 80, some "example.com"⟩,
    ⟨"a.example", 80, some "example.com"⟩, ⟨0, some 2, some 161, none⟩, ⟨0, some 0, some 161, none⟩,
    _, _, rfl, rfl, rfl, by decide⟩

/-! ### Two addresses -/

def twoRecords : Dns := answering [.a "10.0.0.1" 600, .a "10.0.0.2" 600]

abbrev stableLib : Lib := countingLib insertionTable

def twoResolved : Balancer := queryDns stableLib twoRecords (emptyBalancer none) 0

def twoRing : ConsistentHashing := ⟨1000, countingRing [(0, 80), (1, 80)] 2 fun _ => none⟩

def twoHashed : Balancer :=
  { sortHostsAndAddresses stableLib twoResolved with
    algorithm := some (.consistentHashing twoRing) }

theorem hashingBalancer_two :
    hashingBalancer stableLib (emptyBalancer none) [(twoRecords, 0)] 1000 = twoHashed := by
  have hbuilt := @afterHostUpdate_counting insertionTable
    { twoResolved with algorithm := some (.consistentHashing ⟨1000, fun _ => none⟩) }
    ⟨1000, fun _ => none⟩ rfl rfl [(0, 80), (1, 80)] (by decide) (by decide) (by decide)
  rw [hashingBalancer, Run.exec_cons, Run.exec_nil, newAlgorithm, thousand_empty]
  exact hbuilt

theorem twoHashed_distinct : Distinct twoHashed := by
  refine ⟨by decide, fun t ht => ?_⟩
  obtain rfl : t = 0 := List.mem_singleton.mp (ht : t ∈ [0])
  decide

theorem peer_stable_two_addresses :
    ∃ peer handle b' b'',
      getPeer stableLib (hashingRun stableLib (emptyBalancer none) [(twoRecords, 0)] 1000 [])
          (keyCall twoRecords 3 false "40") = some (.ok (peer, handle), b')
        ∧ handle.address = some 0
        ∧ getPeer stableLib
          (setAddressStatus stableLib
            (hashingRun stableLib (emptyBalancer none) [(twoRecords, 0)] 1000 []) 1 false).2
          (keyCall twoRecords 3 false "40") = some (.ok (peer, handle), b'') := by
  have hrun : hashingRun stableLib (emptyBalancer none) [(twoRecords, 0)] 1000 [] = twoHashed := by
    rw [hashingRun, Run.exec_nil, hashingBalancer_two]
  obtain ⟨b', hget⟩ : ∃ b', getPeer stableLib
      (hashingRun stableLib (emptyBalancer none) [(twoRecords, 0)] 1000 [])
      (keyCall twoRecords 3 false "40")
        = some (.ok (⟨"10.0.0.1", 80, some "example.com"⟩, ⟨0, some 0, some 41, none⟩), b') := by
    rw [hrun]
    exact ⟨_, rfl⟩
  have hself : (hashingRun stableLib (emptyBalancer none) [(twoRecords, 0)] 1000 []).algorithm
      = some (.consistentHashing twoRing) := by
    rw [hrun]
    rfl
  have hdistinct : Distinct
      (hashingRun stableLib (emptyBalancer none) [(twoRecords, 0)] 1000 []) := by
    rw [hrun]
    exact twoHashed_distinct
  obtain ⟨b'', hstable⟩ := @peer_stable stableLib (emptyBalancer none) (emptyBalancer_fresh none) rfl
    [(twoRecords, 0)] 1000 [] twoRing hself hdistinct twoRecords 3 false "40" _ _ b' hget 0 1 rfl
    (by decide) false fun h => nomatch h
  exact ⟨_, _, b', b'', hget, rfl, hstable⟩

end KongGateway.Kong.Balancers

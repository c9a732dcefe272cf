import KongGateway.Kong.Balancers.Peers

/-!
# ConsistentHashing — how much of the ring `getPeer` searches

The loop starts at the hashed index and counts down, from 0 back to the
top. It ends when the index one above the hashed one is reached, before
that index is looked at; from the top two hashed indices it never gets
there. The statements are about the first usable index of the whole
ring in the direction of the loop.
-/

namespace KongGateway.Kong.Balancers

/-! ## The ring -/

/-- `n` indices from `top` downwards. -/
def downFrom : Nat → Nat → List Nat
  | _, 0 => []
  | top, n + 1 => top :: downFrom (top - 1) n

/-- The whole ring, counter-clockwise from the hashed index. -/
def ringFrom (points hashValue : Nat) : List Nat :=
  downFrom hashValue hashValue ++ downFrom points (points - hashValue)

theorem mem_downFrom {i top n : Nat} (hn : n ≤ top) :
    i ∈ downFrom top n ↔ top - n < i ∧ i ≤ top := by
  induction n generalizing top with
  | zero =>
    simp only [downFrom, List.not_mem_nil, false_iff]
    omega
  | succ n ih =>
    rw [downFrom, List.mem_cons, ih (by omega)]
    omega

theorem downFrom_succ_last (top n : Nat) :
    downFrom top (n + 1) = downFrom top n ++ [top - n] := by
  induction n generalizing top with
  | zero => rfl
  | succ n ih =>
    rw [downFrom, ih, downFrom, List.cons_append]
    congr 3
    omega

/-- An index whose address may be handed out. -/
def usable (self : ConsistentHashing) (b : Balancer) (index : Nat) : Bool :=
  match self.continuum index with
  | none => false
  | some a => (b.address a).available && !(b.address a).disabled

/-- The address of the first usable index of the ring. -/
def firstUsable (self : ConsistentHashing) (b : Balancer) (hashValue : Nat) : Option Nat :=
  (ringFrom self.points hashValue).find? (usable self b)

/-- The hash value a call works with. -/
def hashValueOf (lib : Lib) (self : ConsistentHashing) (handle : Option Handle)
    (valueToHash : Option String) : Option Nat :=
  match handle.bind Handle.hashValue with
  | some hashValue => some hashValue
  | none => valueToHash.map fun value => getContinuumIndex lib value self.points

/-- The handle a call works with. -/
def startHandle (handle : Option Handle) (hashValue : Nat) : Handle :=
  { (match handle with
      | some handle => { handle with retryCount := handle.retryCount + 1 }
      | none => Handle.new) with hashValue := some hashValue }

section Search

variable (lib : Lib) (dns : Dns) (self : ConsistentHashing) (b : Balancer) (cacheOnly : Bool)

/-- Handing out the address at an index. -/
def handOut (handle : Handle) (index : Nat) : Outcome :=
  match self.continuum index with
  | none => (.error errNoPeersAvailable, b)
  | some a =>
    match getAddressPeer lib dns b a cacheOnly with
    | (.ok peer, b') => (.ok (peer, { handle with address := some a }), b')
    | (.error err, b') => (.error err, b')

/-- What a complete search returns. -/
def searchResult (handle : Handle) (hashValue : Nat) : Outcome :=
  match firstUsable self b hashValue with
  | some index => handOut lib dns self b cacheOnly handle index
  | none => (.error errNoPeersAvailable, b)

/-- The call returns, with what a search of the whole ring finds. -/
def SearchesWholeRing (handle : Option Handle) (valueToHash : Option String)
    (hashValue : Nat) : Prop :=
  ∃ turns, ∀ fuel ≥ turns,
    consistentHashingGetPeer lib dns fuel self b cacheOnly handle valueToHash
      = some (searchResult lib dns self b cacheOnly (startHandle handle hashValue) hashValue)

/-- Every available address resolves to a peer. -/
def AddressesResolve : Prop :=
  ∀ a, (b.address a).available = true →
    ∃ peer b', getAddressPeer lib dns b a cacheOnly = (.ok peer, b')

variable {lib dns self b cacheOnly} {handle : Handle} {hashValue : Nat}

theorem getContinuumIndex_bounds (value : String) {points : Nat} (hpoints : 0 < points) :
    1 ≤ getContinuumIndex lib value points ∧ getContinuumIndex lib value points ≤ points := by
  have := Nat.mod_lt (lib.xxhash32 value) hpoints
  rw [getContinuumIndex]
  omega

/-! ## One turn of the loop -/

theorem consistentHashingTurn_skip {index : Nat} (hskip : usable self b index = false)
    (next : ConsistentHashing → Balancer → Option Outcome) :
    consistentHashingTurn lib dns cacheOnly handle index self b next = next self b := by
  rw [usable] at hskip
  rw [consistentHashingTurn]
  split <;> rename_i ha
  · rfl
  · rw [ha] at hskip
    rw [if_neg (by simpa using hskip)]

theorem consistentHashingTurn_found (hres : AddressesResolve lib dns b cacheOnly) {index : Nat}
    (hfound : usable self b index = true)
    (next : ConsistentHashing → Balancer → Option Outcome) :
    consistentHashingTurn lib dns cacheOnly handle index self b next
      = some (handOut lib dns self b cacheOnly handle index) := by
  rw [usable] at hfound
  rw [consistentHashingTurn, handOut]
  cases ha : self.continuum index with
  | none =>
    rw [ha] at hfound
    cases hfound
  | some a =>
    rw [ha] at hfound
    have havailable : (b.address a).available = true := by
      simp only [Bool.and_eq_true] at hfound
      exact hfound.1
    obtain ⟨peer, b', hpeer⟩ := hres a havailable
    simp only [hpeer]
    rw [if_pos hfound]

theorem consistentHashingLoop_stop (fuel : Nat) :
    consistentHashingLoop lib dns cacheOnly handle hashValue (fuel + 1) (hashValue + 1) self b
      = some (.error errNoPeersAvailable, b) := by
  rw [consistentHashingLoop, if_pos rfl]

theorem consistentHashingLoop_turn {index : Nat} (hpos : 1 ≤ index) (hstop : index ≠ hashValue + 1)
    (fuel : Nat) :
    consistentHashingLoop lib dns cacheOnly handle hashValue (fuel + 1) index self b
      = consistentHashingTurn lib dns cacheOnly handle index self b
          (consistentHashingLoop lib dns cacheOnly handle hashValue fuel (index - 1)) := by
  rw [consistentHashingLoop, if_neg hstop]
  simp only [if_neg (Nat.ne_of_gt hpos)]

/-- At 0 the loop is at the top, which it looks at even where it would
stop. -/
theorem consistentHashingLoop_wrap (fuel : Nat) :
    consistentHashingLoop lib dns cacheOnly handle hashValue (fuel + 1) 0 self b
      = consistentHashingTurn lib dns cacheOnly handle self.points self b
          (consistentHashingLoop lib dns cacheOnly handle hashValue fuel (self.points - 1)) := by
  rw [consistentHashingLoop, if_neg (by omega)]
  simp only [if_true]

/-! ## Runs of the loop -/

theorem consistentHashingLoop_downFrom (hres : AddressesResolve lib dns b cacheOnly)
    {top n : Nat} (hn : n ≤ top) (hstop : hashValue + 1 ∉ downFrom top n) (fuel : Nat) :
    consistentHashingLoop lib dns cacheOnly handle hashValue (fuel + n) top self b
      = match (downFrom top n).find? (usable self b) with
        | some index => some (handOut lib dns self b cacheOnly handle index)
        | none =>
          consistentHashingLoop lib dns cacheOnly handle hashValue fuel (top - n) self b := by
  induction n generalizing top with
  | zero => rfl
  | succ n ih =>
    rw [downFrom, List.mem_cons, not_or] at hstop
    rw [downFrom, List.find?_cons, ← Nat.add_assoc]
    rw [consistentHashingLoop_turn (by omega) (Ne.symm hstop.1)]
    cases husable : usable self b top with
    | true => exact consistentHashingTurn_found hres husable _
    | false =>
      rw [consistentHashingTurn_skip husable, ih (by omega) hstop.2, Nat.sub_sub,
        Nat.add_comm 1 n]

/-- With the hashed index among the top two and nothing usable, the
loop goes round for ever. -/
theorem consistentHashingLoop_endless (hpoints : 1 ≤ self.points)
    (htop : self.points ≤ hashValue + 1)
    (hnone : ∀ i, 1 ≤ i → i ≤ self.points → usable self b i = false) (fuel : Nat) :
    ∀ index ≤ hashValue, index ≤ self.points →
      consistentHashingLoop lib dns cacheOnly handle hashValue fuel index self b = none := by
  induction fuel with
  | zero =>
    intro index _ _
    rfl
  | succ fuel ih =>
    intro index hindex hle
    rcases Nat.eq_zero_or_pos index with rfl | hpos
    · rw [consistentHashingLoop_wrap,
        consistentHashingTurn_skip (hnone _ hpoints (Nat.le_refl _))]
      exact ih _ (by omega) (by omega)
    · rw [consistentHashingLoop_turn hpos (by omega),
        consistentHashingTurn_skip (hnone index hpos hle)]
      exact ih _ (by omega) (by omega)

/-! ## The whole call -/

theorem consistentHashingGetPeer_none {handle : Option Handle} {valueToHash : Option String}
    (hvalue : hashValueOf lib self handle valueToHash = none) (fuel : Nat) :
    consistentHashingGetPeer lib dns fuel self b cacheOnly handle valueToHash = none := by
  cases handle with
  | none =>
    rw [hashValueOf, Option.bind_none] at hvalue
    simp only [consistentHashingGetPeer, Handle.new, hvalue]
  | some handle =>
    rw [hashValueOf, Option.bind_some] at hvalue
    cases hhash : handle.hashValue with
    | none =>
      rw [hhash] at hvalue
      simp only [consistentHashingGetPeer, hhash, hvalue]
    | some kept =>
      rw [hhash] at hvalue
      cases hvalue

theorem consistentHashingGetPeer_eq {handle : Option Handle} {valueToHash : Option String}
    (hvalue : hashValueOf lib self handle valueToHash = some hashValue) (fuel : Nat) :
    consistentHashingGetPeer lib dns fuel self b cacheOnly handle valueToHash
      = consistentHashingLoop lib dns cacheOnly (startHandle handle hashValue) hashValue fuel
          hashValue self b := by
  cases handle with
  | none =>
    rw [hashValueOf, Option.bind_none] at hvalue
    simp only [consistentHashingGetPeer, Handle.new, hvalue, startHandle]
  | some handle =>
    rw [hashValueOf, Option.bind_some] at hvalue
    cases hhash : handle.hashValue with
    | none =>
      rw [hhash] at hvalue
      simp only [consistentHashingGetPeer, hhash, hvalue, startHandle]
    | some kept =>
      rw [hhash] at hvalue
      obtain rfl : kept = hashValue := Option.some.inj hvalue
      simp only [consistentHashingGetPeer, hhash, startHandle]

theorem consistentHashingLoop_lower (hres : AddressesResolve lib dns b cacheOnly) (fuel : Nat) :
    consistentHashingLoop lib dns cacheOnly handle hashValue (fuel + hashValue) hashValue self b
      = match (downFrom hashValue hashValue).find? (usable self b) with
        | some index => some (handOut lib dns self b cacheOnly handle index)
        | none => consistentHashingLoop lib dns cacheOnly handle hashValue fuel 0 self b := by
  rw [consistentHashingLoop_downFrom hres (Nat.le_refl _), Nat.sub_self]
  rw [mem_downFrom (Nat.le_refl _)]
  omega

theorem consistentHashingLoop_upper (hres : AddressesResolve lib dns b cacheOnly)
    (hroom : hashValue + 2 ≤ self.points) (fuel : Nat) :
    consistentHashingLoop lib dns cacheOnly handle hashValue
        (fuel + 1 + (self.points - hashValue - 1)) 0 self b
      = match (downFrom self.points (self.points - hashValue - 1)).find? (usable self b) with
        | some index => some (handOut lib dns self b cacheOnly handle index)
        | none => some (.error errNoPeersAvailable, b) := by
  have htop : consistentHashingLoop lib dns cacheOnly handle hashValue
        (fuel + 1 + (self.points - hashValue - 1)) 0 self b
      = consistentHashingLoop lib dns cacheOnly handle hashValue
        (fuel + 1 + (self.points - hashValue - 1)) self.points self b := by
    rw [Nat.add_right_comm, consistentHashingLoop_wrap, consistentHashingLoop_turn (by omega)]
    omega
  have hend : self.points - (self.points - hashValue - 1) = hashValue + 1 := by omega
  have hstop : hashValue + 1 ∉ downFrom self.points (self.points - hashValue - 1) := by
    rw [mem_downFrom (by omega)]
    omega
  rw [htop, consistentHashingLoop_downFrom hres (by omega) hstop, hend, consistentHashingLoop_stop]

/-- The indices the loop looks at: all of the ring but the last. -/
def visited (points hashValue : Nat) : List Nat :=
  downFrom hashValue hashValue ++ downFrom points (points - hashValue - 1)

theorem ringFrom_eq {points : Nat} (h : hashValue + 1 ≤ points) :
    ringFrom points hashValue = visited points hashValue ++ [hashValue + 1] := by
  have hlen : points - hashValue = points - hashValue - 1 + 1 := by omega
  have hlast : points - (points - hashValue - 1) = hashValue + 1 := by omega
  rw [ringFrom, hlen, downFrom_succ_last, hlast, visited, List.append_assoc]

theorem mem_visited {points i : Nat} (h : hashValue + 1 ≤ points) :
    i ∈ visited points hashValue ↔ 1 ≤ i ∧ i ≤ points ∧ i ≠ hashValue + 1 := by
  rw [visited, List.mem_append, mem_downFrom (Nat.le_refl _), mem_downFrom (by omega)]
  omega

theorem handOut_ok (hres : AddressesResolve lib dns b cacheOnly) {index : Nat}
    (hfound : usable self b index = true) :
    ∃ result b', handOut lib dns self b cacheOnly handle index = (.ok result, b') := by
  rw [usable] at hfound
  cases ha : self.continuum index with
  | none =>
    rw [ha] at hfound
    cases hfound
  | some a =>
    rw [ha] at hfound
    simp only [Bool.and_eq_true] at hfound
    obtain ⟨peer, b', hpeer⟩ := hres a hfound.1
    refine ⟨(peer, { handle with address := some a }), b', ?_⟩
    rw [handOut, ha]
    simp only [hpeer]

section Call

variable {handle : Option Handle} {valueToHash : Option String}

/-- A call with room above the hashed index returns within one turn per
point. -/
theorem consistentHashingGetPeer_of_room (hres : AddressesResolve lib dns b cacheOnly)
    (hvalue : hashValueOf lib self handle valueToHash = some hashValue)
    (hroom : hashValue + 2 ≤ self.points) {fuel : Nat} (hfuel : self.points ≤ fuel) :
    consistentHashingGetPeer lib dns fuel self b cacheOnly handle valueToHash
      = match (visited self.points hashValue).find? (usable self b) with
        | some index =>
          some (handOut lib dns self b cacheOnly (startHandle handle hashValue) index)
        | none => some (.error errNoPeersAvailable, b) := by
  obtain ⟨extra, rfl⟩ : ∃ extra, fuel = extra + 1 + (self.points - hashValue - 1) + hashValue :=
    ⟨fuel - self.points, by omega⟩
  rw [consistentHashingGetPeer_eq hvalue, consistentHashingLoop_lower hres,
    consistentHashingLoop_upper hres hroom, visited, List.find?_append]
  cases (downFrom hashValue hashValue).find? (usable self b) <;> rfl

theorem firstUsable_eq (h : hashValue + 1 ≤ self.points) :
    firstUsable self b hashValue
      = ((visited self.points hashValue).find? (usable self b)).or
          ([hashValue + 1].find? (usable self b)) := by
  rw [firstUsable, ringFrom_eq h, List.find?_append]

theorem searchesWholeRing_iff_of_room (hres : AddressesResolve lib dns b cacheOnly)
    (hvalue : hashValueOf lib self handle valueToHash = some hashValue)
    (hroom : hashValue + 2 ≤ self.points) :
    SearchesWholeRing lib dns self b cacheOnly handle valueToHash hashValue
      ↔ ¬ (usable self b (hashValue + 1) = true
          ∧ ∀ i, 1 ≤ i → i ≤ self.points → usable self b i = true → i = hashValue + 1) := by
  have hring : hashValue + 1 ≤ self.points := by omega
  rw [SearchesWholeRing, searchResult, firstUsable_eq hring]
  cases hvisited : (visited self.points hashValue).find? (usable self b) with
  | some index =>
    refine iff_of_true ⟨self.points, fun fuel hfuel => ?_⟩ ?_
    · rw [consistentHashingGetPeer_of_room hres hvalue hroom hfuel, hvisited]
      rfl
    · rintro ⟨-, honly⟩
      obtain ⟨h1, h2, hne⟩ := (mem_visited hring).mp (List.mem_of_find?_eq_some hvisited)
      exact hne (honly index h1 h2 (List.find?_some hvisited))
  | none =>
    cases hlast : usable self b (hashValue + 1) with
    | false =>
      refine iff_of_true ⟨self.points, fun fuel hfuel => ?_⟩ (by simp)
      rw [consistentHashingGetPeer_of_room hres hvalue hroom hfuel, hvisited]
      simp [hlast]
    | true =>
      refine iff_of_false ?_ (not_not.mpr ⟨rfl, fun i h1 h2 husable => ?_⟩)
      · rintro ⟨turns, hturns⟩
        have hret := hturns (turns + self.points) (by omega)
        obtain ⟨result, b', hok⟩ : ∃ result b',
            handOut lib dns self b cacheOnly (startHandle handle hashValue) (hashValue + 1)
              = (.ok result, b') := handOut_ok hres hlast
        rw [consistentHashingGetPeer_of_room hres hvalue hroom (by omega), hvisited] at hret
        simp [hlast, hok] at hret
      · -- every other index of the ring was visited
        by_contra hne
        rw [List.find?_eq_none] at hvisited
        exact hvisited i ((mem_visited hring).mpr ⟨h1, h2, hne⟩) husable

/-- From one of the top two indices the search returns when there is
something to find. -/
theorem searchesWholeRing_iff_of_top (hres : AddressesResolve lib dns b cacheOnly)
    (hvalue : hashValueOf lib self handle valueToHash = some hashValue)
    (hpos : 1 ≤ hashValue) (hle : hashValue ≤ self.points) (htop : self.points ≤ hashValue + 1) :
    SearchesWholeRing lib dns self b cacheOnly handle valueToHash hashValue
      ↔ ∃ i, 1 ≤ i ∧ i ≤ self.points ∧ usable self b i = true := by
  constructor
  · rintro ⟨turns, hturns⟩
    by_contra hnone
    have hret := hturns turns (Nat.le_refl _)
    rw [consistentHashingGetPeer_eq hvalue,
      consistentHashingLoop_endless (by omega) htop ?_ turns hashValue (Nat.le_refl _) hle] at hret
    · cases hret
    · intro i h1 h2
      exact Bool.eq_false_iff.mpr fun husable => hnone ⟨i, h1, h2, husable⟩
  · rintro ⟨i, h1, h2, husable⟩
    refine ⟨1 + hashValue, fun fuel hfuel => ?_⟩
    obtain ⟨extra, rfl⟩ : ∃ extra, fuel = extra + 1 + hashValue :=
      ⟨fuel - (1 + hashValue), by omega⟩
    rw [consistentHashingGetPeer_eq hvalue, consistentHashingLoop_lower hres, searchResult,
      firstUsable, ringFrom, List.find?_append]
    cases hlower : (downFrom hashValue hashValue).find? (usable self b) with
    | some index => rfl
    | none =>
      -- only the top is left, and it must be the usable one
      rw [List.find?_eq_none] at hlower
      have hi : hashValue < i := by
        by_contra hi
        exact hlower i ((mem_downFrom (Nat.le_refl _)).mpr (by omega)) husable
      have hlen : self.points - hashValue = 1 := by omega
      have hi' : i = self.points := by omega
      subst hi'
      rw [consistentHashingLoop_wrap, consistentHashingTurn_found hres husable, hlen]
      simp only [downFrom, Option.none_or, List.find?_cons, husable]

/-- The search of `getPeer` is complete unless the only usable index is
the one right above the hashed one, or nothing is usable and the hashed
index is one of the top two. -/
theorem getPeer_searches_whole_ring_iff (hres : AddressesResolve lib dns b cacheOnly)
    (hvalue : hashValueOf lib self handle valueToHash = some hashValue)
    (hpos : 1 ≤ hashValue) (hle : hashValue ≤ self.points) :
    SearchesWholeRing lib dns self b cacheOnly handle valueToHash hashValue
      ↔ (hashValue + 2 ≤ self.points →
            ¬ (usable self b (hashValue + 1) = true
              ∧ ∀ i, 1 ≤ i → i ≤ self.points → usable self b i = true → i = hashValue + 1))
          ∧ (self.points ≤ hashValue + 1 →
              ∃ i, 1 ≤ i ∧ i ≤ self.points ∧ usable self b i = true) := by
  rcases Nat.lt_or_ge self.points (hashValue + 2) with htop | hroom
  · rw [searchesWholeRing_iff_of_top hres hvalue hpos hle (by omega)]
    exact ⟨fun h => ⟨fun hroom => absurd hroom (by omega), fun _ => h⟩,
      fun h => h.2 (by omega)⟩
  · rw [searchesWholeRing_iff_of_room hres hvalue hroom]
    exact ⟨fun h => ⟨fun _ => h, fun htop => absurd htop (by omega)⟩, fun h => h.1 hroom⟩

end Call

end Search

/-! ## A ring with one address -/

/-- One target with one address, an ipv4 one. -/
def oneAddress (algorithm : Algorithm) : Balancer where
  address := fun _ => ⟨"10.0.0.1", 80, 10, 0, .ipv4, none, true, false, none⟩
  made := 1
  target := fun _ => ⟨"10.0.0.1", 80, 10, [0], 10, 0,
    some ⟨[.a "10.0.0.1" 600], 600000, false⟩, some [.a "10.0.0.1" 600]⟩
  targets := [0]
  totalWeight := 10
  unavailableWeight := 0
  healthy := true
  healthThreshold := 0
  useSRVname := false
  requeryInterval := 30000
  ttl0Interval := 60000
  algorithm := some algorithm
  draws := 0

/-- A client with nothing to tell, at time 0. -/
def silentDns : Dns := ⟨0, fun _ => .ok .cached, fun ip port => .ok (ip, port)⟩

/-- A thousand points, the address at one of them. -/
def onePoint (index : Nat) : ConsistentHashing :=
  ⟨1000, fun i => if i = index then some 0 else none⟩

theorem oneAddress_resolves (index : Nat) (cacheOnly : Bool) :
    AddressesResolve Lib.plain silentDns (oneAddress (.consistentHashing (onePoint index)))
      cacheOnly := by
  intro a _
  refine ⟨⟨"10.0.0.1", 80, none⟩, oneAddress (.consistentHashing (onePoint index)), ?_⟩
  rfl

/-- The address stands right above the hashed index, and the search
does not find it. -/
theorem getPeer_misses_next_index :
    ¬ SearchesWholeRing Lib.plain silentDns (onePoint 2)
      (oneAddress (.consistentHashing (onePoint 2))) false (some ⟨0, none, some 1, none⟩) none 1 := by
  rw [searchesWholeRing_iff_of_room (oneAddress_resolves 2 false) rfl (by decide), not_not]
  refine ⟨rfl, fun i _ _ husable => ?_⟩
  by_contra hne
  rw [usable, onePoint] at husable
  simp only [if_neg hne] at husable
  exact absurd husable (by decide)

/-- The address stands at the top, and the search from index 1 finds
it. -/
theorem getPeer_searches_whole_ring_from_one :
    SearchesWholeRing Lib.plain silentDns (onePoint 1000)
      (oneAddress (.consistentHashing (onePoint 1000))) false (some ⟨0, none, some 1, none⟩) none
      1 := by
  refine (getPeer_searches_whole_ring_iff (oneAddress_resolves 1000 false) rfl (by decide)
    (by decide)).mpr ⟨fun _ h => ?_, fun h => absurd h (by decide)⟩
  exact absurd h.1 (by decide)

end KongGateway.Kong.Balancers

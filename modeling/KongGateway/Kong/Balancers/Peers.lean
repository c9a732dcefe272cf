import KongGateway.Kong.Balancers.Targets

/-!
# Peers — `getPeer` of the four algorithms

The loops read the algorithm's structure from the balancer on every
turn, since the resolution of an address may refresh its target and
rebuild that structure. A call that raises, or that has not returned
within the given number of turns, is `none`.
-/

namespace KongGateway.Kong.Balancers

structure Handle where
  retryCount : Nat
  address : Option AddressId
  hashValue : Option Nat
  failedAddresses : Option (List AddressId)
  deriving DecidableEq, Repr

def Handle.new : Handle := ⟨0, none, none, none⟩

/-- What a `getPeer` returns: the peer with the handle, or the error. -/
abbrev Outcome := Except String (Peer × Handle) × Balancer

/-! ## Round robin -/

/-- The body of the `repeat` loop at the pointer; `next` is the label
`continue`. -/
def roundRobinTurn (lib : Lib) (dns : Dns) (cacheOnly : Bool) (handle : Handle)
    (self : RoundRobin) (b : Balancer) (next : RoundRobin → Balancer → Option Outcome) :
    Option Outcome :=
  match self.wheel[self.pointer - 1]? with
  | none => next self b
  | some a =>
    if (b.address a).available && !(b.address a).disabled then
      match getAddressPeer lib dns b a cacheOnly with
      | (.ok peer, b') => some (.ok (peer, { handle with address := some a }), b')
      | (.error err, b') =>
        match b'.algorithm with
        | some (.roundRobin self') =>
          if err = errDnsUpdated then
            if b'.healthy then next self' b' else some (.error errBalancerUnhealthy, b')
          else if err = errAddressUnavailable then next self' b'
          else some (.error err, b')
        | _ => none
    else next self b

/-- `self.pointer + 1`, or 1 beyond the wheel. -/
def RoundRobin.advance (self : RoundRobin) : RoundRobin :=
  { self with pointer := if self.wheelSize < self.pointer + 1 then 1 else self.pointer + 1 }

/-- The `repeat` loop. -/
def roundRobinLoop (lib : Lib) (dns : Dns) (cacheOnly : Bool) (handle : Handle)
    (startingPointer : Nat) : Nat → RoundRobin → Balancer → Option Outcome
  | 0, _, _ => none
  | fuel + 1, self, b =>
    let self := self.advance
    roundRobinTurn lib dns cacheOnly handle self
      { b with algorithm := some (.roundRobin self) }
      fun self b =>
        if self.pointer = startingPointer then some (.error errNoPeersAvailable, b)
        else roundRobinLoop lib dns cacheOnly handle startingPointer fuel self b

/-- `roundrobin_algorithm:getPeer`. -/
def roundRobinGetPeer (lib : Lib) (dns : Dns) (fuel : Nat) (self : RoundRobin) (b : Balancer)
    (cacheOnly : Bool) (handle : Option Handle) : Option Outcome :=
  let handle := match handle with
    | some handle => { handle with retryCount := handle.retryCount + 1 }
    | none => Handle.new
  roundRobinLoop lib dns cacheOnly handle self.pointer fuel self b

/-! ## Consistent hashing -/

/-- The body of the `while` loop at an index; `next` is the loop from
the index below. -/
def consistentHashingTurn (lib : Lib) (dns : Dns) (cacheOnly : Bool) (handle : Handle)
    (index : Nat) (self : ConsistentHashing) (b : Balancer)
    (next : ConsistentHashing → Balancer → Option Outcome) : Option Outcome :=
  match self.continuum index with
  | none => next self b
  | some a =>
    if (b.address a).available && !(b.address a).disabled then
      match getAddressPeer lib dns b a cacheOnly with
      | (.ok peer, b') => some (.ok (peer, { handle with address := some a }), b')
      | (.error err, b') =>
        match b'.algorithm with
        | some (.consistentHashing self') =>
          if err = errDnsUpdated then
            if b'.healthy then next self' b' else some (.error errBalancerUnhealthy, b')
          else if err = errAddressUnavailable then next self' b'
          else some (.error err, b')
        | _ => none
    else next self b

/-- The `while` loop; its condition `(index - 1) ~= hashValue` is
written without the subtraction. -/
def consistentHashingLoop (lib : Lib) (dns : Dns) (cacheOnly : Bool) (handle : Handle)
    (hashValue : Nat) : Nat → Nat → ConsistentHashing → Balancer → Option Outcome
  | 0, _, _, _ => none
  | fuel + 1, index, self, b =>
    if index = hashValue + 1 then some (.error errNoPeersAvailable, b)
    else
      let index := if index = 0 then self.points else index
      consistentHashingTurn lib dns cacheOnly handle index self b
        (consistentHashingLoop lib dns cacheOnly handle hashValue fuel (index - 1))

/-- `consistent_hashing:getPeer`. The value is hashed on the first try
only; without one the call raises. -/
def consistentHashingGetPeer (lib : Lib) (dns : Dns) (fuel : Nat) (self : ConsistentHashing)
    (b : Balancer) (cacheOnly : Bool) (handle : Option Handle) (valueToHash : Option String) :
    Option Outcome :=
  let handle := match handle with
    | some handle => { handle with retryCount := handle.retryCount + 1 }
    | none => Handle.new
  let hashValue := match handle.hashValue with
    | some hashValue => some hashValue
    | none => valueToHash.map fun value => getContinuumIndex lib value self.points
  match hashValue with
  | none => none
  | some hashValue =>
    consistentHashingLoop lib dns cacheOnly { handle with hashValue := some hashValue } hashValue
      fuel hashValue self b

/-! ## Least connections -/

/-- `updateConnectionCount`; the heap raises on a payload it does not
have. -/
def updateConnectionCount (self : LeastConnections) (b : Balancer) (a : AddressId) (delta : Int) :
    Option (LeastConnections × Balancer) :=
  match (b.address a).connectionCount with
  | none => none
  | some count =>
    let b := b.modifyAddress a fun addr => { addr with connectionCount := some (count + delta) }
    if !(b.address a).available then some (self, b)
    else if a ∈ self.binaryHeap.map Prod.snd then
      let self : LeastConnections :=
        ⟨self.binaryHeap.map fun (value, payload) =>
          if payload = a then ((count + delta + 1, (b.address a).weight), payload)
          else (value, payload)⟩
      some (self, { b with algorithm := some (.leastConnections self) })
    else none

/-- `releaseHandleAddress`. -/
def releaseHandleAddress (handle : Handle) (self : LeastConnections) (b : Balancer) :
    Option (Handle × LeastConnections × Balancer) :=
  match handle.address with
  | none => some (handle, self, b)
  | some a =>
    (updateConnectionCount self b a (-1)).map fun (self, b) =>
      ({ handle with address := none }, self, b)

/-- `binaryHeap:pop()`. -/
def popHeap (lib : Lib) (heap : List (HeapValue × AddressId)) : List (HeapValue × AddressId) :=
  match lib.peek heap with
  | none => heap
  | some a => heap.filter fun entry => entry.2 ≠ a

/-- An address that failed is stored away and the top of the heap
popped. -/
def storeFailed (lib : Lib) (heap : List (HeapValue × AddressId)) (reinsert : List AddressId) :
    Option AddressId → List (HeapValue × AddressId) × List AddressId
  | none => (heap, reinsert)
  | some a => (popHeap lib heap, reinsert ++ [a])

/-- The inner `repeat`. Returns the address found, those stored and the
heap left. -/
def popFailed (lib : Lib) (failed : List AddressId) :
    Nat → Option AddressId → List (HeapValue × AddressId) → List AddressId →
      Option AddressId × List AddressId × List (HeapValue × AddressId)
  | 0, _, heap, reinsert => (none, reinsert, heap)
  | fuel + 1, address, heap, reinsert =>
    let (heap, reinsert) := storeFailed lib heap reinsert address
    match lib.peek heap with
    | none => (none, reinsert, heap)
    | some a =>
      if a ∈ failed then popFailed lib failed fuel (some a) heap reinsert
      else (some a, reinsert, heap)

/-- `insertAddr` of an address that was popped; the heap raises on a
payload it has already. -/
def reinsertAddr (state : Balancer × List (HeapValue × AddressId)) (a : AddressId) :
    Option (Balancer × List (HeapValue × AddressId)) :=
  if (state.1.address a).available && decide (a ∈ state.2.map Prod.snd) then none
  else some (insertAddr state.1 state.2 a)

/-- The next address of the policy after the one tried before, with the
handle and the heap it leaves. -/
def nextAddress (lib : Lib) (address : Option AddressId) (handle : Handle)
    (self : LeastConnections) (b : Balancer) :
    Option (Option AddressId × Handle × LeastConnections × Balancer) :=
  let (found, reinsert, heap) := popFailed lib (handle.failedAddresses.getD [])
    (self.binaryHeap.length + 2) address self.binaryHeap []
  (reinsert.foldlM reinsertAddr (b, heap)).bind fun (b, heap) =>
    let self : LeastConnections := ⟨heap⟩
    let b := { b with algorithm := some (.leastConnections self) }
    match found, handle.failedAddresses with
    | some a, _ => some (some a, handle, self, b)
    | none, none => some (none, handle, self, b)
    | none, some _ =>
      -- all failed: start again from the first one; `reinsert[1]` raises when there is none
      match reinsert.head? with
      | none => none
      | some a => some (some a, { handle with failedAddresses := none }, self, b)

/-- The end of the call without a peer. -/
def leastConnectionsGiveUp (err : String) (handle : Handle) (self : LeastConnections)
    (b : Balancer) : Option Outcome :=
  (releaseHandleAddress handle self b).map fun (_, _, b) => (.error err, b)

/-- The `while true` loop. -/
def leastConnectionsLoop (lib : Lib) (dns : Dns) (cacheOnly : Bool) :
    Nat → Option AddressId → Handle → LeastConnections → Balancer → Option Outcome
  | 0, _, _, _, _ => none
  | fuel + 1, address, handle, self, b =>
    if !b.healthy then leastConnectionsGiveUp errBalancerUnhealthy handle self b
    else
      match nextAddress lib address handle self b with
      | none => none
      | some (none, handle, self, b) =>
        leastConnectionsGiveUp errNoPeersAvailable handle self b
      | some (some a, handle, _, b) =>
        match getAddressPeer lib dns b a cacheOnly with
        | (.ok peer, b') =>
          match b'.algorithm with
          | some (.leastConnections self') =>
            (updateConnectionCount self' b' a 1).map fun (_, b') =>
              (.ok (peer, { handle with address := some a }), b')
          | _ => none
        | (.error err, b') =>
          match b'.algorithm with
          | some (.leastConnections self') =>
            if err ≠ errDnsUpdated then leastConnectionsGiveUp err handle self' b'
            else leastConnectionsLoop lib dns cacheOnly fuel (some a) handle self' b'
          | _ => none

/-- `lc:getPeer`. A retry counts the address of its handle as failed. -/
def leastConnectionsGetPeer (lib : Lib) (dns : Dns) (fuel : Nat) (self : LeastConnections)
    (b : Balancer) (cacheOnly : Bool) (handle : Option Handle) : Option Outcome :=
  match handle with
  | none => leastConnectionsLoop lib dns cacheOnly fuel none Handle.new self b
  | some handle =>
    match handle.address with
    | none => none
    | some failed =>
      let handle : Handle :=
        { handle with
          retryCount := handle.retryCount + 1
          failedAddresses := some (handle.failedAddresses.getD [] ++ [failed]) }
      match releaseHandleAddress handle self b with
      | none => none
      | some (handle, self, b) =>
        leastConnectionsLoop lib dns cacheOnly fuel none handle self b

/-! ## Latency -/

/-- `pick_and_score`: the first address of the least score. -/
def pickAndScore (score : AddressId → ℚ) (first : AddressId) (rest : List AddressId) : AddressId :=
  rest.foldl (fun best a => if score a < score best then a else best) first

/-- The address of one turn, `none` when all have failed. -/
def pickAddress (lib : Lib) (score : AddressId → ℚ) (self : Latency) (failed : List AddressId)
    (address : AddressId) (addressCount : Nat) : Option AddressId :=
  if 1 < addressCount then
    match (lib.pairs self.ewma).filter fun a => a ∉ failed with
    | [] => none
    | first :: rest => some (pickAndScore score first rest)
  else some address

/-- The `while true` loop. -/
def latencyLoop (lib : Lib) (dns : Dns) (score : AddressId → ℚ) (cacheOnly : Bool)
    (addressCount : Nat) : Nat → Handle → AddressId → Latency → Balancer → Option Outcome
  | 0, _, _, _, _ => none
  | fuel + 1, handle, address, self, b =>
    match pickAddress lib score self (handle.failedAddresses.getD []) address addressCount with
    | none => some (.error errNoPeersAvailable, b)
    | some a =>
      match getAddressPeer lib dns b a cacheOnly with
      | (.ok peer, b') => some (.ok (peer, { handle with address := some a }), b')
      | (.error err, b') =>
        let handle : Handle :=
          { handle with failedAddresses := some (handle.failedAddresses.getD [] ++ [a]) }
        if err ≠ errDnsUpdated then some (.error err, b')
        else
          match b'.algorithm with
          | some (.latency self') =>
            latencyLoop lib dns score cacheOnly addressCount fuel handle a self' b'
          | _ => none

/-- `ewma:getPeer`; `score` is the decayed average of an address over
its weight at the time of the call. -/
def latencyGetPeer (lib : Lib) (dns : Dns) (score : AddressId → ℚ) (fuel : Nat) (self : Latency)
    (b : Balancer) (cacheOnly : Bool) (handle : Option Handle) : Option Outcome :=
  let started : Option Handle := match handle with
    | none => some { Handle.new with failedAddresses := some [] }
    | some handle =>
      handle.address.map fun failed =>
        { handle with
          retryCount := handle.retryCount + 1
          failedAddresses := some (handle.failedAddresses.getD [] ++ [failed]) }
  match started with
  | none => none
  | some handle =>
    if !b.healthy then some (.error errBalancerUnhealthy, b)
    else
      match lib.pairs self.ewma with
      | [] => some (.error errNoPeersAvailable, b)
      | first :: _ => latencyLoop lib dns score cacheOnly self.addressCount fuel handle first self b

/-- `ewma:afterBalance`, once the upstream has answered: the address of
the handle gets an average, also one that has none any more. -/
def latencyAfterBalance (self : Latency) (b : Balancer) (a : AddressId) : Balancer :=
  { b with
    algorithm := some (.latency
      { self with ewma := if a ∈ self.ewma then self.ewma else self.ewma ++ [a] }) }

/-! ## The call -/

/-- The arguments of one call. -/
structure GetPeer where
  dns : Dns
  score : AddressId → ℚ
  fuel : Nat
  cacheOnly : Bool
  handle : Option Handle
  valueToHash : Option String

/-- `self.algorithm:getPeer(...)`. -/
def getPeer (lib : Lib) (b : Balancer) (call : GetPeer) : Option Outcome :=
  match b.algorithm with
  | none => none
  | some (.roundRobin self) =>
    roundRobinGetPeer lib call.dns call.fuel self b call.cacheOnly call.handle
  | some (.consistentHashing self) =>
    consistentHashingGetPeer lib call.dns call.fuel self b call.cacheOnly call.handle
      call.valueToHash
  | some (.leastConnections self) =>
    leastConnectionsGetPeer lib call.dns call.fuel self b call.cacheOnly call.handle
  | some (.latency self) =>
    latencyGetPeer lib call.dns call.score call.fuel self b call.cacheOnly call.handle

/-- `balancer_mt:afterBalance`; only one algorithm has the method. -/
def afterBalance (b : Balancer) (a : AddressId) : Balancer :=
  if !b.healthy then b
  else
    match b.algorithm with
    | some (.latency self) => latencyAfterBalance self b a
    | _ => b

/-- `handle:release()`, which the handles of one algorithm have. -/
def release (b : Balancer) (handle : Handle) : Option Balancer :=
  match b.algorithm with
  | some (.leastConnections self) => (releaseHandleAddress handle self b).map fun (_, _, b) => b
  | _ => some b

end KongGateway.Kong.Balancers

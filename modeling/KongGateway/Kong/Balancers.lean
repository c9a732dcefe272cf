import KongGateway.Lib.LuaStd
import Mathlib.Algebra.Order.Field.Rat

/-!
# Balancers — the upstream balancer object of `kong.runloop.balancer`

Address and target tables are shared by reference in Lua: an algorithm
keeps addresses in its own structures after the target has let go of
them. Here an address or a target is named by a number, and the
balancer holds the tables. Times are milliseconds. The random
generator, the hash function, the floating-point share of an address,
the binary heap and the order of `pairs` are the fields of `Lib`.
-/

namespace KongGateway.Kong.Balancers

open LuaStd

abbrev AddressId := Nat
abbrev TargetId := Nat

inductive HostType where
  | ipv4
  | ipv6
  | name
  deriving DecidableEq, Repr

/-- `dns_utils.hostnameType`. -/
def hostnameType (name : String) : HostType :=
  let remainder := name.toList.filter (· ≠ ':')
  if 1 < name.toList.count ':' then .ipv6
  else if remainder ≠ [] ∧ remainder.all (fun c => c.isDigit || c = '.') then .ipv4
  else .name

/-! ## DNS records -/

inductive RecordType where
  | a
  | aaaa
  | srv
  deriving DecidableEq, Repr

/-- A record of an answer; the numbers of an SRV record are 16 bits wide. -/
inductive Entry where
  | a (address : String) (ttl : Nat)
  | aaaa (address : String) (ttl : Nat)
  | srv (target : String) (port weight priority : UInt16) (ttl : Nat)
  deriving DecidableEq, Repr

namespace Entry

def type : Entry → RecordType
  | .a .. => .a
  | .aaaa .. => .aaaa
  | .srv .. => .srv

def ttl : Entry → Nat
  | .a _ ttl => ttl
  | .aaaa _ ttl => ttl
  | .srv _ _ _ _ ttl => ttl

/-- `entry.address or entry.target`. -/
def ip : Entry → String
  | .a address _ => address
  | .aaaa address _ => address
  | .srv target _ _ _ _ => target

def port : Entry → Option Nat
  | .srv _ port _ _ _ => some port.toNat
  | _ => none

def weight : Entry → Option Nat
  | .srv _ _ weight _ _ => some weight.toNat
  | _ => none

def priority : Entry → Option Nat
  | .srv _ _ _ priority _ => some priority.toNat
  | _ => none

end Entry

/-- What `lastQuery` holds of an answer. -/
structure Query where
  entries : List Entry
  expire : Nat
  ttl0Flag : Bool
  deriving DecidableEq, Repr

/-! ## Addresses, targets, algorithms -/

structure Address where
  ip : String
  port : Nat
  weight : Nat
  target : TargetId
  ipType : HostType
  hostHeader : Option String
  available : Bool
  disabled : Bool
  connectionCount : Option Int
  deriving DecidableEq, Repr

structure Target where
  name : String
  port : Nat
  weight : Nat
  addresses : List AddressId
  totalWeight : Int
  unavailableWeight : Int
  lastQuery : Option Query
  lastSorted : Option (List Entry)
  deriving DecidableEq, Repr

def Target.nameType (target : Target) : HostType := hostnameType target.name

structure RoundRobin where
  wheel : List AddressId
  wheelSize : Nat
  pointer : Nat

structure ConsistentHashing where
  points : Nat
  continuum : Nat → Option AddressId

/-- The value `(connectionCount + 1) / weight` of a heap entry, kept as
its numerator and denominator. -/
abbrev HeapValue := Int × Nat

structure LeastConnections where
  binaryHeap : List (HeapValue × AddressId)

structure Latency where
  ewma : List AddressId
  addressCount : Nat

inductive Algorithm where
  | roundRobin (self : RoundRobin)
  | consistentHashing (self : ConsistentHashing)
  | leastConnections (self : LeastConnections)
  | latency (self : Latency)

structure Balancer where
  /-- the address tables made so far, the first `made` numbers -/
  address : AddressId → Address
  made : Nat
  target : TargetId → Target
  targets : List TargetId
  totalWeight : Int
  unavailableWeight : Int
  healthy : Bool
  healthThreshold : ℚ
  useSRVname : Bool
  requeryInterval : Nat
  ttl0Interval : Nat
  algorithm : Option Algorithm
  /-- how often `math.random` has been called -/
  draws : Nat

/-- What the balancer takes from libraries. -/
structure Lib where
  tables : TableSort
  /-- the draws of the random generator, in the order of the calls -/
  random : Nat → Nat
  xxhash32 : String → Nat
  /-- `floor(weight / total_weight * targets_count * SERVER_POINTS)` -/
  share : Nat → Int → Nat → Nat
  /-- the payload of the least value of a heap -/
  peek : List (HeapValue × AddressId) → Option AddressId
  peek_mem : ∀ {heap a}, peek heap = some a → a ∈ heap.map Prod.snd
  peek_none : ∀ {heap}, peek heap = none → heap = []
  /-- the order in which `pairs` visits the keys of a table -/
  pairs : List AddressId → List AddressId
  pairs_perm : ∀ keys, (pairs keys).Perm keys

/-- A library that keeps all the promises. -/
def Lib.plain : Lib where
  tables := insertionTable
  random := fun _ => 0
  xxhash32 := fun s => s.length
  share := fun weight total count => (weight * count * 160 / total).toNat
  peek := fun heap => heap.head?.map Prod.snd
  peek_mem := by
    intro heap a h
    obtain ⟨entry, hentry, rfl⟩ := Option.map_eq_some_iff.mp h
    exact List.mem_map_of_mem (List.mem_of_mem_head? hentry)
  peek_none := by
    intro heap h
    simpa using h
  pairs := id
  pairs_perm := fun _ => .refl _

def Balancer.modifyAddress (b : Balancer) (a : AddressId) (f : Address → Address) : Balancer :=
  { b with address := Function.update b.address a (f (b.address a)) }

def Balancer.modifyTarget (b : Balancer) (t : TargetId) (f : Target → Target) : Balancer :=
  { b with target := Function.update b.target t (f (b.target t)) }

/-- The addresses of all targets, in the order of the loops over them. -/
def Balancer.allAddresses (b : Balancer) : List AddressId :=
  b.targets.flatMap fun t => (b.target t).addresses

/-! ## `afterHostUpdate` of the algorithms -/

/-- `math.random(i)` of the `n`-th call. -/
def Lib.randomUpTo (lib : Lib) (n i : Nat) : Nat := lib.random n % i + 1

/-- `wheel[i], wheel[j] = wheel[j], wheel[i]`, counting from one. -/
def swapAt (wheel : List AddressId) (i j : Nat) : List AddressId :=
  match wheel[i - 1]?, wheel[j - 1]? with
  | some a, some b => (wheel.set (i - 1) b).set (j - 1) a
  | _, _ => wheel

/-- The loop of `wheel_shuffle`, down from `i` to 2. -/
def wheelShuffleFrom (lib : Lib) : Nat → Nat → List AddressId → List AddressId
  | 0, _, wheel => wheel
  | 1, _, wheel => wheel
  | i + 2, draws, wheel =>
    wheelShuffleFrom lib (i + 1) (draws + 1) (swapAt wheel (i + 2) (lib.randomUpTo draws (i + 2)))

def wheelShuffle (lib : Lib) (draws : Nat) (wheel : List AddressId) : List AddressId :=
  wheelShuffleFrom lib wheel.length draws wheel

/-- `roundrobin_algorithm:afterHostUpdate`. It also writes the total
weight of the balancer. -/
def roundRobinAfterHostUpdate (lib : Lib) (self : RoundRobin) (b : Balancer) : Balancer :=
  let weights := b.allAddresses.map fun a => (b.address a).weight
  let divisor := weights.foldl Nat.gcd 0
  let totalWeight := weights.sum
  if totalWeight = 0 then
    { b with totalWeight := totalWeight, algorithm := some (.roundRobin self) }
  else
    let newWheel := b.allAddresses.flatMap fun a =>
      List.replicate ((b.address a).weight / divisor) a
    { b with
      totalWeight := totalWeight
      draws := b.draws + (newWheel.length - 1)
      algorithm := some (.roundRobin
        { self with
          wheel := wheelShuffle lib b.draws newWheel
          wheelSize := if 0 < divisor then totalWeight / divisor else 0 }) }

/-- `get_continuum_index`. -/
def getContinuumIndex (lib : Lib) (value : String) (points : Nat) : Nat :=
  lib.xxhash32 value % points + 1

/-- `sort_hosts_and_addresses`. -/
def sortHostsAndAddresses (lib : Lib) (b : Balancer) : Balancer :=
  { b with
    targets := lib.tables.sort
      (fun s t => decide ((b.target s).name < (b.target t).name
        ∨ (b.target s).name = (b.target t).name ∧ (b.target s).port < (b.target t).port))
      b.targets
    target := fun t =>
      if t ∈ b.targets then
        { b.target t with
          addresses := lib.tables.sort
            (fun a a' => decide ((b.address a).ip ++ ":" ++ toString (b.address a).port
              < (b.address a').ip ++ ":" ++ toString (b.address a').port))
            (b.target t).addresses }
      else b.target t }

/-- The points of one address: the loop on `i`, which ends the whole
update (`none`) once `i` is beyond the continuum. -/
def placeAddress (lib : Lib) (points : Nat) (label : String) (a : AddressId) :
    Nat → Nat → Nat → (Nat → Option AddressId) → Option (Nat → Option AddressId)
  | 0, _, _, continuum => some continuum
  | fuel + 1, i, entries, continuum =>
    if i ≤ entries then
      let index := getContinuumIndex lib (label ++ toString i) points
      let taken := (continuum index).isSome
      let continuum' := if taken then continuum else Function.update continuum index (some a)
      let entries' := if taken then entries + 1 else entries
      if points < i + 1 then none
      else placeAddress lib points label a fuel (i + 1) entries' continuum'
    else some continuum

/-- How many points an address asks for. -/
def pointsOf (lib : Lib) (b : Balancer) (a : AddressId) : Nat :=
  let weight := (b.address a).weight
  let entries := lib.share weight b.totalWeight b.targets.length
  if 0 < weight ∧ entries = 0 then 1 else entries

/-- The new continuum, unless the update ended early. -/
def newContinuum (lib : Lib) (b : Balancer) (points : Nat) : Option (Nat → Option AddressId) :=
  b.allAddresses.foldlM
    (fun continuum a =>
      let label := (b.address a).ip ++ ":" ++ (":" ++ toString (b.address a).port) ++ " "
      placeAddress lib points label a (points + 1) 1 (pointsOf lib b a) continuum)
    fun _ => none

/-- `consistent_hashing:afterHostUpdate`. -/
def consistentHashingAfterHostUpdate (lib : Lib) (self : ConsistentHashing) (b : Balancer) :
    Balancer :=
  let sorted := sortHostsAndAddresses lib b
  match newContinuum lib sorted self.points with
  | none => { sorted with algorithm := some (.consistentHashing self) }
  | some continuum =>
    { sorted with algorithm := some (.consistentHashing { self with continuum := continuum }) }

/-- `insertAddr`. -/
def insertAddr (b : Balancer) (heap : List (HeapValue × AddressId)) (a : AddressId) :
    Balancer × List (HeapValue × AddressId) :=
  let count := (b.address a).connectionCount.getD 0
  let b' := b.modifyAddress a fun address => { address with connectionCount := some count }
  if (b.address a).available then (b', heap ++ [((count + 1, (b.address a).weight), a)])
  else (b', heap)

/-- `lc:afterHostUpdate`. -/
def leastConnectionsAfterHostUpdate (b : Balancer) : Balancer :=
  let (b', heap) := b.allAddresses.foldl (fun (b, heap) a => insertAddr b heap a) (b, [])
  { b' with algorithm := some (.leastConnections ⟨heap⟩) }

/-- `ewma:afterHostUpdate`; the averages themselves are left out. -/
def latencyAfterHostUpdate (self : Latency) (b : Balancer) : Balancer :=
  let newAddresses := b.allAddresses.filter fun a => (b.address a).available
  let kept := self.ewma.filter fun a => a ∈ newAddresses
  if newAddresses.length = 0 then
    { b with algorithm := some (.latency { self with ewma := kept }) }
  else
    { b with
      algorithm := some (.latency
        ⟨kept ++ newAddresses.filter (fun a => a ∉ kept), newAddresses.length⟩) }

/-- `balancer_mt:afterHostUpdate`. -/
def afterHostUpdate (lib : Lib) (b : Balancer) : Balancer :=
  match b.algorithm with
  | none => b
  | some (.roundRobin self) => roundRobinAfterHostUpdate lib self b
  | some (.consistentHashing self) => consistentHashingAfterHostUpdate lib self b
  | some (.leastConnections _) => leastConnectionsAfterHostUpdate b
  | some (.latency self) => latencyAfterHostUpdate self b

inductive AlgorithmType where
  | roundRobin
  | consistentHashing (wheelSize : Nat)
  | leastConnections
  | latency

def minContinuumSize : Nat := 1000
def maxContinuumSize : Nat := 2 ^ 32
def defaultContinuumSize : Nat := 1000

def AlgorithmType.empty : AlgorithmType → Algorithm
  | .roundRobin => .roundRobin ⟨[], 0, 1⟩
  | .consistentHashing wheelSize =>
    .consistentHashing
      ⟨if minContinuumSize ≤ wheelSize ∧ wheelSize ≤ maxContinuumSize then wheelSize
        else defaultContinuumSize, fun _ => none⟩
  | .leastConnections => .leastConnections ⟨[]⟩
  | .latency => .latency ⟨[], 0⟩

/-- The `new` of an algorithm: an empty structure, then its
`afterHostUpdate`. -/
def newAlgorithm (lib : Lib) (type : AlgorithmType) (b : Balancer) : Balancer :=
  afterHostUpdate lib { b with algorithm := some type.empty }

/-! ## The methods of the balancer object -/

def srv0Weight : Nat := 1

/-- `balancer_mt:updateStatus`. -/
def updateStatus (b : Balancer) : Balancer :=
  { b with
    healthy :=
      if b.totalWeight = 0 then false
      else decide ((b.totalWeight - b.unavailableWeight : ℚ) / b.totalWeight * 100
        > b.healthThreshold) }

/-- `balancer_mt:setAddressStatus`. -/
def setAddressStatus (lib : Lib) (b : Balancer) (a : AddressId) (available : Bool) :
    Except String (Option String) × Balancer :=
  let address := b.address a
  if ¬ (a < b.made ∧ address.target ∈ b.targets) then (.error "not a known address", b)
  else if address.available = available then (.ok (some "already set"), b)
  else
    let delta : Int := if available then -address.weight else address.weight
    let b := b.modifyAddress a fun address => { address with available := available }
    let b := b.modifyTarget address.target fun target =>
      { target with unavailableWeight := target.unavailableWeight + delta }
    let b := updateStatus { b with unavailableWeight := b.unavailableWeight + delta }
    (.ok none, afterHostUpdate lib b)

/-- `setHostHeader`. -/
def hostHeader (target : Target) (ip : String) (useSRVname : Bool) : Option String :=
  if target.nameType ≠ .name then none
  else if hostnameType ip ≠ .name then some target.name
  else if useSRVname then some ip
  else some target.name

/-- `(entry.port ~= 0 and entry.port) or target.port`. -/
def entryPort (target : Target) (entry : Entry) : Nat :=
  match entry.port with
  | none => target.port
  | some 0 => target.port
  | some port => port

/-- The weight an address gets from its entry: that of the target when
the record has none, and never 0 for an SRV record. -/
def entryWeight (target : Target) (entry : Entry) : Nat :=
  match entry.weight with
  | none => target.weight
  | some 0 => srv0Weight
  | some weight => weight

/-- The address `addAddress` makes of an entry. -/
def newAddress (b : Balancer) (t : TargetId) (entry : Entry) : Address where
  ip := entry.ip
  port := entryPort (b.target t) entry
  weight := entryWeight (b.target t) entry
  target := t
  ipType := hostnameType entry.ip
  hostHeader := hostHeader (b.target t) entry.ip b.useSRVname
  available := true
  disabled := false
  connectionCount := none

/-- `balancer_mt:addAddress`. -/
def addAddress (lib : Lib) (b : Balancer) (t : TargetId) (entry : Entry) :
    Except String Unit × Balancer :=
  if t ∉ b.targets then (.error "invalid input or non-owned target", b)
  else
    let weight := entryWeight (b.target t) entry
    let b' : Balancer :=
      { b with
        address := Function.update b.address b.made (newAddress b t entry)
        made := b.made + 1
        totalWeight := b.totalWeight + weight }
    let b' := b'.modifyTarget t fun target =>
      { target with
        addresses := target.addresses ++ [b.made]
        totalWeight := target.totalWeight + weight }
    (.ok (), afterHostUpdate lib (updateStatus b'))

/-- The address an entry names: the first of the target with its ip and
port. -/
def findAddress (b : Balancer) (t : TargetId) (entry : Entry) : Option AddressId :=
  (b.target t).addresses.find? fun a =>
    (b.address a).ip = entry.ip ∧ (b.address a).port = entryPort (b.target t) entry

/-- `balancer_mt:changeWeight`. -/
def changeWeight (lib : Lib) (b : Balancer) (t : TargetId) (entry : Entry) (newWeight : Nat) :
    Option AddressId × Balancer :=
  match findAddress b t entry with
  | none => (none, b)
  | some a =>
    let addr := b.address a
    let delta : Int := newWeight - addr.weight
    let unavailableDelta : Int := if addr.available then 0 else delta
    let b := b.modifyTarget t fun target =>
      { target with
        totalWeight := target.totalWeight + delta
        unavailableWeight := target.unavailableWeight + unavailableDelta }
    let b := b.modifyAddress a fun addr => { addr with weight := newWeight }
    let b := updateStatus
      { b with
        totalWeight := b.totalWeight + delta
        unavailableWeight := b.unavailableWeight + unavailableDelta }
    (some a, afterHostUpdate lib b)

/-- `balancer_mt:disableAddress`. -/
def disableAddress (lib : Lib) (b : Balancer) (t : TargetId) (entry : Entry) : Balancer :=
  match changeWeight lib b t entry 0 with
  | (none, b) => b
  | (some a, b) => b.modifyAddress a fun addr => { addr with disabled := true }

/-- `balancer_mt:deleteDisabledAddresses`. -/
def deleteDisabledAddresses (lib : Lib) (b : Balancer) (t : TargetId) : Balancer :=
  let dirty := (b.target t).addresses.any fun a => (b.address a).disabled
  let b := b.modifyTarget t fun target =>
    { target with addresses := target.addresses.filter fun a => !(b.address a).disabled }
  if dirty then afterHostUpdate lib b else b

end KongGateway.Kong.Balancers

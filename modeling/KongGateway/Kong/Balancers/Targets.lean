import KongGateway.Kong.Balancers

/-!
# Targets — DNS updates of a target and the peer of an address

`update_dns_result` compares the sorted answer with the sorted answer
before it and adds, reweights and disables the addresses that differ.
The DNS client is a parameter: what it answers within one call is a
`Dns`. An answer is either the very table kept as `lastQuery` (the
client's cache had it) or a new one.
-/

namespace KongGateway.Kong.Balancers

open LuaStd

/-! ## Sorting an answer -/

/-- The last `k` decimal digits of `n`; `%06d` is `digits 6` for the
numbers below a million. -/
def digits : Nat → Nat → List Char
  | 0, _ => []
  | k + 1, n => Nat.digitChar (n / 10 ^ k % 10) :: digits k n

/-- `__balancerSortKey`. -/
def Entry.sortKey : Entry → String
  | .a address _ => address
  | .aaaa address _ => address
  | .srv target port _ priority _ =>
    String.ofList (digits 6 priority.toNat) ++ ":" ++ target ++ ":" ++ toString port.toNat

/-- `sorts[rtype]`, whose key is the one of the record type. -/
def sortEntries (lib : Lib) (entries : List Entry) : List Entry :=
  lib.tables.sort (fun e e' => decide (e.sortKey < e'.sortKey)) entries

/-- `sorted[sorted[key]]`: the reverse index keeps the last position of
a key. -/
def entryOfKey (sorted : List Entry) (key : String) : Option Entry :=
  sorted.reverse.find? fun e => e.sortKey = key

/-! ## `update_dns_result` -/

inductive Reply where
  | cached
  | answer (query : Query)
  deriving DecidableEq, Repr

def typeOf (entries : List Entry) : Option RecordType := entries.head?.map Entry.type

/-- The virtual SRV record of a target whose records have ttl 0. -/
def ttl0Query (b : Balancer) (t : TargetId) (now : Nat) : Query where
  entries := [.srv (b.target t).name (.ofNat (b.target t).port) (.ofNat (b.target t).weight) 1
    b.ttl0Interval]
  expire := now + b.ttl0Interval
  ttl0Flag := true

/-- A type change: everything known goes, everything new comes. -/
def recycleAddresses (lib : Lib) (t : TargetId) (oldSorted newSorted : List Entry)
    (b : Balancer) : Balancer :=
  let b := oldSorted.reverse.foldl (fun b entry => disableAddress lib b t entry) b
  newSorted.foldl (fun b entry => (addAddress lib b t entry).2) b

/-- Whether the weight of an entry differs from the one it had. -/
def weightChanged (oldEntry newEntry : Entry) : Bool :=
  match newEntry.weight with
  | none => false
  | some weight =>
    decide (oldEntry.weight ≠ some weight)
      && !(decide (weight = 0) && decide (oldEntry.weight = some srv0Weight))

/-- One entry of the new answer. The flags are `dirty` and the entry's
key when it is `done`. -/
def updateEntry (lib : Lib) (t : TargetId) (oldSorted : List Entry)
    (state : Balancer × Bool × List String) (newEntry : Entry) : Balancer × Bool × List String :=
  let (b, dirty, done) := state
  match entryOfKey oldSorted newEntry.sortKey with
  | none => ((addAddress lib b t newEntry).2, true, done)
  | some oldEntry =>
    if weightChanged oldEntry newEntry then
      let weight := match newEntry.weight with
        | some 0 => srv0Weight
        | some weight => weight
        | none => 0
      ((changeWeight lib b t oldEntry weight).2, true, newEntry.sortKey :: done)
    else (b, dirty, newEntry.sortKey :: done)

/-- The entries up to the first change of priority. -/
def topEntries (sorted : List Entry) : List Entry :=
  let topPriority := sorted.head?.bind Entry.priority
  sorted.takeWhile fun e => e.priority = topPriority

/-- A new record of the same type. -/
def mergeAddresses (lib : Lib) (t : TargetId) (oldSorted newSorted : List Entry)
    (b : Balancer) : Balancer × Bool :=
  let (b, dirty, done) :=
    (topEntries newSorted).foldl (updateEntry lib t oldSorted) (b, false, [])
  -- `dCount` is the length of `done`
  if done.length ≠ oldSorted.length then
    ((oldSorted.filter fun e => e.sortKey ∉ done).foldl
      (fun b entry => disableAddress lib b t entry) b, true)
  else (b, dirty)

/-- Sorted answer in, addresses of the target updated. -/
def updateAddresses (lib : Lib) (b : Balancer) (t : TargetId) (query : Query) : Balancer :=
  let oldSorted := (b.target t).lastSorted.getD []
  let rtype := (typeOf query.entries).getD .a
  let newSorted := sortEntries lib query.entries
  let (b, dirty) :=
    if some rtype ≠ typeOf oldSorted then (recycleAddresses lib t oldSorted newSorted b, true)
    else mergeAddresses lib t oldSorted newSorted b
  let b := b.modifyTarget t fun target =>
    { target with lastQuery := some query, lastSorted := some newSorted }
  if dirty then deleteDisabledAddresses lib (afterHostUpdate lib b) t else b

def updateDnsResult (lib : Lib) (now : Nat) (b : Balancer) (t : TargetId) (reply : Reply) :
    Balancer :=
  match reply with
  | .cached => b
  | .answer newQuery =>
    let oldTtl := (((b.target t).lastQuery.map Query.entries).getD []).head?.map Entry.ttl
    let oldFlag := ((b.target t).lastQuery.map Query.ttl0Flag).getD false
    if newQuery.entries.head?.map Entry.ttl = some 0 ∧ (oldTtl.getD 0 = 0 ∨ oldFlag) then
      if oldFlag then
        b.modifyTarget t fun target =>
          { target with
            lastQuery := target.lastQuery.map fun query =>
              { query with expire := now + b.ttl0Interval } }
      else updateAddresses lib b t (ttl0Query b t now)
    else updateAddresses lib b t newQuery

/-! ## Queries and peers -/

/-- What the DNS client answers within one call; `toip` fails with an
error and the list of what it tried. -/
structure Dns where
  now : Nat
  resolve : TargetId → Except String Reply
  toip : String → Nat → Except (String × String) (String × Nat)

/-- `queryDns`; a failed query counts as an empty record. -/
def queryDns (lib : Lib) (dns : Dns) (b : Balancer) (t : TargetId) : Balancer :=
  match dns.resolve t with
  | .error _ =>
    updateDnsResult lib dns.now b t (.answer ⟨[], dns.now + b.requeryInterval, false⟩)
  | .ok reply => updateDnsResult lib dns.now b t reply

def targetExpired (target : Target) (now : Nat) : Bool :=
  match target.lastQuery with
  | none => true
  | some query => query.expire < now

def errDnsUpdated : String :=
  "Cannot get peer, a DNS update changed the balancer structure, please retry"
def errAddressUnavailable : String := "Address is marked as unavailable"
def errNoPeersAvailable : String := "No peers are available"
def errBalancerUnhealthy : String := "Balancer is unhealthy"

structure Peer where
  ip : String
  port : Nat
  hostname : Option String
  deriving DecidableEq, Repr

/-- The peer of an address, once its target is up to date. -/
def addressPeer (dns : Dns) (address : Address) : Except String Peer :=
  if address.ipType = .name then
    match dns.toip address.ip address.port with
    | .error (err, tryList) => .error (err ++ ". Tried: " ++ tryList)
    | .ok (ip, port) => .ok ⟨ip, port, address.hostHeader⟩
  else .ok ⟨address.ip, address.port, address.hostHeader⟩

/-- `targets_M.getAddressPeer`. -/
def getAddressPeer (lib : Lib) (dns : Dns) (b : Balancer) (a : AddressId) (cacheOnly : Bool) :
    Except String Peer × Balancer :=
  if !(b.address a).available then (.error errAddressUnavailable, b)
  else
    let t := (b.address a).target
    if targetExpired (b.target t) dns.now && !cacheOnly then
      let b := queryDns lib dns b t
      if (b.address a).target ≠ t then (.error errDnsUpdated, b)
      else (addressPeer dns (b.address a), b)
    else (addressPeer dns (b.address a), b)

end KongGateway.Kong.Balancers

import KongGateway.Lib.RustStd
import Mathlib.Data.List.Pairwise

/-!
# Router — routes and longest-prefix matching

The model of `router.rs`. The header maps of a route's transforms are
lists of entries, in one of the orders in which the map may be iterated.
-/

namespace KongGateway.GatewayCore

open RustStd

inductive Protocol where
  | http1
  | http2
  | grpc
deriving DecidableEq, Repr

structure RequestTransform where
  addHeaders : List (String × String) := []
  setHeaders : List (String × String) := []
  removeHeaders : List String := []
  pathPrefixRewrite : Option String := none
  bodyReplace : Option String := none
deriving DecidableEq, Repr

structure ResponseTransform where
  addHeaders : List (String × String) := []
  setHeaders : List (String × String) := []
  removeHeaders : List String := []
  bodyReplace : Option String := none
deriving DecidableEq, Repr

structure TransformConfig where
  request : RequestTransform := {}
  response : ResponseTransform := {}
deriving DecidableEq, Repr

structure CanaryHeaderMatch where
  name : String
  value : String
deriving DecidableEq, Repr

structure TrafficSplitConfig where
  canaryUpstream : Option String := none
  canaryPercentage : UInt8 := 0
  canaryHeader : Option CanaryHeaderMatch := none
deriving DecidableEq, Repr

/-- The derived `Default`, with probability `0`: a route without a
`fault_injection` section. (A section that leaves the probability out
gets `100` from the deserialiser.) -/
structure FaultInjectionConfig where
  enabled : Bool := false
  probabilityPercent : UInt8 := 0
  delayMs : UInt64 := 0
  jitterMs : UInt64 := 0
  abortStatus : Option UInt16 := none
  abortBody : Option String := none
deriving DecidableEq, Repr

structure Route where
  name : String
  pathPrefix : String
  upstream : String
  protocols : List Protocol := []
  transform : TransformConfig := {}
  trafficSplit : TrafficSplitConfig := {}
  faultInjection : FaultInjectionConfig := {}
deriving DecidableEq, Repr

/-- `str::starts_with` on UTF-8 text: a prefix of the bytes of a string
is a prefix of its characters. -/
def startsWith (s pre : String) : Bool := pre.toList.isPrefixOf s.toList

theorem startsWith_append (pre rest : String) : startsWith (pre ++ rest) pre = true := by
  simp [startsWith, List.isPrefixOf_iff_prefix]

theorem startsWith_iff {s pre : String} : startsWith s pre = true ↔ ∃ rest, s = pre ++ rest := by
  constructor
  · intro h
    obtain ⟨rest, hrest⟩ := List.isPrefixOf_iff_prefix.mp h
    refine ⟨String.ofList rest, ?_⟩
    rw [← String.toList_inj]
    simp [hrest]
  · rintro ⟨rest, rfl⟩
    exact startsWith_append pre rest

/-- The filter of `match_route`: the protocol is admitted and the prefix
matches. -/
def Route.admits (route : Route) (path : String) (protocol : Protocol) : Bool :=
  (route.protocols.isEmpty || route.protocols.contains protocol)
    && startsWith path route.pathPrefix

/-- Longest prefix, measured in bytes as `String::len` does; of equally
long prefixes the last route wins. -/
def matchRoute (routes : List Route) (path : String) (protocol : Protocol) :
    Option Route :=
  maxByKey (fun route => route.pathPrefix.utf8ByteSize)
    (routes.filter fun route => route.admits path protocol)

/-- A matched route is one of the table, and its prefix is a prefix of
the path. -/
theorem matchRoute_spec {routes : List Route} {path : String}
    {protocol : Protocol} {route : Route}
    (h : matchRoute routes path protocol = some route) :
    route ∈ routes ∧ startsWith path route.pathPrefix = true := by
  obtain ⟨hmem, hadm⟩ := List.mem_filter.mp (maxByKey_mem h)
  simp only [Route.admits, Bool.and_eq_true] at hadm
  exact ⟨hmem, hadm.2⟩

/-!
## Router — the longest matching prefix

`match_route` keeps the routes that admit the protocol and whose prefix
matches, and takes the last of the longest. Two prefixes of one path
that are equally long are equal, so when no two routes of a protocol
share their prefix, the order of the table does not matter.
-/

def Route.admitsProtocol (route : Route) (protocol : Protocol) : Bool :=
  route.protocols.isEmpty || route.protocols.contains protocol

/-- A route that the request may take. -/
structure Route.Matches (route : Route) (path : String) (protocol : Protocol) : Prop where
  protocol : route.admitsProtocol protocol = true
  pathPrefix : startsWith path route.pathPrefix = true

/-- Where both routes admit a protocol, their prefixes differ. -/
def Route.Apart (route other : Route) : Prop :=
  ∀ protocol, route.admitsProtocol protocol = true → other.admitsProtocol protocol = true →
    route.pathPrefix ≠ other.pathPrefix

instance : Std.Symm Route.Apart where
  symm _ _ h protocol hroute hother := (h protocol hother hroute).symm

/-- No two routes that admit a common protocol have the same prefix. -/
def DistinctPrefixes (routes : List Route) : Prop := routes.Pairwise Route.Apart

theorem Route.admits_iff {route : Route} {path : String} {protocol : Protocol} :
    route.admits path protocol = true ↔ route.Matches path protocol := by
  rw [Route.admits, Bool.and_eq_true]
  exact ⟨fun h => ⟨h.1, h.2⟩, fun h => ⟨h.protocol, h.pathPrefix⟩⟩

section

variable {routes : List Route} {path : String} {protocol : Protocol} {route : Route}

theorem mem_admitted :
    route ∈ routes.filter (fun route => route.admits path protocol)
      ↔ route ∈ routes ∧ route.Matches path protocol := by
  rw [List.mem_filter, Route.admits_iff]

theorem matchRoute_matches (h : matchRoute routes path protocol = some route) :
    route ∈ routes ∧ route.Matches path protocol := mem_admitted.mp (maxByKey_mem h)

theorem matchRoute_longest (h : matchRoute routes path protocol = some route) {other : Route}
    (hmem : other ∈ routes) (hmatches : other.Matches path protocol) :
    other.pathPrefix.utf8ByteSize ≤ route.pathPrefix.utf8ByteSize := by
  have hle := le_of_maxByKey h (mem_admitted.mpr ⟨hmem, hmatches⟩)
  exact hle

theorem matchRoute_none_iff :
    matchRoute routes path protocol = none ↔ ∀ route ∈ routes, ¬ route.Matches path protocol := by
  rw [matchRoute, maxByKey_eq_none_iff, List.eq_nil_iff_forall_not_mem]
  constructor
  · intro h route hmem hmatches
    exact h route (mem_admitted.mpr ⟨hmem, hmatches⟩)
  · intro h route hmem
    exact h route (mem_admitted.mp hmem).1 (mem_admitted.mp hmem).2

theorem Route.Matches.pathPrefix_eq {other : Route} (h : route.Matches path protocol)
    (h' : other.Matches path protocol)
    (hlen : route.pathPrefix.utf8ByteSize = other.pathPrefix.utf8ByteSize) :
    route.pathPrefix = other.pathPrefix := by
  obtain ⟨rest, hrest⟩ := startsWith_iff.mp h.pathPrefix
  obtain ⟨rest', hrest'⟩ := startsWith_iff.mp h'.pathPrefix
  exact prefix_unique (hrest.symm.trans hrest') hlen

/-- Two matching routes of a table with distinct prefixes that are
equally long are one. -/
theorem DistinctPrefixes.unique {other : Route} (h : DistinctPrefixes routes)
    (hroute : route ∈ routes) (hother : other ∈ routes) (hmatches : route.Matches path protocol)
    (hmatches' : other.Matches path protocol)
    (hlen : route.pathPrefix.utf8ByteSize = other.pathPrefix.utf8ByteSize) : route = other := by
  by_contra hne
  have hapart : route.Apart other := List.Pairwise.forall h hroute hother hne
  exact hapart protocol hmatches.protocol hmatches'.protocol (hmatches.pathPrefix_eq hmatches' hlen)

theorem DistinctPrefixes.matchRoute_perm {routes' : List Route} (h : DistinctPrefixes routes)
    (hperm : routes.Perm routes') :
    matchRoute routes' path protocol = matchRoute routes path protocol := by
  cases hroute : matchRoute routes path protocol with
  | none =>
    rw [matchRoute_none_iff] at hroute ⊢
    exact fun route hmem => hroute route (hperm.mem_iff.mpr hmem)
  | some route =>
    obtain ⟨hmem, hmatches⟩ := matchRoute_matches hroute
    cases hroute' : matchRoute routes' path protocol with
    | none => exact absurd hmatches (matchRoute_none_iff.mp hroute' route (hperm.mem_iff.mp hmem))
    | some other =>
      obtain ⟨hmem', hmatches'⟩ := matchRoute_matches hroute'
      have hle := matchRoute_longest hroute (hperm.mem_iff.mpr hmem') hmatches'
      have hge := matchRoute_longest hroute' (hperm.mem_iff.mp hmem) hmatches
      rw [h.unique (hperm.mem_iff.mpr hmem') hmem hmatches' hmatches (Nat.le_antisymm hle hge)]

end

/-- **Longest prefix.** The route that is matched is one of the table
that the request may take, with a prefix at least as long as that of
every other such route; there is none only when no route may be taken;
and when no two routes of a common protocol share a prefix, every
permutation of the table matches the same route. -/
theorem match_route_longest_prefix (routes : List Route) (path : String) (protocol : Protocol) :
    (∀ route, matchRoute routes path protocol = some route →
      (route ∈ routes ∧ route.Matches path protocol)
        ∧ ∀ other ∈ routes, other.Matches path protocol →
          other.pathPrefix.utf8ByteSize ≤ route.pathPrefix.utf8ByteSize)
    ∧ (matchRoute routes path protocol = none → ∀ route ∈ routes, ¬ route.Matches path protocol)
    ∧ (DistinctPrefixes routes → ∀ routes', routes.Perm routes' →
      matchRoute routes' path protocol = matchRoute routes path protocol) := by
  refine ⟨?_, ?_, ?_⟩
  · intro route h
    exact ⟨matchRoute_matches h, fun other hmem hmatches => matchRoute_longest h hmem hmatches⟩
  · exact matchRoute_none_iff.mp
  · intro h routes' hperm
    exact h.matchRoute_perm hperm

/-- Two routes with nested prefixes, in both orders. -/
theorem nested_prefixes_in_any_order :
    let api : Route := { name := "api", pathPrefix := "/api", upstream := "svc-a" }
    let v1 : Route := { name := "api-v1", pathPrefix := "/api/v1", upstream := "svc-b" }
    matchRoute [api, v1] "/api/v1/users" .http1 = some v1
      ∧ matchRoute [v1, api] "/api/v1/users" .http1 = matchRoute [api, v1] "/api/v1/users" .http1 := by
  intro api v1
  have hapart : DistinctPrefixes [api, v1] := by
    refine List.pairwise_pair.mpr fun _ _ _ => ?_
    decide
  have hmatch := match_route_longest_prefix [api, v1] "/api/v1/users" .http1
  exact ⟨by decide, hmatch.2.2 hapart [v1, api] (List.Perm.swap v1 api [])⟩

end KongGateway.GatewayCore

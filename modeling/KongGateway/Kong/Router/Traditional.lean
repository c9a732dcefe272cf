import KongGateway.Lib.LuaStd
import Mathlib.Algebra.BigOperators.Group.Finset.Basic
import Mathlib.Data.Fintype.Basic
import Mathlib.Data.Rat.Defs

/-!
# Traditional — marshalled routes, their indexes and their categories

The model of the half of `router/traditional.lua` that runs when a
router is built: `marshall_route`, the plain indexes, the categories and
their buckets.

A set of match rules is a `Finset` where the source has a bit mask; the
category of a route is that set. A table that the source fills route by
route and never changes again is here a function of the list of
marshalled routes, in the order the routes were sorted in. Service
fields and upstream urls are left out.
-/

namespace KongGateway.Kong.Router.Traditional

open LuaStd

/-! ## Hosts and ports -/

def onlyDigits (s : List Char) : Bool := s.all fun c => '0' ≤ c && c ≤ '9'

def safeAddPort (host : String) : Option Nat → String
  | none => host
  | some port => host ++ ":" ++ toString port

/-- `split_port`: the host without its port, the host with a port, and
whether the input had a port. -/
def splitPort (name : String) (defaultPort : Option Nat) : String × String × Bool :=
  if name.toList.head? = some '[' then
    if name.toList.getLast? = some ']' then
      (String.ofList (name.toList.drop 1).dropLast, safeAddPort name defaultPort, false)
    else
      match splitAtText [']', ':'] (name.toList.drop 1) with
      | some (host, []) =>
        (String.ofList host, name ++ (defaultPort.map toString).getD "", false)
      | some (host, port) =>
        if onlyDigits port then (String.ofList host, name, true)
        else (name, safeAddPort name defaultPort, false)
      | none => (name, safeAddPort name defaultPort, false)
  else
    match splitAtText [':'] name.toList with
    | none => (name, safeAddPort name defaultPort, false)
    | some (host, []) => (String.ofList host, safeAddPort (String.ofList host) defaultPort, false)
    | some (host, port) =>
      if onlyDigits port then (String.ofList host, name, true)
      else
        match defaultPort with
        | some defaultPort => (name, "[" ++ name ++ "]:" ++ toString defaultPort, false)
        | none => (name, name, false)

/-! ## Routes -/

structure SrcDst where
  ip : Option String := none
  port : Option Nat := none
deriving DecidableEq, Repr

/-- A route entity. `headers` is listed in the order `pairs` visits
it. -/
structure Route where
  id : Option String := none
  hosts : Option (List String) := none
  headers : Option (List (String × List String)) := none
  paths : Option (List String) := none
  methods : Option (List String) := none
  snis : Option (List String) := none
  sources : Option (List SrcDst) := none
  destinations : Option (List SrcDst) := none
  regexPriority : Option Int := none
  createdAt : Option ℚ := none
deriving DecidableEq

inductive MatchRule where
  | host
  | header
  | uri
  | method
  | sni
  | src
  | dst
deriving DecidableEq, Repr

instance : Fintype MatchRule where
  elems := {.host, .header, .uri, .method, .sni, .src, .dst}
  complete := by
    intro rule
    cases rule <;> decide

/-- The bit of a rule in `MATCH_RULES`. -/
def MatchRule.bit : MatchRule → Nat
  | host => 0x40
  | header => 0x20
  | uri => 0x10
  | method => 0x08
  | sni => 0x04
  | src => 0x02
  | dst => 0x01

inductive HostT where
  | plain (value : String)
  | wildcard (value regex : String)
deriving DecidableEq, Repr

def HostT.value : HostT → String
  | plain value => value
  | wildcard value _ => value

/-- The values are in lower case. -/
structure HeaderT where
  name : String
  values : List String
  headerPattern : Option String
deriving DecidableEq, Repr

inductive UriT where
  | plain (value : String)
  | regex (value stripRegex : String)
deriving DecidableEq, Repr

def UriT.value : UriT → String
  | plain value => value
  | regex value _ => value

/-- A marshalled route. -/
structure RouteT where
  route : Route
  matchRules : Finset MatchRule
  submatchWeight : Nat
  maxUriLength : Nat
  hosts : List HostT
  headers : List HeaderT
  uris : List UriT
  methods : List String
  sources : List SrcDst
  destinations : List SrcDst
  snis : List String
deriving DecidableEq

/-! ## Marshalling -/

def wildcardHostRegex (host : String) : String :=
  let escaped := host.toList.flatMap fun c =>
    if c = '.' then ['\\', '.'] else if c = '*' then ['.', '+'] else [c]
  String.ofList escaped ++ (if (splitPort host none).2.2 then "$" else "(?::\\d+)?$")

def marshallHost (host : String) : HostT :=
  if host.toList.contains '*' then .wildcard host (wildcardHostRegex host) else .plain host

/-- The header `host` is no header rule; a single value that starts with
`~*` is a pattern, too. -/
def marshallHeader : String × List String → Option HeaderT
  | (name, values) =>
    if lower name = "host" then none
    else
      some {
        name := lower name
        values := values.map lower
        headerPattern :=
          match values with
          | [value] => if takeChars 2 value = "~*" then some (dropChars 2 value) else none
          | _ => none }

def regexPrefix : String := "(*LIMIT_MATCH=10000)"

def marshallPath (path : String) : UriT :=
  if takeChars 1 path = "~" then
    .regex (dropChars 1 path) ( regexPrefix ++ dropChars 1 path ++ "(?<uri_postfix>.*)")
  else .plain path

/-- The last dot of a fully qualified name is not used for routing. -/
def marshallSni (sni : String) : String :=
  if 1 < sni.length ∧ sni.toList.getLast? = some '.' then String.ofList sni.toList.dropLast
  else sni

def HostT.isWildcard : HostT → Bool
  | plain _ => false
  | wildcard _ _ => true

def UriT.isRegex : UriT → Bool
  | plain _ => false
  | regex _ _ => true

/-- The sub-rule bits `HAS_REGEX_URI`, `PLAIN_HOSTS_ONLY` and
`HAS_WILDCARD_HOST_PORT`. -/
def submatchWeight (route : Route) (hosts : List HostT) (uris : List UriT) : Nat :=
  (if uris.any UriT.isRegex then 0x01 else 0)
    + (if route.hosts.isSome && !hosts.any HostT.isWildcard then 0x02 else 0)
    + if hosts.any fun host => host.isWildcard && (splitPort host.value none).2.2 then 0x04 else 0

/-- A rule is on when its list is not empty. -/
def ruleSet (used : MatchRule → Bool) : Finset MatchRule := Finset.univ.filter fun rule => used rule

def marshallRoute (route : Route) : Except String RouteT :=
  if route.hosts.isNone && route.headers.isNone && route.methods.isNone && route.paths.isNone
      && route.snis.isNone && route.sources.isNone && route.destinations.isNone then
    .error "could not categorize route"
  else
    let hosts := (route.hosts.getD []).map marshallHost
    let headers := (route.headers.getD []).filterMap marshallHeader
    let uris := (route.paths.getD []).map marshallPath
    let methods := (route.methods.getD []).map upper
    let snis := (route.snis.getD []).map marshallSni
    let sources := route.sources.getD []
    let destinations := route.destinations.getD []
    .ok {
      route := route
      matchRules := ruleSet fun
        | .host => !hosts.isEmpty
        | .header => !headers.isEmpty
        | .uri => !uris.isEmpty
        | .method => !methods.isEmpty
        | .sni => !snis.isEmpty
        | .src => !sources.isEmpty
        | .dst => !destinations.isEmpty
      submatchWeight := submatchWeight route hosts uris
      maxUriLength := (uris.map fun uri => if uri.isRegex then 0 else uri.value.length).foldl max 0
      hosts := hosts, headers := headers, uris := uris, methods := methods
      sources := sources, destinations := destinations, snis := snis }

/-- A route with several paths is marshalled once for each of them. -/
def splitByPaths (route : Route) : List Route :=
  match route.paths with
  | some (first :: second :: rest) =>
    (first :: second :: rest).map fun path => { route with paths := some [path] }
  | _ => [route]

/-- All marshalled routes; they refer to the route as it was given. -/
def marshallRoutes (routes : List Route) : Except String (List RouteT) :=
  (routes.flatMap fun route => (splitByPaths route).map fun part => (route, part)).mapM
    fun (route, part) => (marshallRoute part).map fun routeT => { routeT with route := route }

/-! ## Orders -/

/-- `sort_routes`: whether `r1` comes before `r2`. -/
def sortRoutes (r1 r2 : RouteT) : Bool :=
  if r1.submatchWeight ≠ r2.submatchWeight then r2.submatchWeight < r1.submatchWeight
  else if r1.headers.length ≠ r2.headers.length then r2.headers.length < r1.headers.length
  else
    let rp1 := r1.route.regexPriority.getD 0
    let rp2 := r2.route.regexPriority.getD 0
    if r1.submatchWeight % 2 ≠ 0 ∧ rp1 ≠ rp2 then rp2 < rp1
    else if r1.maxUriLength ≠ r2.maxUriLength then r2.maxUriLength < r1.maxUriLength
    else
      match r1.route.createdAt, r2.route.createdAt with
      | some created1, some created2 => created1 < created2
      | _, _ => false

/-- The number the source has for a set of rules. -/
def categoryBit (rules : Finset MatchRule) : Nat := ∑ rule ∈ rules, rule.bit

/-- `sort_categories`: more rules first, then the larger bit mask. -/
def sortCategories (c1 c2 : Finset MatchRule) : Bool :=
  if c1.card ≠ c2.card then c2.card < c1.card else categoryBit c2 < categoryBit c1

def sortUris (p1 p2 : String) : Bool := p2.length < p1.length

/-- `sort_sources` and `sort_destinations` on the list they compare: a
route with an entry that has both an ip and a port comes first. -/
def sortSrcDst (list : RouteT → List SrcDst) (r1 r2 : RouteT) : Bool :=
  let ipPort := fun r => (list r).any fun entry => entry.ip.isSome && entry.port.isSome
  ipPort r1 && !ipPort r2

/-! ## The router -/

/-- A router: its marshalled routes, sorted, and the routes by id. -/
structure TraditionalRouter where
  routes : List RouteT
  routesById : String → Option Route

def TraditionalRouter.new (table : TableSort) (routes : List Route) :
    Except String TraditionalRouter := do
  let marshalled ← marshallRoutes routes
  return {
    routes := table.sort sortRoutes marshalled
    routesById := fun id => routes.reverse.find? fun route => route.id = some id }

/-- A key of the address tables: an ip, a port, or the empty text that
stands for a missing one. -/
inductive AddrKey where
  | text (s : String)
  | number (n : Nat)
deriving DecidableEq, Repr

def AddrKey.ofPort : Option Nat → AddrKey
  | none => .text ""
  | some port => .number port

/-- The keys under which an address entry is indexed. -/
def SrcDst.keys (entry : SrcDst) : List AddrKey :=
  (entry.ip.map AddrKey.text).toList ++ (entry.port.map AddrKey.number).toList

/-- The entry's ip as a range, if it is one. -/
def SrcDst.range (entry : SrcDst) : Option String :=
  entry.ip.filter fun ip => ip.toList.contains '/'

namespace TraditionalRouter

variable (router : TraditionalRouter)

/-! ### Plain indexes -/

def plainHosts : List String :=
  router.routes.flatMap fun r => r.hosts.filterMap fun
    | .plain value => some value
    | .wildcard _ _ => none

/-- The wildcard hosts with their regexes, in the order of the routes. -/
def wildcardHosts : List (String × String) :=
  router.routes.flatMap fun r => r.hosts.filterMap fun
    | .plain _ => none
    | .wildcard value regex => some (value, regex)

/-- The header names in the order of their first occurrence. -/
def headerNames : List String :=
  (router.routes.flatMap fun r => r.headers.map (·.name)).eraseDups

def plainUris : List String :=
  router.routes.flatMap fun r => r.uris.filterMap fun
    | .plain value => some value
    | .regex _ _ => none

/-- The paths that are regexes, in the order of the routes. -/
def regexUris : List String :=
  router.routes.flatMap fun r => r.uris.filterMap fun
    | .plain _ => none
    | .regex value _ => some value

def methods : List String := router.routes.flatMap (·.methods)

def snis : List String := router.routes.flatMap (·.snis)

def addrKeys (list : RouteT → List SrcDst) : List AddrKey :=
  router.routes.flatMap fun r => (list r).flatMap SrcDst.keys

/-- The ranges behind `src_trust_funcs` and `dst_trust_funcs`. -/
def addrRanges (list : RouteT → List SrcDst) : List String :=
  router.routes.flatMap fun r => (list r).filterMap SrcDst.range

/-! ### Categories -/

/-- `categories[rules].all`. -/
def category (rules : Finset MatchRule) : List RouteT :=
  router.routes.filter fun r => r.matchRules = rules

/-- `categories_weight_sorted`. -/
def categories (table : TableSort) : List (Finset MatchRule) :=
  table.sort sortCategories (router.routes.map (·.matchRules)).eraseDups

end TraditionalRouter

/-- A bucket of a category: the routes in order, each once for every key
it lists that is `k`; `nil` if there is none. -/
def bucket {κ : Type} [DecidableEq κ] (keys : RouteT → List κ) (all : List RouteT) (k : κ) :
    Option (List RouteT) :=
  match all.flatMap fun r => ((keys r).filter (· = k)).map fun _ => r with
  | [] => none
  | routes => some routes

end KongGateway.Kong.Router.Traditional

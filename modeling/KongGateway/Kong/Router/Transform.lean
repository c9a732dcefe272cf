import KongGateway.Kong.Router.Traditional
import KongGateway.Lib.LuaBit

/-!
# Transform — the priority of a route in the expressions router

`get_priority` packs what a traditional route matches on into one word;
routes with several paths are split first, so that the paths of one
route are all regexes or all of one length.
-/

namespace KongGateway.Kong.Router.Transform

open LuaBit

/-- A route with the fields that only this router reads. -/
structure Route extends Traditional.Route where
  protocols : Option (List String) := none
  expression : Option String := none
  priority : Option Nat := none
deriving DecidableEq

/-- `is_empty_field`. -/
def isEmptyField {α : Type} (field : Option (List α)) : Bool :=
  match field with
  | none => true
  | some items => items.isEmpty

/-- `is_regex_magic`. -/
def isRegexMagic (path : String) : Bool := path.toList.head? = some '~'

def isStreamProtocol (protocol : String) : Bool :=
  protocol = "tcp" || protocol = "udp" || protocol = "tls" || protocol = "tls_passthrough"

/-- `is_stream_route`. -/
def isStreamRoute (r : Route) : Bool :=
  match r.protocols with
  | none => false
  | some protocols => (protocols.head?.map isStreamProtocol).getD false

/-- `lshift_uint64`: it stores the value in the variable that held the
cdata, and shifts the value as it is. -/
def lshiftUint64 (v : LuaBit.Num) (offset : Nat) : LuaBit.Num := lshift v offset

/-! ## Stream routes -/

def streamSniBit : LuaBit.Num := lshiftUint64 (.uint64 1) 61
def ipBit : LuaBit.Num := lshiftUint64 (.uint64 1) 3
def portBit : LuaBit.Num := lshiftUint64 (.uint64 1) 2
def cidrBit : LuaBit.Num := lshiftUint64 (.uint64 1) 0

/-- `calc_ip_weight`. -/
def calcIpWeight (ips : Option (List Traditional.SrcDst)) : LuaBit.Num :=
  if isEmptyField ips then .uint64 0
  else
    (ips.getD []).foldl
      (fun weight item =>
        let weight := match item.ip with
          | none => weight
          | some ip => if ip.toList.contains '/' then bor [weight, cidrBit] else bor [weight, ipBit]
        if item.port.isSome then bor [weight, portBit] else weight)
      (.uint64 0)

/-- `stream_get_priority`. -/
def streamGetPriority (r : Route) : LuaBit.Num :=
  let matchWeight : LuaBit.Num := if isEmptyField r.snis then .uint64 0 else streamSniBit
  let matchWeight :=
    if !isEmptyField r.sources && !isEmptyField r.destinations then streamSniBit else matchWeight
  bor [matchWeight, lshiftUint64 (calcIpWeight r.sources) 4, calcIpWeight r.destinations]

/-! ## HTTP routes -/

def maxHeaderCount : Nat := 255

def plainHostOnlyBit : LuaBit.Num := lshiftUint64 (.uint64 1) 60
def regexUrlBit : LuaBit.Num := lshiftUint64 (.uint64 1) 51
def expressionOnlyBit : LuaBit.Num := lshiftUint64 (.uint64 0xFF) 56

def headersCount (r : Route) : Nat :=
  if isEmptyField r.headers then 0 else (r.headers.getD []).length

/-- The number of fields the route matches on. -/
def matchWeight (r : Route) : Nat :=
  (if isEmptyField r.sources then 0 else 1) + (if isEmptyField r.destinations then 0 else 1)
    + (if isEmptyField r.methods then 0 else 1) + (if isEmptyField r.hosts then 0 else 1)
    + (if 0 < headersCount r then 1 else 0) + (if isEmptyField r.snis then 0 else 1)
    + (if isEmptyField r.paths then 0 else 1)

def cappedHeadersCount (r : Route) : Nat :=
  if maxHeaderCount < headersCount r then maxHeaderCount else headersCount r

def plainHostOnly (r : Route) : Bool :=
  match r.hosts with
  | none => false
  | some hosts => hosts.all fun h => !h.toList.contains '*'

/-- Whether the paths are regexes, and the length of the prefixes
otherwise. The asserts reject a mixture. -/
def regexUrlAndLength (r : Route) : Except String (Bool × Nat) :=
  match r.paths.getD [] with
  | [] => .ok (false, 0)
  | p :: rest =>
    if isRegexMagic p then
      if rest.all isRegexMagic then .ok (true, 0)
      else .error "cannot mix regex and non-regex paths in get_priority()"
    else if rest.all fun q => q.length = p.length then .ok (false, p.length)
    else .error "cannot mix different length prefixes in get_priority()"

/-- The word of an HTTP route. -/
def httpPriority (r : Route) (regexUrl : Bool) (uriLength : Nat) : LuaBit.Num :=
  let matchWeight := lshiftUint64 (.number (matchWeight r)) 61
  let headersCount := lshiftUint64 (.number (cappedHeadersCount r)) 52
  let regexPriority :=
    lshiftUint64 (.number (if regexUrl then r.regexPriority.getD 0 else 0)) 19
  let maxLength := band (.number uriLength) (.number 0x7FFFF)
  bor [matchWeight,
    if plainHostOnly r then plainHostOnlyBit else .number 0,
    if regexUrl then regexUrlBit else .number 0,
    headersCount,
    regexPriority,
    maxLength]

/-- `get_priority`. -/
def getPriority (r : Route) : Except String LuaBit.Num :=
  if r.expression.isSome then .ok (bor [expressionOnlyBit, .number (r.priority.getD 0)])
  else if isStreamRoute r then .ok (streamGetPriority r)
  else
    match regexUrlAndLength r with
    | .error err => .error err
    | .ok (regexUrl, uriLength) =>
      if matchWeight r ≤ 7 then .ok (httpPriority r regexUrl uriLength)
      else .error "assertion failed!"

/-! ## Splitting by path -/

/-- The group of a path. -/
def pathKey (path : String) : Nat := if isRegexMagic path then 0 else path.length

/-- A path goes to the group of its key, or starts one. -/
def insertPath (path : String) : List (Nat × List String) → List (Nat × List String)
  | [] => [(pathKey path, [path])]
  | (k, group) :: rest =>
    if k = pathKey path then (k, group ++ [path]) :: rest
    else (k, group) :: insertPath path rest

/-- `group_by_regex_or_length`. -/
def groupByRegexOrLength (paths : List String) : List (List String) :=
  (paths.foldl (fun groups path => insertPath path groups) []).map Prod.snd

/-- The routes that stand for one route: itself, or one route per group
of paths. `uuid` makes the ids of the new routes. -/
def splitRoute (uuid : String → String) (r : Route) : List Route :=
  let paths := r.paths.getD []
  if isEmptyField r.paths || paths.length = 1 || r.expression.isSome then [r]
  else
    let groups := groupByRegexOrLength paths
    if groups.length = 1 then [r]
    else
      groups.mapIdx fun index group =>
        { r with
          paths := some group
          id := some (uuid (r.id.getD "" ++ "#" ++ toString (index + 1))) }

/-- `split_routes_and_services_by_path`: the first route of a split
takes the place of the original one, the others go to the end. -/
def splitRoutesAndServicesByPath {Service : Type} (uuid : String → String)
    (routesAndServices : List (Route × Option Service)) : List (Route × Option Service) :=
  routesAndServices.flatMap (fun (r, service) => (splitRoute uuid r).head?.toList.map (·, service))
    ++ routesAndServices.flatMap (fun (r, service) => (splitRoute uuid r).tail.map (·, service))

end KongGateway.Kong.Router.Transform

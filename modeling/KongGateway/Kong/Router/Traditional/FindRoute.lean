import KongGateway.Kong.Router.Traditional

/-!
# FindRoute — matching a request against the categories

The model of the half of `router/traditional.lua` that runs for every
request: `find_route` without its caches, the matchers, the reducers and
`find_match`.

The regex engine and the ip matcher are parameters (`MatchLib`). A
matcher that the source runs for its effect on `ctx.matches` returns
here what it would write there. Of the table `find_match` returns, the
route and the matches are kept.
-/

namespace KongGateway.Kong.Router.Traditional

open LuaStd

/-! ## The environment -/

/-- What `ngx.re.match` captured: the text of the group `uri_postfix`,
the numbered groups (that one last) and the named ones. -/
structure ReMatch where
  uriPostfix : Option String
  groups : List (Option String)
  named : List (String × Option String)
deriving DecidableEq, Repr

/-- The libraries behind the matchers: `ngx.re.find` and `ngx.re.match`
anchored at the start of the subject, `ngx.re.find` without an anchor
(where an error counts as no match), and the ranges of
`resty.ipmatcher`. The subject of `find` may be `nil`. -/
structure MatchLib where
  find : (subject : Option String) → (regex : String) → Except String Bool
  reMatch : (subject regex : String) → Except String (Option ReMatch)
  search : (subject regex : String) → Bool
  inRange : (range ip : String) → Bool

/-- A library for routes without regexes and ranges. -/
def plainLib : MatchLib where
  find := fun _ _ => .ok false
  reMatch := fun _ _ => .ok none
  search := fun _ _ => false
  inRange := fun _ _ => false

inductive HeaderValue where
  | single (s : String)
  | multiple (items : List String)
deriving DecidableEq, Repr

/-- The values of a header in lower case, in order. -/
def HeaderValue.lowered : HeaderValue → List String
  | single s => [lower s]
  | multiple items => items.map lower

/-- The arguments of `find_route`. -/
structure Request where
  method : Option String := none
  uri : Option String := none
  host : Option String := none
  scheme : Option String := none
  srcIp : Option String := none
  srcPort : Option Nat := none
  dstIp : Option String := none
  dstPort : Option Nat := none
  sni : Option String := none
  headers : String → Option HeaderValue := fun _ => none

namespace Request

variable (req : Request)

def defaultPort : Nat := if req.scheme = some "https" then 443 else 80

def hostNoPort : Option String :=
  req.host.map fun host => (splitPort host (some req.defaultPort)).1

def hostWithPort : Option String :=
  req.host.map fun host => (splitPort host (some req.defaultPort)).2.1

end Request

/-- What the indexes found. -/
structure Hits where
  host : Option String := none
  headerName : Option String := none
  uri : Option String := none
deriving DecidableEq, Repr

/-- The context of one search. -/
structure Ctx where
  req : Request
  hits : Hits

/-! ## Matchers -/

def sanitizeUriPostfix (postfix' : String) : String :=
  if postfix' = "" then postfix'
  else if postfix' = "." ∨ postfix' = ".." then ""
  else if takeChars 2 postfix' = "./" then dropChars 2 postfix'
  else if takeChars 3 postfix' = "../" then dropChars 3 postfix'
  else postfix'

structure UriCaptures where
  groups : List (Option String)
  named : List (String × Option String)
deriving DecidableEq, Repr

structure UriMatch where
  uri : String
  uriPrefix : Option String
  uriPostfix : Option String
  uriCaptures : Option UriCaptures
deriving DecidableEq, Repr

/-- `ctx.matches` after a successful try. -/
structure Matches where
  host : Option String
  headers : Option (List (String × String))
  uri : Option UriMatch
  method : Option String
  sni : Option String
  src : Option SrcDst
  dst : Option SrcDst
deriving DecidableEq, Repr

section Matchers

variable (lib : MatchLib)

/-- The first value for which the check answers; an error ends the
scan. -/
def scan {α : Type} (check : α → Except String Bool) : List α → Except String (Option α)
  | [] => .ok none
  | a :: rest =>
    match check a with
    | .error err => .error err
    | .ok true => .ok (some a)
    | .ok false => scan check rest

def matchHost (r : RouteT) (ctx : Ctx) : Option String :=
  let reqHost := ctx.hits.host.getD (ctx.req.host.getD "")
  if .plain reqHost ∈ r.hosts then some reqHost
  else
    match ctx.req.hostNoPort.filter fun host => .plain host ∈ r.hosts with
    | some host => some host
    | none =>
      let wildcards := r.hosts.filter HostT.isWildcard
      let check := fun
        | HostT.plain _ => .ok false
        | HostT.wildcard _ regex => lib.find ctx.req.hostWithPort regex
      match scan check wildcards with
      | .ok (some host) => some host.value
      | .ok none => none
      | .error _ => none

/-- The first value of the header that the rule accepts. -/
def matchHeader (header : HeaderT) (value : HeaderValue) : Option String :=
  value.lowered.find? fun v =>
    header.values.contains v || header.headerPattern.any fun pattern => lib.search v pattern

def matchHeaders (r : RouteT) (ctx : Ctx) : Option (List (String × String)) :=
  r.headers.mapM fun header =>
    (ctx.req.headers header.name).bind fun value =>
      (matchHeader lib header value).map fun v => (header.name, v)

/-- A match of a regex path; the postfix group is taken out of the
captures. -/
def regexUriMatch (reqUri value : String) (m : ReMatch) : UriMatch :=
  let groups := if m.uriPostfix.isSome then m.groups.dropLast else m.groups
  let named :=
    if m.uriPostfix.isSome then m.named.filter fun group => group.1 ≠ "uri_postfix" else m.named
  { uri := value
    uriPrefix := m.uriPostfix.map fun p => takeChars (reqUri.length - p.length) reqUri
    uriPostfix := m.uriPostfix.map sanitizeUriPostfix
    uriCaptures := if groups.isEmpty then none else some { groups := groups, named := named } }

def plainUriMatch (reqUri value : String) : UriMatch where
  uri := value
  uriPrefix := some (takeChars value.length reqUri)
  uriPostfix := some (sanitizeUriPostfix (dropChars value.length reqUri))
  uriCaptures := none

/-- One path of the list, not from the index. -/
def matchOneUri (reqUri : String) : UriT → Except String (Option UriMatch)
  | .plain value =>
    .ok (if startsWith reqUri value then some (plainUriMatch reqUri value) else none)
  | .regex value stripRegex =>
    (lib.reMatch reqUri stripRegex).map fun m => m.map (regexUriMatch reqUri value)

/-- The paths in order; an evaluation error is no match. -/
def matchUriList (reqUri : String) : List UriT → Option UriMatch
  | [] => none
  | uri :: rest =>
    match matchOneUri lib reqUri uri with
    | .error _ => none
    | .ok (some m) => some m
    | .ok none => matchUriList reqUri rest

/-- The path the index found, or else the request path itself, is looked
up among the route's paths. A regex that was found so and does not match
is taken like a plain path. -/
def matchUri (r : RouteT) (ctx : Ctx) : Option UriMatch :=
  let reqUri := ctx.req.uri.getD ""
  if reqUri = "" then none
  else
    match r.uris.reverse.find? fun uri => uri.value = ctx.hits.uri.getD reqUri with
    | none => matchUriList lib reqUri r.uris
    | some (.plain value) => some (plainUriMatch reqUri value)
    | some (.regex value stripRegex) =>
      match lib.reMatch reqUri stripRegex with
      | .error _ => none
      | .ok (some m) => some (regexUriMatch reqUri value m)
      | .ok none => some (plainUriMatch reqUri value)

def matchMethod (r : RouteT) (ctx : Ctx) : Option String :=
  if r.methods.contains (ctx.req.method.getD "") then some (ctx.req.method.getD "") else none

/-- Without TLS there is no SNI to compare. -/
def matchSni (r : RouteT) (ctx : Ctx) : Option String :=
  if ctx.req.scheme = some "http" ∨ r.snis.contains (ctx.req.sni.getD "") then
    some (ctx.req.sni.getD "")
  else none

def matcherSrcDst (list : List SrcDst) (ip : String) (port : Option Nat) : Option SrcDst :=
  list.find? fun entry =>
    (match entry.ip with
      | none => true
      | some entryIp => if entry.range.isSome then lib.inRange entryIp ip else entryIp == ip)
      && (entry.port.isNone || entry.port == port)

/-- A rule of the route has to match; a rule it does not have is not
asked. -/
def ruleMatch {α : Type} (r : RouteT) (rule : MatchRule) (found : Option α) : Option (Option α) :=
  if rule ∈ r.matchRules then found.map some else some none

/-- `match_route`. -/
def matchRoute (r : RouteT) (ctx : Ctx) : Option Matches := do
  let host ← ruleMatch r .host (matchHost lib r ctx)
  let headers ← ruleMatch r .header (matchHeaders lib r ctx)
  let uri ← ruleMatch r .uri (matchUri lib r ctx)
  let method ← ruleMatch r .method (matchMethod r ctx)
  let sni ← ruleMatch r .sni (matchSni r ctx)
  let src ← ruleMatch r .src
    (matcherSrcDst lib r.sources (ctx.req.srcIp.getD "") ctx.req.srcPort)
  let dst ← ruleMatch r .dst
    (matcherSrcDst lib r.destinations (ctx.req.dstIp.getD "") ctx.req.dstPort)
  return {
    host := host, headers := headers, uri := uri, method := method, sni := sni
    src := src, dst := dst }

/-- `match_candidates`. -/
def matchCandidates (candidates : List RouteT) (ctx : Ctx) : Option (RouteT × Matches) :=
  candidates.findSome? fun r => (matchRoute lib r ctx).map fun m => (r, m)

end Matchers

/-! ## Reducers -/

/-- The subsystem decides which reducers a category may use. -/
def sortedMatchRules (isHttp : Bool) : List MatchRule :=
  if isHttp then [.host, .header, .uri, .method, .sni] else [.sni, .src, .dst]

section Reducers

variable (table : TableSort) (isHttp : Bool) (all : List RouteT) (ctx : Ctx)

/-- A bucket of the address tables, which are sorted once more. -/
def addrBucket (list : RouteT → List SrcDst) (key : AddrKey) : Option (List RouteT) :=
  (bucket (fun r => ((list r).flatMap SrcDst.keys).eraseDups) all key).map
    (table.sort (sortSrcDst list))

def reducer : MatchRule → Option (List RouteT)
  | .host => bucket (fun r => r.hosts.map HostT.value) all
      (ctx.hits.host.getD (ctx.req.host.getD ""))
  | .header => ctx.hits.headerName.bind (bucket (fun r => r.headers.map (·.name)) all)
  | .uri => ctx.hits.uri.bind (bucket (fun r => r.uris.map UriT.value) all)
  | .method => bucket (fun r => r.methods.eraseDups) all (ctx.req.method.getD "")
  | .sni => bucket (fun r => r.snis.eraseDups) all (ctx.req.sni.getD "")
  | .src =>
    (addrBucket table all RouteT.sources (.text (ctx.req.srcIp.getD ""))).or
      (addrBucket table all RouteT.sources (.ofPort ctx.req.srcPort))
  | .dst =>
    (addrBucket table all RouteT.destinations (.text (ctx.req.dstIp.getD ""))).or
      (addrBucket table all RouteT.destinations (.ofPort ctx.req.dstPort))

/-- The loop of `build_cached_reducer`: the header bucket is taken at
once, else the first of the smallest ones. -/
def reduceLoop : List MatchRule → Option (List RouteT) → Option (List RouteT)
  | [], smallest => smallest
  | rule :: rest, smallest =>
    match reducer table all ctx rule with
    | none => reduceLoop rest smallest
    | some candidates =>
      if rule = .header then some candidates
      else
        match smallest with
        | none => reduceLoop rest (some candidates)
        | some set =>
          if candidates.length < set.length then reduceLoop rest (some candidates)
          else reduceLoop rest (some set)

/-- `reduce`: a category of one rule has the reducer of that rule. -/
def reduce (rules : Finset MatchRule) : Option (List RouteT) :=
  match [MatchRule.host, .header, .uri, .method, .sni, .src, .dst].find? fun rule =>
      rules = {rule} with
  | some rule => reducer table all ctx rule
  | none =>
    reduceLoop table all ctx ((sortedMatchRules isHttp).filter fun rule => rule ∈ rules) none

end Reducers

/-! ## The search -/

namespace TraditionalRouter

variable (lib : MatchLib) (table : TableSort) (isHttp : Bool) (router : TraditionalRouter)

/-- One round of `find_match`. -/
def matchCategory (ctx : Ctx) (rules : Finset MatchRule) : Option (RouteT × Matches) :=
  match reduce table isHttp (router.category rules) ctx rules with
  | none => matchCandidates lib (router.category rules) ctx
  | some candidates =>
    (matchCandidates lib candidates ctx).or (matchCandidates lib (router.category rules) ctx)

/-- The categories that are searched: from the one of the request on, if
there is such a category, else all. -/
def searched (reqCategory : Finset MatchRule) : List (Finset MatchRule) :=
  if reqCategory ∈ router.categories table then
    (router.categories table).dropWhile fun rules => rules ≠ reqCategory
  else router.categories table

def findMatch (ctx : Ctx) (reqCategory : Finset MatchRule) : Option (RouteT × Matches) :=
  (router.searched table reqCategory).findSome? (router.matchCategory lib table isHttp ctx)

/-! ### The category of a request -/

/-- The wildcard host that the request's host matches, where the plain
index does not have it. -/
def hostHit (req : Request) : Except String (Bool × Option String) :=
  match req.host with
  | none => .ok (false, none)
  | some _ =>
    if req.hostWithPort.any router.plainHosts.contains
        || req.hostNoPort.any router.plainHosts.contains then
      .ok (true, none)
    else
      match scan (fun host => lib.find req.hostWithPort host.2) router.wildcardHosts with
      | .error err => .error err
      | .ok found => .ok (found.isSome, found.map (·.1))

/-- The path the indexes have for the request: the first regex that
matches, else the request path, else the longest prefix. -/
def uriHit (req : Request) : Except String (Option String) :=
  let reqUri := req.uri.getD ""
  match scan (fun regex => lib.find (some reqUri) regex) router.regexUris with
  | .error err => .error err
  | .ok (some regex) => .ok (some regex)
  | .ok none =>
    if router.plainUris.contains reqUri then .ok (some reqUri)
    else .ok ((table.sort sortUris router.plainUris).find? fun value => startsWith reqUri value)

def headerHit (req : Request) : Option String :=
  router.headerNames.find? fun name => (req.headers name).isSome

/-- `match_src_dst`. -/
def addrHit (list : RouteT → List SrcDst) (ip : String) (port : Option Nat) : Bool :=
  (router.addrKeys list).contains (.text ip) || (router.addrKeys list).contains (.ofPort port)
    || (router.addrRanges list).any fun range => lib.inRange range ip

/-- The hits and the category of a request, or the error that makes
`find_route` give up. -/
def reqCategory (req : Request) : Except String (Hits × Finset MatchRule) := do
  let (hostFound, host) ← router.hostHit lib req
  let uri ← router.uriHit lib table req
  let hits : Hits := { host := host, headerName := router.headerHit req, uri := uri }
  let rules := ruleSet fun
    | .host => hostFound
    | .header => hits.headerName.isSome
    | .uri => uri.isSome
    | .method => router.methods.contains (req.method.getD "")
    | .sni => router.snis.contains (req.sni.getD "")
    | .src => router.addrHit lib RouteT.sources (req.srcIp.getD "") req.srcPort
    | .dst => router.addrHit lib RouteT.destinations (req.dstIp.getD "") req.dstPort
  return (hits, rules)

/-- The route of a match is looked up by its id once more. -/
def resolve (r : RouteT) : Route := (r.route.id.bind router.routesById).getD r.route

/-- `find_route` without caches; an error of an index regex is the outer
`none`. -/
def findRoute (req : Request) : Option (Option (RouteT × Matches)) :=
  match router.reqCategory lib table req with
  | .error _ => none
  | .ok (hits, rules) =>
    if rules = ∅ then some none
    else some (router.findMatch lib table isHttp { req := req, hits := hits } rules)

end TraditionalRouter

end KongGateway.Kong.Router.Traditional

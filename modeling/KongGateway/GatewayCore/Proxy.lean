import KongGateway.GatewayCore.Resilience

/-!
# Proxy — the request path of the gateway

The model of the parts of `main.rs` that decide where a request goes:
the choice of an upstream and its registry, `pick_target`, the path
rewrite and the upstream URL, and the context a request is rate limited
in. One clock reading stands for one call of `pick_target`: all its
`is_available` queries are made at that instant.
-/

namespace KongGateway.GatewayCore

open RustStd

/-! ## The upstream of a request -/

/-- `deterministic_percentage_bucket`, over the hash of its three
arguments. -/
def percentageBucket (hasher : String → String → Nat → Nat) (routeName clientKey : String)
    (requestCount : Nat) : Nat :=
  hasher routeName clientKey requestCount % 100

/-- `force_canary` of `select_upstream_name`. -/
def TrafficSplitConfig.forceCanary (split : TrafficSplitConfig) (headers : HeaderMap) : Bool :=
  match split.canaryHeader with
  | none => false
  | some header =>
    match (headers.get header.name).bind headerToStr with
    | none => false
    | some value => value == header.value

def selectUpstreamName (hasher : String → String → Nat → Nat) (route : Route)
    (headers : HeaderMap) (clientKey : String) (requestCount : Nat) : String :=
  match route.trafficSplit.canaryUpstream with
  | none => route.upstream
  | some canaryUpstream =>
    if route.trafficSplit.forceCanary headers then canaryUpstream
    else if route.trafficSplit.canaryPercentage = 0 then route.upstream
    else if percentageBucket hasher route.name clientKey requestCount
        < route.trafficSplit.canaryPercentage.toNat then canaryUpstream
    else route.upstream

def findUpstream (upstreams : List UpstreamConfig) (name : String) :
    Option UpstreamConfig :=
  upstreams.find? fun upstream => upstream.name == name

/-- The registries by upstream name, as collected into a map: of several
upstreams of one name the last one's registry stays. -/
def buildRuntimeRegistry (cfg : GatewayConfig) : String → Option RuntimeRegistry :=
  cfg.upstreams.foldl
    (fun runtime upstream =>
      Function.update runtime upstream.name
        (some (.new upstream.healthChecks.passive upstream.circuitBreaker)))
    (fun _ => none)

/-! ## Picking a target -/

/-- The filter of `pick_target`: `is_available` is asked of the targets
in turn, and every answer may move the circuit of its key. -/
def availableTargets (upstreamName : String) (now : Instant) :
    RuntimeRegistry → List UpstreamTarget → List UpstreamTarget × RuntimeRegistry
  | registry, [] => ([], registry)
  | registry, target :: rest =>
    let (ok, registry) := registry.isAvailable now (targetKey upstreamName target.id)
    let (available, registry) := availableTargets upstreamName now registry rest
    (if ok then target :: available else available, registry)

def pickTarget (hasher : String → Nat) (upstream : UpstreamConfig)
    (registry : RuntimeRegistry) (now : Instant) (requestKey : String)
    (requestCount : Nat) : Option UpstreamTarget × RuntimeRegistry :=
  let (available, registry) := availableTargets upstream.name now registry upstream.targets
  if available.isEmpty then (none, registry)
  else
    (selectTarget hasher upstream.strategy available (some requestKey) requestCount,
      registry)

/-! ## The upstream URL -/

/-- The path and query of a URI as the `http` crate stores them: the
path part and the query behind the question mark. A fragment is dropped
by the parser, so the path part has neither separator in it. It is empty
for an absolute URI without a path and begins with a slash otherwise;
the one exception is the asterisk of `OPTIONS *`. -/
structure PathAndQuery where
  rawPath : List Char
  query : Option (List Char)
  rawPath_plain : ∀ c ∈ rawPath, c ≠ '?' ∧ c ≠ '#'
  rawPath_form : rawPath = [] ∨ rawPath.head? = some '/' ∨ rawPath = ['*'] ∧ query = none

namespace PathAndQuery

/-- `PathAndQuery::path`. -/
def path (pq : PathAndQuery) : String :=
  if pq.rawPath = [] then "/" else String.ofList pq.rawPath

/-- `PathAndQuery::as_str`. -/
def asStr (pq : PathAndQuery) : String :=
  match pq.query with
  | some query => String.ofList (pq.rawPath ++ '?' :: query)
  | none => pq.path

end PathAndQuery

/-- A request URI; the authority form of `CONNECT` has no path at all. -/
structure RequestUri where
  pathAndQuery : Option PathAndQuery

namespace RequestUri

/-- `Uri::path`. -/
def path (uri : RequestUri) : String :=
  match uri.pathAndQuery with
  | some pq => pq.path
  | none => ""

/-- `original_path_and_query` of `proxy_handler`. -/
def originalPathAndQuery (uri : RequestUri) : String :=
  match uri.pathAndQuery with
  | some pq => pq.asStr
  | none => uri.path

end RequestUri

/-- The slice `path_and_query[path_prefix.len()..]` is taken behind a
prefix of the path, so it cuts at a character boundary. -/
def rewritePathAndQuery (route : Route) (path pathAndQuery : String) : String :=
  match route.transform.request.pathPrefixRewrite with
  | none => pathAndQuery
  | some replacement =>
    if !startsWith path route.pathPrefix then pathAndQuery
    else
      replacement
        ++ String.ofList (pathAndQuery.toList.drop route.pathPrefix.toList.length)

/-- `format!("http://{}{}", target.address, transformed_path_and_query)`. -/
def upstreamUrl (target : UpstreamTarget) (transformedPathAndQuery : String) : String :=
  "http://" ++ target.address ++ transformedPathAndQuery

/-! ## The rate-limit context -/

/-- The context of a request on a matched route, from an identity and
the client's address: `client_key` is `route:ip`. -/
def limiterContext (route : Route) (identity : AuthenticatedIdentity) (clientIp : String) :
    RateLimitContext where
  route := route.name
  service := route.upstream
  consumer := identity.subject
  client := route.name ++ ":" ++ clientIp

end KongGateway.GatewayCore

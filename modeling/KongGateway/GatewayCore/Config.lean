import KongGateway.GatewayCore.Balancer
import KongGateway.GatewayCore.RateLimit
import KongGateway.GatewayCore.Router
import KongGateway.GatewayCore.Security

/-!
# Config — the gateway configuration and its validation

The model of `config.rs`, without the parts no modelled function reads
(the listener, connection, shutdown and active-probe sections).
`validate` checks the routes in order and then the upstreams, and
answers with the text of the first violation.
-/

namespace KongGateway.GatewayCore

structure PassiveHealthCheckConfig where
  failureThreshold : UInt32 := 3
  successThreshold : UInt32 := 1
deriving DecidableEq, Repr

structure CircuitBreakerConfig where
  failureThreshold : UInt32 := 5
  openMs : UInt64 := 5000
  halfOpenMaxRequests : UInt32 := 1
deriving DecidableEq, Repr

structure HealthCheckConfig where
  passive : PassiveHealthCheckConfig := {}
deriving DecidableEq, Repr

structure UpstreamConfig where
  name : String
  strategy : BalancingStrategy
  targets : List UpstreamTarget
  healthChecks : HealthCheckConfig := {}
  circuitBreaker : CircuitBreakerConfig := {}
deriving DecidableEq, Repr

structure RetryConfig where
  maxAttempts : UInt8 := 3
  backoffMs : UInt64 := 50
  idempotentOnly : Bool := true
  retryUnsafeMethods : Bool := false
deriving DecidableEq, Repr

structure ProxyRuntimeConfig where
  requestTimeoutMs : UInt64 := 7000
  retries : RetryConfig := {}
deriving DecidableEq, Repr

structure GatewayConfig where
  routes : List Route := []
  upstreams : List UpstreamConfig := []
  security : SecurityConfig := {}
  rateLimit : RateLimitConfig := {}
deriving DecidableEq, Repr

namespace GatewayConfig

def hasUpstream (cfg : GatewayConfig) (name : String) : Bool :=
  cfg.upstreams.any fun upstream => upstream.name == name

/-- The checks `validate` makes on one route, in the source's order. -/
def validateRoute (cfg : GatewayConfig) (route : Route) : Except String Unit := do
  if !cfg.hasUpstream route.upstream then
    throw ("route '" ++ route.name ++ "' references unknown upstream '"
      ++ route.upstream ++ "'")
  match route.trafficSplit.canaryUpstream with
  | some canaryUpstream =>
    if !cfg.hasUpstream canaryUpstream then
      throw ("route '" ++ route.name ++ "' references unknown canary upstream '"
        ++ canaryUpstream ++ "'")
  | none => pure ()
  if 100 < route.trafficSplit.canaryPercentage then
    throw ("route '" ++ route.name ++ "' has invalid canary percentage "
      ++ toString route.trafficSplit.canaryPercentage ++ "; must be <= 100")
  if 100 < route.faultInjection.probabilityPercent then
    throw ("route '" ++ route.name ++ "' has invalid fault injection probability "
      ++ toString route.faultInjection.probabilityPercent ++ "; must be <= 100")
  match route.faultInjection.abortStatus with
  | some status =>
    if !(100 ≤ status && status ≤ 599) then
      throw ("route '" ++ route.name ++ "' has invalid fault injection abort_status "
        ++ toString status ++ "; must be in 100..=599")
  | none => pure ()

def validateUpstream (upstream : UpstreamConfig) : Except String Unit :=
  if upstream.targets.isEmpty then
    throw ("upstream '" ++ upstream.name ++ "' has no targets")
  else pure ()

def validate (cfg : GatewayConfig) : Except String Unit := do
  if cfg.routes.isEmpty then
    throw "at least one route must be configured"
  cfg.routes.forM cfg.validateRoute
  cfg.upstreams.forM validateUpstream

end GatewayConfig

end KongGateway.GatewayCore

import KongGateway.GatewayCore.Proxy
import Mathlib.Data.List.Induction

/-!
# Proxy — the upstream of a request and its registry

A validated configuration has an upstream for every name a request can
select, and every upstream has a registry. Which entry a name denotes is
decided twice: the lookup takes the first entry of the name, the map of
registries keeps the last one's. Nothing in `validate` forbids a name to
be used twice.
-/

namespace KongGateway.GatewayCore

/-! ## What validation promises -/

theorem forM_except_ok {α ε : Type*} {check : α → Except ε Unit} {items : List α}
    (h : items.forM check = .ok ()) : ∀ item ∈ items, check item = .ok () := by
  induction items with
  | nil => simp
  | cons head rest ih =>
    simp only [List.forM] at h
    cases hhead : check head with
    | error err => simp [hhead, bind, Except.bind] at h
    | ok _ =>
      simp only [hhead, bind, Except.bind] at h
      intro item hmem
      rcases List.mem_cons.mp hmem with rfl | hrest
      · exact hhead
      · exact ih h item hrest

namespace GatewayConfig

variable {cfg : GatewayConfig}

theorem validate_route (h : cfg.validate = .ok ()) {route : Route} (hmem : route ∈ cfg.routes) :
    cfg.validateRoute route = .ok () := by
  unfold validate at h
  cases hroutes : cfg.routes.forM cfg.validateRoute with
  | error err =>
    split at h <;> simp [hroutes, bind, Except.bind, throw, throwThe, MonadExceptOf.throw]
      at h
  | ok _ => exact forM_except_ok hroutes route hmem

theorem validateRoute_upstreams {route : Route} (h : cfg.validateRoute route = .ok ()) :
    cfg.hasUpstream route.upstream = true
      ∧ ∀ canary, route.trafficSplit.canaryUpstream = some canary →
          cfg.hasUpstream canary = true := by
  unfold validateRoute at h
  cases hup : cfg.hasUpstream route.upstream with
  | false => simp [hup, bind, Except.bind, throw, throwThe, MonadExceptOf.throw] at h
  | true =>
    refine ⟨rfl, fun canary hcanary => ?_⟩
    cases hcan : cfg.hasUpstream canary with
    | false =>
      simp [hup, hcanary, hcan, bind, Except.bind, throw, throwThe, MonadExceptOf.throw]
        at h
    | true => rfl

end GatewayConfig

theorem selectUpstreamName_cases (hasher : String → String → Nat → Nat) (route : Route)
    (headers : HeaderMap) (clientKey : String) (requestCount : Nat) :
    selectUpstreamName hasher route headers clientKey requestCount = route.upstream
      ∨ route.trafficSplit.canaryUpstream
        = some (selectUpstreamName hasher route headers clientKey requestCount) := by
  unfold selectUpstreamName
  cases hcanary : route.trafficSplit.canaryUpstream with
  | none => exact .inl rfl
  | some canary =>
    cases hforce : route.trafficSplit.forceCanary headers with
    | true => exact .inr rfl
    | false =>
      simp only [Bool.false_eq_true, if_false]
      split
      · exact .inl rfl
      · split
        · exact .inr rfl
        · exact .inl rfl

/-! ## Which entry a name denotes -/

/-- The entries of a name, in the order of the configuration. -/
def GatewayConfig.upstreamsNamed (cfg : GatewayConfig) (name : String) : List UpstreamConfig :=
  cfg.upstreams.filter fun upstream => upstream.name == name

theorem findUpstream_eq_head? (cfg : GatewayConfig) (name : String) :
    findUpstream cfg.upstreams name = (cfg.upstreamsNamed name).head? :=
  (List.head?_filter ..).symm

/-- The registry of an upstream entry before any request. -/
def UpstreamConfig.newRegistry (upstream : UpstreamConfig) : RuntimeRegistry :=
  .new upstream.healthChecks.passive upstream.circuitBreaker

theorem buildRuntimeRegistry_eq_getLast? (cfg : GatewayConfig) (name : String) :
    buildRuntimeRegistry cfg name
      = (cfg.upstreamsNamed name).getLast?.map UpstreamConfig.newRegistry := by
  unfold buildRuntimeRegistry GatewayConfig.upstreamsNamed
  -- induction from the last entry on: it is the one written last
  induction cfg.upstreams using List.reverseRecOn with
  | nil => rfl
  | append_singleton init last ih =>
    rw [List.foldl_append, List.foldl_cons, List.foldl_nil, List.filter_append]
    by_cases hname : last.name = name
    · subst hname
      rw [Function.update_self]
      simp [UpstreamConfig.newRegistry]
    · rw [Function.update_of_ne (Ne.symm hname), ih]
      simp [hname]

theorem newRegistry_eq_iff (upstream upstream' : UpstreamConfig) :
    upstream.newRegistry = upstream'.newRegistry
      ↔ upstream.healthChecks.passive = upstream'.healthChecks.passive
        ∧ upstream.circuitBreaker = upstream'.circuitBreaker := by
  simp [UpstreamConfig.newRegistry, RuntimeRegistry.new]

/-- The first and the last entry of the name have the same passive
health-check and circuit-breaker settings. -/
def GatewayConfig.OneSetting (cfg : GatewayConfig) (name : String) : Prop :=
  (cfg.upstreamsNamed name).head?.map (fun upstream =>
      (upstream.healthChecks.passive, upstream.circuitBreaker))
    = (cfg.upstreamsNamed name).getLast?.map fun upstream =>
        (upstream.healthChecks.passive, upstream.circuitBreaker)

instance (cfg : GatewayConfig) (name : String) : Decidable (cfg.OneSetting name) :=
  inferInstanceAs (Decidable (_ = _))

theorem upstreamsNamed_ne_nil {cfg : GatewayConfig} {name : String}
    (h : cfg.hasUpstream name = true) : cfg.upstreamsNamed name ≠ [] := by
  obtain ⟨upstream, hmem, hname⟩ := List.any_eq_true.mp h
  exact List.ne_nil_of_mem (List.mem_filter.mpr ⟨hmem, hname⟩)

/-- The upstream selected on a matched route is one of a validated
configuration. -/
theorem hasUpstream_selected {cfg : GatewayConfig} (hvalid : cfg.validate = .ok ())
    {path : String} {protocol : Protocol} {route : Route}
    (hroute : matchRoute cfg.routes path protocol = some route)
    (hasher : String → String → Nat → Nat) (headers : HeaderMap) (clientKey : String)
    (requestCount : Nat) :
    cfg.hasUpstream (selectUpstreamName hasher route headers clientKey requestCount) = true := by
  have hchecks := GatewayConfig.validateRoute_upstreams
    (GatewayConfig.validate_route hvalid (matchRoute_spec hroute).1)
  rcases selectUpstreamName_cases hasher route headers clientKey requestCount with
    hown | hcanary
  · rw [hown]
    exact hchecks.1
  · exact hchecks.2 _ hcanary

/-- **The upstream of a request and its registry.** Under a validated
configuration a request on a matched route finds an upstream entry and a
registry under the entry's name; the registry was built from that
entry's settings if and only if the first and the last entry of the
selected name agree in them. -/
theorem selected_registry_iff (cfg : GatewayConfig) (hvalid : cfg.validate = .ok ())
    {path : String} {protocol : Protocol} {route : Route}
    (hroute : matchRoute cfg.routes path protocol = some route)
    (hasher : String → String → Nat → Nat) (headers : HeaderMap) (clientKey : String)
    (requestCount : Nat) :
    let name := selectUpstreamName hasher route headers clientKey requestCount
    ∃ upstream registry, findUpstream cfg.upstreams name = some upstream
      ∧ buildRuntimeRegistry cfg upstream.name = some registry
      ∧ (registry = .new upstream.healthChecks.passive upstream.circuitBreaker
          ↔ cfg.OneSetting name) := by
  intro name
  have hhas := hasUpstream_selected hvalid hroute hasher headers clientKey requestCount
  have hne := upstreamsNamed_ne_nil hhas
  have hfirst := List.head?_eq_some_head hne
  have hlast := List.getLast?_eq_some_getLast hne
  have hname : ((cfg.upstreamsNamed name).head hne).name = name := by
    have hmem := (List.mem_filter.mp (List.head_mem hne)).2
    simpa using hmem
  refine ⟨(cfg.upstreamsNamed name).head hne, ((cfg.upstreamsNamed name).getLast hne).newRegistry,
    ?_, ?_, ?_⟩
  · rw [findUpstream_eq_head?, hfirst]
  · rw [hname, buildRuntimeRegistry_eq_getLast?, hlast]
    rfl
  · rw [GatewayConfig.OneSetting, hfirst, hlast]
    simp only [Option.map_some, Option.some.injEq, Prod.mk.injEq]
    rw [show RuntimeRegistry.new ((cfg.upstreamsNamed name).head hne).healthChecks.passive
        ((cfg.upstreamsNamed name).head hne).circuitBreaker
      = ((cfg.upstreamsNamed name).head hne).newRegistry from rfl, newRegistry_eq_iff]
    exact and_congr eq_comm eq_comm

/-! ### A name used twice -/

def sensitiveUpstream : UpstreamConfig where
  name := "svc"
  strategy := .roundRobin
  targets := [{ id := "a", address := "10.0.0.1:8080" }]
  circuitBreaker := { failureThreshold := 1 }

def usersRoute : Route where
  name := "users"
  pathPrefix := "/users"
  upstream := "svc"

def usersConfig (upstreams : List UpstreamConfig) : GatewayConfig where
  routes := [usersRoute]
  upstreams := upstreams

theorem single_upstream_registry :
    let cfg := usersConfig [sensitiveUpstream]
    cfg.validate = .ok ()
      ∧ matchRoute cfg.routes "/users/1" .http1 = some usersRoute
      ∧ ∃ upstream registry, findUpstream cfg.upstreams "svc" = some upstream
          ∧ buildRuntimeRegistry cfg upstream.name = some registry
          ∧ (registry = .new upstream.healthChecks.passive upstream.circuitBreaker
              ↔ cfg.OneSetting "svc") := by
  intro cfg
  have hroute : matchRoute cfg.routes "/users/1" .http1 = some usersRoute := by decide
  exact ⟨rfl, hroute,
    selected_registry_iff cfg rfl hroute (fun _ _ _ => 0) [] "users:10.0.0.9" 0⟩

/-- The first entry asks for a breaker that trips at the first failure;
its requests go through the registry of the second, which trips at the
fifth. -/
theorem second_entry_sets_breaker :
    let cfg := usersConfig [sensitiveUpstream, { sensitiveUpstream with circuitBreaker := {} }]
    cfg.validate = .ok ()
      ∧ matchRoute cfg.routes "/users/1" .http1 = some usersRoute
      ∧ findUpstream cfg.upstreams
          (selectUpstreamName (fun _ _ _ => 0) usersRoute [] "users:10.0.0.9" 0)
        = some sensitiveUpstream
      ∧ buildRuntimeRegistry cfg sensitiveUpstream.name = some (.new {} {})
      ∧ RuntimeRegistry.new {} {}
        ≠ .new sensitiveUpstream.healthChecks.passive sensitiveUpstream.circuitBreaker := by
  refine ⟨rfl, by decide, rfl, rfl, fun h => ?_⟩
  exact absurd (congrArg RuntimeRegistry.breakerCfg h) (by decide)

end KongGateway.GatewayCore

import KongGateway.GatewayCore.Plugin.Phases
import KongGateway.GatewayCore.Proxy.Arithmetic
import KongGateway.GatewayCore.RateLimit.Accepted
import KongGateway.GatewayCore.RateLimit.Rejection

/-!
# Handler — a request from its arrival to its reply

`proxy_handler` puts the parts of the gateway in a row: the route, the
Access plugins, the credentials, the bindings of the route, the rate
limit, the fault, the upstream and the attempts. A run is a list of
requests over one limiter and the registries of the upstreams; what other
requests do to a registry meanwhile comes from the attempts' environment.
-/

namespace KongGateway.GatewayCore

open RustStd

/-! ## The handler -/

/-- `http2` is whether the version is `HTTP_2`. -/
def requestProtocol (http2 : Bool) (headers : HeaderMap) : Protocol :=
  if http2 then
    match (headers.get "content-type").bind headerToStr with
    | some contentType =>
      let mediaType :=
        toAsciiLowercase (trim ((splitOn (· == ';') contentType).headD contentType))
      if mediaType == "application/grpc" || startsWith mediaType "application/grpc+" then .grpc
      else .http2
    | none => .http2
  else .http1

/-- The result of `to_bytes`. -/
inductive BodyRead where
  | read
  | tooLarge
  | failed
deriving DecidableEq, Repr

/-- A request, with what its handler reads on the way. -/
structure Arrival where
  draining : Bool := false
  method : Method := .get
  http2 : Bool := false
  uri : RequestUri
  headers : HeaderMap := []
  clientIp : String
  checkedAt : Instant
  requestCount : Nat := 0
  body : BodyRead := .read
  env : Nat → AttemptEnv

structure Gateway where
  config : GatewayConfig
  proxyCfg : ProxyRuntimeConfig
  plugins : List GatewayPlugin
  decode : TokenDecoder
  hasher : String → Nat
  bucketHasher : String → String → Nat → Nat
  jitterHasher : String → Nat → Nat

/-- What the requests of a gateway share. -/
structure AppState where
  limiter : LimitStates
  runtime : String → Option RuntimeRegistry

/-- A request when it has been handled: the reply (a panic has none), the
check of the limiter, the plugin calls and the answers of targets. -/
structure Handled where
  reply : Except ArithmeticFault ProxyReply
  limited : Option (RateLimitContext × Bool) := none
  executed : List Execution := []
  records : List AttemptRecord := []

namespace Gateway

variable (g : Gateway)

/-- `client_key` -/
def clientKey (route : Route) (a : Arrival) : String := route.name ++ ":" ++ a.clientIp

/-- `auth_ctx` -/
def authContext (route : Route) (identity : AuthenticatedIdentity) : AuthContext where
  mode := identity.mode
  roles := identity.roles
  groups := identity.groups
  subject := identity.subject
  routeName := route.name

/-- The handler behind the rate limit. -/
def forward (s : AppState) (a : Arrival) (route : Route) (ctx : PluginContext)
    (passed : Handled) : Handled × AppState :=
  let key := clientKey route a
  match maybeApplyFaultInjection g.bucketHasher g.jitterHasher route.faultInjection key
      a.requestCount with
  | .error fault => ({ passed with reply := .error fault }, s)
  | .ok ⟨_, some (status, body)⟩ => ({ passed with reply := .ok (.text status.toNat body) }, s)
  | .ok ⟨_, none⟩ =>
    let fail (status : Nat) (body : String) : Handled × AppState :=
      ({ passed with reply := .ok (.text status body) }, s)
    match findUpstream g.config.upstreams
        (selectUpstreamName g.bucketHasher route a.headers key a.requestCount) with
    | none => fail 502 "upstream config not found"
    | some upstream =>
      match s.runtime upstream.name with
      | none => fail 502 "runtime state unavailable"
      | some registry =>
        match a.body with
        | .tooLarge => fail 413 "request body too large"
        | .failed => fail 400 "failed to read request body"
        | .read =>
          let result := AttemptLoop.run
            ⟨g.hasher, upstream, g.proxyCfg, a.method, key, a.env⟩ registry
          let s := { s with
            runtime := Function.update s.runtime upstream.name (some result.registry) }
          let passed := { passed with records := result.records }
          match result.reply with
          | .text status body => ({ passed with reply := .ok (.text status body) }, s)
          | .forwarded status =>
            let (denied, executed) := runResponsePluginPhases g.plugins ctx
            ({ passed with
                reply := .ok (denied.getD (.forwarded status))
                executed := passed.executed ++ executed }, s)

/-- `proxy_handler` -/
def handle (s : AppState) (a : Arrival) : Handled × AppState :=
  if a.draining then ({ reply := .ok (.text 503 "gateway is draining") }, s)
  else
    match matchRoute g.config.routes a.uri.path (requestProtocol a.http2 a.headers) with
    | none => ({ reply := .ok (.text 404 "no matching route") }, s)
    | some route =>
      let ctx : PluginContext := ⟨route.name, a.uri.path⟩
      let (pluginResult, executed) := runPhase g.plugins .access ctx
      let refuse (reply : ProxyReply) : Handled × AppState :=
        ({ reply := .ok reply, executed := executed }, s)
      if !pluginResult.allowed then refuse (blocked pluginResult "blocked by plugin")
      else
        match g.config.security.authenticate g.decode a.headers with
        | .error _ => refuse (.text 401 "authentication failed")
        | .ok identity =>
          if !g.config.security.authorize (authContext route identity) then
            refuse (.text 403 "authorization denied")
          else
            let limiterCtx := limiterContext route identity a.clientIp
            let (ok, limiter) :=
              g.config.rateLimit.checkWithContext limiterCtx a.checkedAt s.limiter
            let s := { s with limiter := limiter }
            let checked : Handled :=
              { reply := .ok (.text 429 "rate limit exceeded")
                limited := some (limiterCtx, ok)
                executed := executed }
            if !ok then (checked, s)
            else g.forward s a route ctx checked

end Gateway

/-! ## One request -/

variable {g : Gateway} {s : AppState} {a : Arrival}

theorem forward_spec (route : Route) (ctx : PluginContext) (passed : Handled) :
    (g.forward s a route ctx passed).1.limited = passed.limited
    ∧ (g.forward s a route ctx passed).2.limiter = s.limiter := by
  unfold Gateway.forward
  dsimp only
  split
  · exact ⟨rfl, rfl⟩
  · exact ⟨rfl, rfl⟩
  · split
    · exact ⟨rfl, rfl⟩
    · split
      · exact ⟨rfl, rfl⟩
      · split
        · exact ⟨rfl, rfl⟩
        · exact ⟨rfl, rfl⟩
        · split
          · exact ⟨rfl, rfl⟩
          · exact ⟨rfl, rfl⟩

/-- What a request has to pass before the rate limit. -/
structure Admitted (g : Gateway) (a : Arrival) (route : Route)
    (identity : AuthenticatedIdentity) : Prop where
  draining : a.draining = false
  matched : matchRoute g.config.routes a.uri.path (requestProtocol a.http2 a.headers) = some route
  access : (runPhase g.plugins .access ⟨route.name, a.uri.path⟩).1.allowed = true
  authenticated : g.config.security.authenticate g.decode a.headers = .ok identity
  authorized : g.config.security.authorize (Gateway.authContext route identity) = true

/-- How far a request gets: it is turned away, refused by the limiter, or
passed on. -/
inductive Stage (g : Gateway) (s : AppState) (a : Arrival) : Handled × AppState → Prop
  | turnedAway {h : Handled} : h.limited = none → h.records = [] → Stage g s a (h, s)
  | limited {h : Handled} {route : Route} {identity : AuthenticatedIdentity}
      {limiter : LimitStates} : Admitted g a route identity →
      g.config.rateLimit.checkWithContext (limiterContext route identity a.clientIp) a.checkedAt
        s.limiter = (false, limiter) →
      h.limited = some (limiterContext route identity a.clientIp, false) → h.records = [] →
      Stage g s a (h, { s with limiter := limiter })
  | passed {h : Handled} {s' : AppState} {route : Route} {identity : AuthenticatedIdentity} :
      Admitted g a route identity →
      g.config.rateLimit.checkWithContext (limiterContext route identity a.clientIp) a.checkedAt
        s.limiter = (true, s'.limiter) →
      h.limited = some (limiterContext route identity a.clientIp, true) → Stage g s a (h, s')

theorem stage (g : Gateway) (s : AppState) (a : Arrival) : Stage g s a (g.handle s a) := by
  unfold Gateway.handle
  split
  · exact .turnedAway rfl rfl
  · rename_i hdraining
    split
    · exact .turnedAway rfl rfl
    · rename_i route hroute
      dsimp only
      split
      · exact .turnedAway rfl rfl
      · rename_i hallowed
        split
        · exact .turnedAway rfl rfl
        · rename_i identity hidentity
          split
          · exact .turnedAway rfl rfl
          · rename_i hauthorized
            have hadmitted : Admitted g a route identity :=
              ⟨by simpa using hdraining, hroute, by simpa using hallowed, hidentity,
                by simpa using hauthorized⟩
            rcases hcheck : g.config.rateLimit.checkWithContext
              (limiterContext route identity a.clientIp) a.checkedAt s.limiter with ⟨ok, limiter⟩
            cases ok with
            | false => exact .limited hadmitted hcheck rfl rfl
            | true =>
              simp only [Bool.not_true, Bool.false_eq_true, if_false]
              obtain ⟨hlimited, hlimiter⟩ := @forward_spec g { s with limiter := limiter } a route
                ⟨route.name, a.uri.path⟩ _
              exact .passed hadmitted (hcheck.trans (congrArg (Prod.mk true) hlimiter.symm))
                hlimited

/-! ## Every run -/

/-- What is said of the requests of a run, one by one. -/
def handledRun (g : Gateway) (s : AppState) (arrivals : List Arrival) : List Handled :=
  Run.outputs g.handle s arrivals

theorem handledRun_cons (rest : List Arrival) :
    handledRun g s (a :: rest) = (g.handle s a).1 :: handledRun g (g.handle s a).2 rest := rfl

/-- The request was sent to a target. -/
def Handled.reached (h : Handled) : Bool := !h.records.isEmpty

/-- The request was sent to a target, and the scope maps it to the value. -/
def Handled.reachedFor (h : Handled) (scope : LimitScope) (value : String) : Bool :=
  h.reached && h.limited.any fun check => decide (check.1.value scope = value)

/-- **No request goes past the gates**: in every run, one that is sent to
a target has been admitted and let through by the limiter. -/
theorem reached_only_admitted (g : Gateway) (s : AppState) (arrivals : List Arrival) {k : Nat}
    {h : Handled} (hk : (handledRun g s arrivals)[k]? = some h) (hreached : h.reached = true) :
    ∃ a route identity, arrivals[k]? = some a ∧ Admitted g a route identity
      ∧ h.limited = some (limiterContext route identity a.clientIp, true) := by
  obtain ⟨t, a, ha, hout⟩ := Run.getElem?_outputs hk
  have hstage := stage g t a
  rcases hhandle : g.handle t a with ⟨h', t'⟩
  rw [hhandle] at hstage hout
  obtain rfl : h' = h := hout
  cases hstage with
  | turnedAway _ hrecords => simp [Handled.reached, hrecords] at hreached
  | limited _ _ _ hrecords => simp [Handled.reached, hrecords] at hreached
  | passed hadmitted _ hlimited => exact ⟨a, _, _, ha, hadmitted, hlimited⟩

/-- A gateway with one route that gives each client one request. -/
def ordersGateway : Gateway where
  config := {
    routes := [{ name := "orders", pathPrefix := "/", upstream := "svc" }]
    upstreams := [{
      name := "svc"
      strategy := .roundRobin
      targets := [{ id := "a", address := "10.0.0.1:8080" }] }]
    rateLimit := {
      enabled := true
      scopedLimits := [{ scope := .client, limit := 5, quota := some 1 }] } }
  proxyCfg := {}
  plugins := []
  decode _ _ _ _ := .error "invalid"
  hasher := String.length
  bucketHasher _ _ n := n
  jitterHasher _ n := n

/-- Before the first request. -/
def AppState.start : AppState := ⟨.empty, fun _ => some (.new {} {})⟩

/-- A request that a target answers. -/
def order : Arrival where
  uri := ⟨some ⟨['/'], none, by simp, by simp⟩⟩
  clientIp := "10.0.0.9"
  checkedAt := 0
  env _ := { sent := .response ⟨200, by decide⟩ }

theorem order_reached_admitted :
    (ordersGateway.handle .start order).1.reached = true
      ∧ ∃ a route identity, [order][0]? = some a ∧ Admitted ordersGateway a route identity
        ∧ (ordersGateway.handle .start order).1.limited
          = some (limiterContext route identity a.clientIp, true) := by
  have hreached : (ordersGateway.handle .start order).1.reached = true := by decide +kernel
  exact ⟨hreached, reached_only_admitted ordersGateway .start [order] rfl hreached⟩

theorem count_reachedFor_le (hon : g.config.rateLimit.enabled = true)
    (hrules : g.config.rateLimit.isLegacy = false) (scope : LimitScope) (value : String)
    (arrivals : List Arrival) {r : Recording} (hr : r.Counted g.config.rateLimit)
    (hs : r.states = s.limiter) :
    ∃ r' : Recording, r'.Counted g.config.rateLimit
      ∧ (r.acceptedOf scope value).length
          + (handledRun g s arrivals).countP (·.reachedFor scope value)
        ≤ (r'.acceptedOf scope value).length := by
  induction arrivals generalizing s r with
  | nil => exact ⟨r, hr, Nat.le_refl _⟩
  | cons a rest ih =>
    have hstage := stage g s a
    rw [handledRun_cons, List.countP_cons]
    rcases hhandle : g.handle s a with ⟨h, s'⟩
    rw [hhandle] at hstage
    cases hstage with
    | turnedAway _ hrecords =>
      obtain ⟨r', hr', hle⟩ := ih hr hs
      refine ⟨r', hr', ?_⟩
      simpa [Handled.reachedFor, Handled.reached, hrecords] using hle
    | @limited _ route identity limiter _ hcheck _ hrecords =>
      let check := (limiterContext route identity a.clientIp, a.checkedAt)
      have hstep : r.step g.config.rateLimit check = ⟨limiter, r.accepted⟩ := by
        simp [Recording.step, check, hs, hcheck]
      obtain ⟨r', hr', hle⟩ := ih (s := { s with limiter := limiter })
        (hr.step hon hrules check) (congrArg Recording.states hstep)
      refine ⟨r', hr', ?_⟩
      rw [hstep] at hle
      simpa [Handled.reachedFor, Handled.reached, hrecords, Recording.acceptedOf] using hle
    | @passed _ _ route identity _ hcheck hlimited =>
      let check := (limiterContext route identity a.clientIp, a.checkedAt)
      have hstep : r.step g.config.rateLimit check
          = ⟨s'.limiter, r.accepted ++ [⟨check.1, check.2, s'.limiter⟩]⟩ := by
        simp [Recording.step, check, hs, hcheck]
      obtain ⟨r', hr', hle⟩ := ih (hr.step hon hrules check) (congrArg Recording.states hstep)
      refine ⟨r', hr', le_trans ?_ hle⟩
      rw [hstep, Recording.acceptedOf, Recording.acceptedOf, List.filter_append,
        List.length_append]
      by_cases hvalue : check.1.value scope = value
      · simp only [hvalue, decide_true, List.filter_cons_of_pos, List.filter_nil,
          List.length_singleton]
        split <;> omega
      · have hother : h.reachedFor scope value = false := by
          simp only [Handled.reachedFor, hlimited, Option.any_some, Bool.and_eq_false_iff,
            decide_eq_false_iff_not]
          exact .inr hvalue
        simp [hother, hvalue]

/-- **Quotas hold at the targets**: from an empty limiter, in every run,
no more requests of a key than its quota are sent to a target, whatever
their routes, upstreams and retries. -/
theorem reached_within_quota (g : Gateway) (hon : g.config.rateLimit.enabled = true)
    (hrules : g.config.rateLimit.isLegacy = false) (runtime : String → Option RuntimeRegistry)
    (arrivals : List Arrival) {rule : ScopedLimitRule}
    (hrule : rule ∈ g.config.rateLimit.effectiveRules) {quota : UInt64}
    (hquota : rule.quota = some quota) (value : String) :
    (handledRun g ⟨.empty, runtime⟩ arrivals).countP (·.reachedFor rule.scope value)
      ≤ quota.toNat := by
  obtain ⟨r', hr', hle⟩ := @count_reachedFor_le g ⟨.empty, runtime⟩ hon hrules rule.scope value
    arrivals .start .start rfl
  exact (le_trans (Nat.le_add_left _ _) hle).trans (hr'.within rule hrule quota hquota value)

theorem two_orders_within_quota :
    (handledRun ordersGateway .start [order, order]).countP
      (·.reachedFor .client "orders:10.0.0.9") ≤ 1 :=
  reached_within_quota ordersGateway rfl rfl _ [order, order] (List.mem_singleton.mpr rfl) rfl _

/-! ## Refused requests -/

/-- **Refused requests leave no trace**: taking a request out of a run
that was turned away, or refused by a limiter with rules, changes no
other reply, plugin call, check or attempt. -/
theorem handledRun_eraseIdx_of_refused (g : Gateway) (s : AppState) (arrivals : List Arrival)
    {k : Nat} {h : Handled} (hk : (handledRun g s arrivals)[k]? = some h)
    (hrefused : h.limited = none
      ∨ g.config.rateLimit.isLegacy = false ∧ ∃ ctx, h.limited = some (ctx, false)) :
    handledRun g s (arrivals.eraseIdx k) = (handledRun g s arrivals).eraseIdx k := by
  refine Run.outputs_eraseIdx (fun _ _ => True) (fun _ _ _ _ => trivial) ?_ trivial hk
  intro t a rest _ hout
  have hstage := stage g t a
  rcases hhandle : g.handle t a with ⟨h', t'⟩
  rw [hhandle] at hstage hout
  obtain rfl : h' = h := hout
  cases hstage with
  | turnedAway _ _ => rfl
  | @limited _ _ _ limiter _ hcheck hlimited _ =>
    rcases hrefused with hnone | ⟨hrules, -⟩
    · rw [hlimited] at hnone
      cases hnone
    · have hsame := RateLimitConfig.checkWithContext_rejected hrules (congrArg Prod.fst hcheck)
      rw [hcheck] at hsame
      obtain rfl : limiter = t.limiter := hsame
      rfl
  | passed _ _ hlimited =>
    rcases hrefused with hnone | ⟨-, ctx, hsome⟩
    · rw [hlimited] at hnone
      cases hnone
    · rw [hlimited] at hsome
      cases hsome

theorem refused_order_erased :
    handledRun ordersGateway .start [order]
      = (handledRun ordersGateway .start [order, order]).eraseIdx 1 :=
  @handledRun_eraseIdx_of_refused ordersGateway .start [order, order] 1 _ rfl
    (.inr ⟨rfl, ⟨"orders", "svc", none, "orders:10.0.0.9"⟩, by decide +kernel⟩)

end KongGateway.GatewayCore

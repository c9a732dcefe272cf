import KongGateway.GatewayCore.Proxy
import KongGateway.GatewayCore.RateLimit.Check

/-!
# RateLimit — isolation between consumers

A Consumer-scoped rule finds its state under the consumer key of the
request: the authenticated subject, or the text `anonymous` when there
is none. Its decisions on the requests of one consumer key depend on
nothing but the requests of that key that were accepted before.

Whether they were accepted may depend on others: a rule of another scope
may refuse a request for the traffic of somebody else, and a refused
request is not counted. With Consumer-scoped rules alone the consumers
are isolated from each other on every trace.
-/

namespace KongGateway.GatewayCore

open RustStd

/-- The decision of every Consumer-scoped rule on a request, and the
decision of the limiter. -/
structure Verdict where
  consumer : List Bool
  accepted : Bool
deriving DecidableEq, Repr

/-- The request has the consumer key `consumer`. -/
def ofConsumer (consumer : String) (check : RateLimitContext × Instant) : Bool :=
  check.1.value .consumer == consumer

namespace RateLimitConfig

def consumerDecisions (cfg : RateLimitConfig) (states : LimitStates)
    (check : RateLimitContext × Instant) : List Bool :=
  (cfg.effectiveRules.filter fun rule => rule.scope = .consumer).map fun rule =>
    (cfg.stageRule rule check.2 (states.lookup (ruleKey check.1 rule))).isSome

/-- The verdicts on those requests of a trace that are `mine`. -/
def verdicts (cfg : RateLimitConfig) (mine : RateLimitContext × Instant → Bool) :
    LimitStates → List (RateLimitContext × Instant) → List Verdict
  | _, [] => []
  | states, check :: rest =>
    let (ok, after) := cfg.checkWithContext check.1 check.2 states
    let later := verdicts cfg mine after rest
    if mine check then
      { consumer := cfg.consumerDecisions states check, accepted := ok } :: later
    else later

/-! ## The state of one consumer -/

variable {cfg : RateLimitConfig} {states states' : LimitStates} {consumer : String}
  {check : RateLimitContext × Instant}

theorem consumerDecisions_congr (hmine : check.1.value .consumer = consumer)
    (h : states.lookup (scopeKey .consumer consumer)
      = states'.lookup (scopeKey .consumer consumer)) :
    cfg.consumerDecisions states check = cfg.consumerDecisions states' check := by
  apply List.map_congr_left
  intro rule hrule
  have hscope : rule.scope = .consumer := of_decide_eq_true (List.mem_filter.mp hrule).2
  have hkey : ruleKey check.1 rule = scopeKey .consumer consumer := by
    rw [ruleKey, hscope, hmine]
  rw [hkey, h]

/-- An accepted check moves the state of its consumer in a way that
depends on that state alone. -/
theorem Granted.consumer_congr {after after' : LimitStates}
    (hgranted : cfg.Granted check.1 check.2 states after)
    (hgranted' : cfg.Granted check.1 check.2 states' after')
    (hmine : check.1.value .consumer = consumer)
    (h : states.lookup (scopeKey .consumer consumer)
      = states'.lookup (scopeKey .consumer consumer)) :
    after.lookup (scopeKey .consumer consumer)
      = after'.lookup (scopeKey .consumer consumer) := by
  subst hmine
  cases hlast : lastRule .consumer cfg.effectiveRules with
  | some last =>
    have hwritten := hgranted.written _ _ hlast
    have hwritten' := hgranted'.written _ _ hlast
    rw [h, hwritten'] at hwritten
    exact (Option.some.inj hwritten).symm
  | none =>
    -- no rule has the Consumer scope, so nothing is written under the key
    have hnone : ∀ rule ∈ cfg.effectiveRules,
        ruleKey check.1 rule ≠ scopeKey .consumer (check.1.value .consumer) := by
      intro rule hrule hkey
      obtain ⟨last, hfound⟩ := exists_lastRule hrule
      rw [(scopeKey_injective hkey).1, hlast] at hfound
      cases hfound
    rw [hgranted.kept _ hnone, hgranted'.kept _ hnone, h]

/-- **One check of a consumer**: the state of the consumer after it is
settled by the state before and the decision. -/
theorem checkWithContext_consumer_congr (hmine : check.1.value .consumer = consumer)
    (h : states.lookup (scopeKey .consumer consumer)
      = states'.lookup (scopeKey .consumer consumer))
    (hok : (cfg.checkWithContext check.1 check.2 states).1
      = (cfg.checkWithContext check.1 check.2 states').1) :
    (cfg.checkWithContext check.1 check.2 states).2.lookup (scopeKey .consumer consumer)
      = (cfg.checkWithContext check.1 check.2 states').2.lookup
          (scopeKey .consumer consumer) := by
  cases hon : cfg.enabled with
  | false => simpa [checkWithContext, hon] using h
  | true =>
    cases hrules : cfg.isLegacy with
    | true =>
      have hne : scopeKey .consumer consumer
          ≠ scopeKey .client (check.1.value .client) := scopeKey_ne (by decide) _ _
      simp only [checkWithContext_legacy hon hrules,
        LimitStates.lookup_insert_ne _ _ hne, h]
    | false =>
      rcases checkWithContext_cases hon hrules check.1 check.2 states with
        ⟨hcheck, -⟩ | ⟨after, hcheck, hgranted⟩
      · rcases checkWithContext_cases hon hrules check.1 check.2 states' with
          ⟨hcheck', -⟩ | ⟨after', hcheck', -⟩
        · rw [hcheck, hcheck', h]
        · rw [hcheck, hcheck'] at hok
          cases hok
      · rcases checkWithContext_cases hon hrules check.1 check.2 states' with
          ⟨hcheck', -⟩ | ⟨after', hcheck', hgranted'⟩
        · rw [hcheck, hcheck'] at hok
          cases hok
        · rw [hcheck, hcheck']
          exact hgranted.consumer_congr hgranted' hmine h

/-! ## Leaving out the requests of others -/

section Delete

variable {keep : RateLimitContext × Instant → Bool}

/-- The verdicts on one consumer's requests agree up to the first
difference in what was accepted. -/
theorem verdicts_filter_congr
    (hkeep : ∀ check, check.1.value .consumer = consumer → keep check = true)
    (trace : List (RateLimitContext × Instant)) (n : Nat)
    (h : states.lookup (scopeKey .consumer consumer)
      = states'.lookup (scopeKey .consumer consumer))
    (haccepted : ((cfg.verdicts (ofConsumer consumer) states trace).take n).map
        Verdict.accepted
      = ((cfg.verdicts (ofConsumer consumer) states' (trace.filter keep)).take n).map
        Verdict.accepted) :
    (cfg.verdicts (ofConsumer consumer) states trace)[n]?.map Verdict.consumer
      = (cfg.verdicts (ofConsumer consumer) states' (trace.filter keep))[n]?.map
        Verdict.consumer := by
  induction trace generalizing states states' n with
  | nil => rfl
  | cons check rest ih =>
    by_cases hmine : check.1.value .consumer = consumer
    · -- a request of the consumer itself, kept in both traces
      have hof : ofConsumer consumer check = true := beq_iff_eq.mpr hmine
      simp only [List.filter_cons, hkeep check hmine, if_true, verdicts, hof] at haccepted ⊢
      cases n with
      | zero => simp [consumerDecisions_congr hmine h]
      | succ n =>
        simp only [List.take_succ_cons, List.map_cons, List.cons.injEq,
          List.getElem?_cons_succ] at haccepted ⊢
        exact ih n (checkWithContext_consumer_congr hmine h haccepted.1) haccepted.2
    · -- a request of somebody else: the consumer's state stays, kept or left out
      have hof : ofConsumer consumer check = false := by
        rw [ofConsumer, beq_eq_false_iff_ne]
        exact hmine
      have hleft := cfg.checkWithContext_lookup_of_ne check.2 states hmine
      by_cases hkept : keep check = true
      · have hright := cfg.checkWithContext_lookup_of_ne check.2 states' hmine
        simp only [List.filter_cons, hkept, if_true, verdicts, hof, Bool.false_eq_true,
          if_false] at haccepted ⊢
        exact ih n (by rw [hleft, hright, h]) haccepted
      · simp only [List.filter_cons, hkept, verdicts, hof, Bool.false_eq_true,
          if_false] at haccepted ⊢
        exact ih n (by rw [hleft, h]) haccepted

end Delete

/-! ## Consumer-scoped rules alone -/

section ConsumerOnly

variable (hconsumer : ∀ rule ∈ cfg.effectiveRules, rule.scope = .consumer)

include hconsumer

/-- The stand-in for an empty rule list is a client rule, so there are
rules. -/
theorem isLegacy_false_of_consumer : cfg.isLegacy = false := by
  by_contra hlegacy
  have hempty : cfg.scopedLimits.isEmpty = true := by
    rw [Bool.not_eq_false, isLegacy, Bool.and_eq_true] at hlegacy
    exact hlegacy.1
  have hdefault : cfg.defaultRule ∈ cfg.effectiveRules := by
    rw [effectiveRules, if_pos hempty]
    exact List.mem_cons_self
  exact absurd (hconsumer _ hdefault) (by simp [defaultRule])

/-- The decision of the limiter is the conjunction of the Consumer-rule
decisions. -/
theorem checkWithContext_eq_all (states : LimitStates) (check : RateLimitContext × Instant) :
    (cfg.checkWithContext check.1 check.2 states).1
      = (!cfg.enabled || (cfg.consumerDecisions states check).all id) := by
  cases hon : cfg.enabled with
  | false => simp [checkWithContext, hon]
  | true =>
    have hall : cfg.effectiveRules.filter (fun rule => rule.scope = .consumer)
        = cfg.effectiveRules :=
      List.filter_eq_self.mpr fun rule hrule => decide_eq_true (hconsumer rule hrule)
    rw [Bool.not_true, Bool.false_or, consumerDecisions, hall]
    rcases checkWithContext_cases hon (isLegacy_false_of_consumer hconsumer) check.1 check.2
      states with ⟨hcheck, rule, hrule, hrefuse⟩ | ⟨after, hcheck, hgranted⟩
    · rw [hcheck, eq_comm, List.all_eq_false]
      refine ⟨false, List.mem_map.mpr ⟨rule, hrule, ?_⟩, by simp⟩
      rw [hrefuse]
      rfl
    · rw [hcheck, eq_comm, List.all_eq_true]
      intro decision hmem
      obtain ⟨rule, hrule, rfl⟩ := List.mem_map.mp hmem
      obtain ⟨next, hnext⟩ := hgranted.staged rule hrule
      rw [hnext]
      rfl

theorem verdicts_accepted {mine : RateLimitContext × Instant → Bool}
    {trace : List (RateLimitContext × Instant)} {verdict : Verdict}
    (hmem : verdict ∈ cfg.verdicts mine states trace) :
    verdict.accepted = (!cfg.enabled || verdict.consumer.all id) := by
  induction trace generalizing states with
  | nil => cases hmem
  | cons check rest ih =>
    simp only [verdicts] at hmem
    split at hmem
    · rcases List.mem_cons.mp hmem with rfl | hlater
      · exact checkWithContext_eq_all hconsumer states check
      · exact ih hlater
    · exact ih hmem

end ConsumerOnly

/-- **Consumers are isolated from each other.** Leaving out requests of
other consumers changes the Consumer-rule decisions on a consumer's
request only if it changes whether an earlier request of the consumer
was accepted; with Consumer-scoped rules alone it changes nothing. -/
theorem consumer_isolation (cfg : RateLimitConfig) (states : LimitStates) (consumer : String)
    {keep : RateLimitContext × Instant → Bool}
    (hkeep : ∀ check, check.1.value .consumer = consumer → keep check = true)
    (trace : List (RateLimitContext × Instant)) :
    let full := cfg.verdicts (ofConsumer consumer) states trace
    let without := cfg.verdicts (ofConsumer consumer) states (trace.filter keep)
    (∀ n, (full.take n).map Verdict.accepted = (without.take n).map Verdict.accepted →
        full[n]?.map Verdict.consumer = without[n]?.map Verdict.consumer)
      ∧ ((∀ rule ∈ cfg.effectiveRules, rule.scope = .consumer) → full = without) := by
  intro full without
  have hagree : ∀ n, (full.take n).map Verdict.accepted = (without.take n).map Verdict.accepted →
      full[n]?.map Verdict.consumer = without[n]?.map Verdict.consumer :=
    fun n haccepted => verdicts_filter_congr hkeep trace n rfl haccepted
  refine ⟨hagree, fun hconsumer => List.ext_getElem? fun n => ?_⟩
  -- the Consumer-rule decisions settle the acceptance, so the agreement carries on
  induction n using Nat.strong_induction_on with
  | h n ih =>
    have htake : full.take n = without.take n := by
      apply List.ext_getElem?
      intro m
      rw [List.getElem?_take, List.getElem?_take]
      split
      · exact ih m ‹_›
      · rfl
    have hdecisions := hagree n (by rw [htake])
    cases hfull : full[n]? with
    | none =>
      rw [hfull, Option.map_none, eq_comm, Option.map_eq_none_iff] at hdecisions
      rw [hdecisions]
    | some verdict =>
      rw [hfull, Option.map_some, eq_comm, Option.map_eq_some_iff] at hdecisions
      obtain ⟨verdict', hwithout, hsame⟩ := hdecisions
      have haccepted := verdicts_accepted hconsumer (List.mem_of_getElem? hfull)
      have haccepted' := verdicts_accepted hconsumer (List.mem_of_getElem? hwithout)
      rw [hwithout]
      obtain ⟨decisions, accepted⟩ := verdict
      obtain ⟨decisions', accepted'⟩ := verdict'
      simp only at hsame haccepted haccepted'
      rw [haccepted, haccepted', hsame]

end RateLimitConfig

/-! ### Two ways to depend on another caller -/

/-- The check of a request as `proxy_handler` makes it: the identity from
the headers, the context from the identity. -/
def limiterCheck (security : SecurityConfig) (decode : TokenDecoder) (route : Route)
    (headers : HeaderMap) (clientIp : String) (now : Instant) :
    Except String (RateLimitContext × Instant) :=
  match security.authenticate decode headers with
  | .error err => .error err
  | .ok identity => .ok (limiterContext route identity clientIp, now)

def ordersRoute : Route where
  name := "orders"
  pathPrefix := "/orders"
  upstream := "orders-svc"

/-- The claims of two tokens; any other token is refused. -/
def twoTokens : TokenDecoder := fun token _ _ _ =>
  if token = "alice-token" then .ok (.object [("sub", .string "alice")])
  else if token = "bob-token" then .ok (.object [("sub", .string "bob")])
  else .error "InvalidToken"

def mtlsSecurity : SecurityConfig where
  enabledModes := [.mtls]
  mtls := { subjectHeader := "x-client-cert-subject" }

def jwtSecurity : SecurityConfig where
  enabledModes := [.jwt]
  jwt := { secret := "secret" }

/-- One request a minute for each consumer. -/
def oncePerConsumer : ScopedLimitRule where
  scope := .consumer
  limit := 1
  policy := some .slidingWindow

/-- One request a second on each route. -/
def oncePerRoute : ScopedLimitRule where
  scope := .route
  limit := 1
  windowSeconds := 1
  policy := some .slidingWindow

def limitedBy (rules : List ScopedLimitRule) : RateLimitConfig where
  enabled := true
  scopedLimits := rules

/-- The context of a request on the route from a subject and a client. -/
def ordersContext (subject : Option String) (clientIp : String) : RateLimitContext where
  route := "orders"
  service := "orders-svc"
  consumer := subject
  client := "orders:" ++ clientIp

theorem isolated_once_per_consumer :
    let trace := [(ordersContext (some "alice") "10.0.0.1", 0),
      (ordersContext (some "bob") "10.0.0.2", nanosPerSec)]
    let keep := fun check : RateLimitContext × Instant => !ofConsumer "alice" check
    (limitedBy [oncePerConsumer]).verdicts (ofConsumer "bob") .empty trace
      = (limitedBy [oncePerConsumer]).verdicts (ofConsumer "bob") .empty (trace.filter keep) :=
  (RateLimitConfig.consumer_isolation (limitedBy [oncePerConsumer]) .empty "bob"
    (fun check hbob => by simp [ofConsumer, hbob]) _).2 (by decide)

/-- Alice's request uses up the route's limit, so Bob's first request is
refused and not counted, and the Consumer-scoped rule accepts his second
one. Without Alice it refuses it. And two callers with verified tokens
of different subjects share the key `anonymous`: the Consumer-scoped rule
refuses Bob for Alice's request. -/
theorem consumer_decisions_depend_on_others :
    (let security := mtlsSecurity
      let cfg := limitedBy [oncePerRoute, oncePerConsumer]
      let alice := (ordersContext (some "alice") "10.0.0.1", 0)
      let bob := (ordersContext (some "bob") "10.0.0.2", 500000000)
      let bob' := (ordersContext (some "bob") "10.0.0.2", 2 * nanosPerSec)
      limiterCheck security twoTokens ordersRoute [("x-client-cert-subject", "alice")]
          "10.0.0.1" 0 = .ok alice
        ∧ limiterCheck security twoTokens ordersRoute [("x-client-cert-subject", "bob")]
          "10.0.0.2" 500000000 = .ok bob
        ∧ (cfg.verdicts (ofConsumer "bob") .empty [alice, bob, bob']).map Verdict.consumer
          = [[true], [true]]
        ∧ (cfg.verdicts (ofConsumer "bob") .empty [bob, bob']).map Verdict.consumer
          = [[true], [false]])
    ∧ (let security := jwtSecurity
      let cfg := limitedBy [oncePerConsumer]
      let alice := (ordersContext none "10.0.0.1", 0)
      let bob := (ordersContext none "10.0.0.2", nanosPerSec)
      let mine := fun check : RateLimitContext × Instant => check.1.client == "orders:10.0.0.2"
      limiterCheck security twoTokens ordersRoute [("authorization", "Bearer alice-token")]
          "10.0.0.1" 0 = .ok alice
        ∧ limiterCheck security twoTokens ordersRoute [("authorization", "Bearer bob-token")]
          "10.0.0.2" nanosPerSec = .ok bob
        ∧ (cfg.verdicts mine .empty [alice, bob]).map Verdict.consumer = [[false]]
        ∧ (cfg.verdicts mine .empty [bob]).map Verdict.consumer = [[true]]) := by
  refine ⟨⟨rfl, rfl, by decide, by decide⟩, rfl, rfl, by decide, by decide⟩

end KongGateway.GatewayCore

import KongGateway.Kong.Router.Traditional.Search
import KongGateway.Lib.Memo

/-!
# Cache — the match caches of the traditional router

The model of `find_route` with its positive and negative LRU caches: the
cache key, the lookup and what is stored.

The key names the method, the path, the host, the addresses, the SNI and
the headers some route asks for, joined by bars. It leaves out the
scheme and whether there is a `Host` header at all, it prints a header
with several values as one sorted text, and a text of the request may
contain the bar. Two requests that are alike in all of this and have the
same key are the same request to the matchers.
-/

namespace KongGateway.Kong.Router.Traditional

open LuaStd

/-! ## The cache key -/

def HeaderValue.keyText (table : TableSort) : HeaderValue → String
  | single s => lower s
  | multiple items => tbConcat ", " (table.sort (fun a b => a < b) (items.map lower))

namespace Request

/-- `headers_key`, for the names of the header index. -/
def headersKey (table : TableSort) (req : Request) : List String → String
  | [] => ""
  | name :: rest =>
    (match req.headers name with
      | none => ""
      | some value => "|" ++ (name ++ ("=" ++ value.keyText table))) ++ headersKey table req rest

def portText : Option Nat → String
  | none => ""
  | some port => toString port

/-- The texts that the key joins; a missing one is empty. -/
def keyTexts (req : Request) : List String :=
  [req.method.getD "", req.uri.getD "", req.host.getD "", req.srcIp.getD "", portText req.srcPort,
    req.dstIp.getD "", portText req.dstPort, req.sni.getD ""]

end Request

def TraditionalRouter.cacheKey (table : TableSort) (router : TraditionalRouter) (req : Request) :
    String :=
  tbConcat "|" req.keyTexts ++ req.headersKey table router.headerNames

/-! ## What the matchers see of a request -/

/-- The two requests look the same to all the indexes and matchers of the
router. -/
structure SameView (router : TraditionalRouter) (req req' : Request) : Prop where
  method : req.method.getD "" = req'.method.getD ""
  uri : req.uri.getD "" = req'.uri.getD ""
  host : req.host.getD "" = req'.host.getD ""
  srcIp : req.srcIp.getD "" = req'.srcIp.getD ""
  srcPort : req.srcPort = req'.srcPort
  dstIp : req.dstIp.getD "" = req'.dstIp.getD ""
  dstPort : req.dstPort = req'.dstPort
  sni : req.sni.getD "" = req'.sni.getD ""
  http : (∃ r ∈ router.routes, .sni ∈ r.matchRules) →
    (req.scheme = some "http" ↔ req'.scheme = some "http")
  hosts : (∃ r ∈ router.routes, r.hosts ≠ []) →
    req.host = req'.host ∧ req.hostNoPort = req'.hostNoPort ∧ req.hostWithPort = req'.hostWithPort
  headers : ∀ name ∈ router.headerNames,
    (req.headers name).map HeaderValue.lowered = (req'.headers name).map HeaderValue.lowered

namespace SameView

variable {lib : MatchLib} {table : TableSort} {isHttp : Bool} {router : TraditionalRouter}
  {req req' : Request} (h : SameView router req req')

include h

/-! ### Matchers -/

theorem matchHost_eq {r : RouteT} (hr : r ∈ router.routes) (hits : Hits) :
    matchHost lib r ⟨req, hits⟩ = matchHost lib r ⟨req', hits⟩ := by
  by_cases hhosts : r.hosts = []
  · simp [matchHost, hhosts, scan]
  · obtain ⟨hhost, hnoPort, hwithPort⟩ := h.hosts ⟨r, hr, hhosts⟩
    simp only [matchHost, hhost, hnoPort, hwithPort]

theorem matchHeaders_eq {r : RouteT} (hr : r ∈ router.routes) (hits : Hits) :
    matchHeaders lib r ⟨req, hits⟩ = matchHeaders lib r ⟨req', hits⟩ := by
  -- a header of a route is in the index, and only its values in lower case are read
  have hread : ∀ (header : HeaderT) (value : Option HeaderValue),
      (value.bind fun v => (matchHeader lib header v).map fun found => (header.name, found))
        = (value.map HeaderValue.lowered).bind fun values =>
          (values.find? fun v => header.values.contains v
            || header.headerPattern.any fun pattern => lib.search v pattern).map
              fun found => (header.name, found) := by
    intro header value
    cases value <;> rfl
  have hindex : ∀ header ∈ r.headers, header.name ∈ router.headerNames := by
    intro header hheader
    rw [TraditionalRouter.headerNames, List.mem_eraseDups, List.mem_flatMap]
    exact ⟨r, hr, List.mem_map_of_mem hheader⟩
  rw [matchHeaders, matchHeaders]
  generalize r.headers = headers at hindex
  induction headers with
  | nil => rfl
  | cons header rest ih =>
    rw [List.mapM_cons, List.mapM_cons, hread, hread,
      h.headers header.name (hindex header List.mem_cons_self),
      ih fun header' hheader' => hindex header' (List.mem_cons_of_mem header hheader')]

theorem matchSni_eq {r : RouteT} (hr : r ∈ router.routes) (hits : Hits) :
    ruleMatch r .sni (matchSni r ⟨req, hits⟩) = ruleMatch r .sni (matchSni r ⟨req', hits⟩) := by
  by_cases hrule : MatchRule.sni ∈ r.matchRules
  · have hhttp := h.http ⟨r, hr, hrule⟩
    simp only [matchSni, h.sni, hhttp]
  · simp [ruleMatch, hrule]

theorem matchRoute_eq {r : RouteT} (hr : r ∈ router.routes) (hits : Hits) :
    matchRoute lib r ⟨req, hits⟩ = matchRoute lib r ⟨req', hits⟩ := by
  have huri : matchUri lib r ⟨req, hits⟩ = matchUri lib r ⟨req', hits⟩ := by
    simp only [matchUri, h.uri]
  have hmethod : matchMethod r ⟨req, hits⟩ = matchMethod r ⟨req', hits⟩ := by
    simp only [matchMethod, h.method]
  simp only [matchRoute, h.matchHost_eq hr, h.matchHeaders_eq hr, huri, hmethod, h.matchSni_eq hr,
    h.srcIp, h.srcPort, h.dstIp, h.dstPort]

theorem matchCandidates_eq {candidates : List RouteT} (hsub : ∀ r ∈ candidates, r ∈ router.routes)
    (hits : Hits) :
    matchCandidates lib candidates ⟨req, hits⟩ = matchCandidates lib candidates ⟨req', hits⟩ := by
  induction candidates with
  | nil => rfl
  | cons r rest ih =>
    rw [matchCandidates, matchCandidates, List.findSome?_cons, List.findSome?_cons,
      h.matchRoute_eq (hsub r List.mem_cons_self)]
    cases matchRoute lib r ⟨req', hits⟩ with
    | some m => rfl
    | none => exact ih fun r' hr' => hsub r' (List.mem_cons_of_mem r hr')

/-! ### Reducers -/

omit h in
theorem reduceLoop_congr {all : List RouteT} {ctx ctx' : Ctx}
    (hreducer : reducer table all ctx = reducer table all ctx') (rules : List MatchRule)
    (smallest : Option (List RouteT)) :
    reduceLoop table all ctx rules smallest = reduceLoop table all ctx' rules smallest := by
  induction rules generalizing smallest with
  | nil => rfl
  | cons rule rest ih => simp only [reduceLoop, hreducer, ih]

theorem reduce_eq (all : List RouteT) (hits : Hits) (rules : Finset MatchRule) :
    reduce table isHttp all ⟨req, hits⟩ rules = reduce table isHttp all ⟨req', hits⟩ rules := by
  have hreducer : reducer table all ⟨req, hits⟩ = reducer table all ⟨req', hits⟩ := by
    funext rule
    cases rule <;> simp only [reducer, h.host, h.method, h.sni, h.srcIp, h.srcPort, h.dstIp,
      h.dstPort]
  simp only [reduce, hreducer, reduceLoop_congr hreducer]

/-! ### The search -/

theorem findMatch_eq (hits : Hits) (rules : Finset MatchRule) :
    router.findMatch lib table isHttp ⟨req, hits⟩ rules
      = router.findMatch lib table isHttp ⟨req', hits⟩ rules := by
  have hcategory : router.matchCategory lib table isHttp ⟨req, hits⟩
      = router.matchCategory lib table isHttp ⟨req', hits⟩ := by
    funext c
    have hroutes : ∀ r ∈ router.category c, r ∈ router.routes := fun r hr =>
      (TraditionalRouter.mem_category.mp hr).1
    rw [TraditionalRouter.matchCategory, TraditionalRouter.matchCategory, h.reduce_eq,
      h.matchCandidates_eq hroutes]
    cases hreduce : reduce table isHttp (router.category c) ⟨req', hits⟩ c with
    | none => rfl
    | some candidates =>
      simp only [h.matchCandidates_eq fun r hr => hroutes r (reduce_mem hreduce r hr)]
  rw [TraditionalRouter.findMatch, TraditionalRouter.findMatch, hcategory]

theorem hostHit_eq : router.hostHit lib req = router.hostHit lib req' := by
  by_cases hhosts : ∃ r ∈ router.routes, r.hosts ≠ []
  · obtain ⟨hhost, hnoPort, hwithPort⟩ := h.hosts hhosts
    simp only [TraditionalRouter.hostHit, hhost, hnoPort, hwithPort]
  · -- without hosts the index is empty, whatever the request has
    have hnone : ∀ r ∈ router.routes, r.hosts = [] := by
      intro r hr
      by_contra hne
      exact hhosts ⟨r, hr, hne⟩
    have hplain : router.plainHosts = [] := by
      simp +contextual [TraditionalRouter.plainHosts, hnone]
    have hwildcard : router.wildcardHosts = [] := by
      simp +contextual [TraditionalRouter.wildcardHosts, hnone]
    have hmiss : ∀ req : Request, router.hostHit lib req = .ok (false, none) := by
      intro req
      have hany : ∀ name : Option String, name.any ([] : List String).contains = false := by
        intro name
        cases name <;> rfl
      rw [TraditionalRouter.hostHit, hplain, hwildcard, hany, hany]
      cases req.host <;> rfl
    rw [hmiss, hmiss]

theorem headerHit_eq : router.headerHit req = router.headerHit req' := by
  have hpresent : ∀ name ∈ router.headerNames,
      (req.headers name).isSome = (req'.headers name).isSome := by
    intro name hname
    simpa using congrArg Option.isSome (h.headers name hname)
  rw [TraditionalRouter.headerHit, TraditionalRouter.headerHit]
  generalize router.headerNames = names at hpresent
  induction names with
  | nil => rfl
  | cons name rest ih =>
    rw [List.find?_cons, List.find?_cons, hpresent name List.mem_cons_self,
      ih fun name' hname' => hpresent name' (List.mem_cons_of_mem name hname')]

theorem findRoute_eq :
    router.findRoute lib table isHttp req = router.findRoute lib table isHttp req' := by
  have huri : router.uriHit lib table req = router.uriHit lib table req' := by
    simp only [TraditionalRouter.uriHit, h.uri]
  have hcategory : router.reqCategory lib table req = router.reqCategory lib table req' := by
    simp only [TraditionalRouter.reqCategory, h.hostHit_eq, h.headerHit_eq, huri, h.method, h.sni,
      h.srcIp, h.srcPort, h.dstIp, h.dstPort]
  simp only [TraditionalRouter.findRoute, hcategory, h.findMatch_eq]

end SameView

/-! ## Requests with the same key -/

/-- Two values of a header that the key can tell apart if they differ:
both have the same items in lower case, or both are single texts of the
same length. -/
def HeaderAlike : Option HeaderValue → Option HeaderValue → Prop
  | none, none => True
  | some value, some value' => value.lowered = value'.lowered
      ∨ ∃ s s', value = .single s ∧ value' = .single s' ∧ s.length = s'.length
  | _, _ => False

/-- The requests differ in nothing that the key leaves out or blurs. -/
structure RequestAlike (router : TraditionalRouter) (req req' : Request) : Prop where
  lengths : req.keyTexts.map String.length = req'.keyTexts.map String.length
  http : (∃ r ∈ router.routes, .sni ∈ r.matchRules) →
    (req.scheme = some "http" ↔ req'.scheme = some "http")
  hosts : (∃ r ∈ router.routes, r.hosts ≠ []) → req.host.isSome = req'.host.isSome
    ∧ ((splitPort (req.host.getD "") none).2.2 = true
      ∨ (req.scheme = some "https" ↔ req'.scheme = some "https"))
  headers : ∀ name ∈ router.headerNames, HeaderAlike (req.headers name) (req'.headers name)

theorem length_lower (s : String) : (lower s).length = s.length := by
  rw [lower, String.length_ofList, List.length_map, String.length_toList]

theorem keyText_eq (table : TableSort) (value : HeaderValue) :
    value.keyText table = tbConcat ", " (table.sort (fun a b => a < b) value.lowered) := by
  cases value with
  | single s =>
    have hone : table.sort (fun a b => decide (a < b)) [lower s] = [lower s] :=
      List.perm_singleton.mp (table.perm _ _)
    rw [HeaderValue.lowered, hone]
    rfl
  | multiple items => rfl

theorem portText_inj {port port' : Option Nat} (h : Request.portText port = Request.portText port') :
    port = port' := by
  have hnonempty : ∀ n : Nat, toString n ≠ "" := by
    intro n hempty
    have hlist : (Nat.repr n).toList = [] := by
      rw [show Nat.repr n = "" from hempty]
      rfl
    exact Nat.toDigits_ne_nil (Nat.toList_repr ▸ hlist)
  cases port with
  | none =>
    cases port' with
    | none => rfl
    | some n => exact absurd h.symm (hnonempty n)
  | some m =>
    cases port' with
    | none => exact absurd h (hnonempty m)
    | some n => rw [toString_nat_inj h]

theorem splitPort_fst (name : String) (port port' : Option Nat) :
    (splitPort name port).1 = (splitPort name port').1 := by
  unfold splitPort
  split
  · split
    · rfl
    · split
      · rfl
      · split <;> rfl
      · rfl
  · split
    · rfl
    · rfl
    · split
      · rfl
      · cases port <;> cases port' <;> rfl

theorem splitPort_of_port {name : String} (port : Option Nat)
    (h : (splitPort name none).2.2 = true) : (splitPort name port).2.1 = name := by
  unfold splitPort at h ⊢
  split at h
  · split at h
    · simp at h
    · split at h
      · simp at h
      · split at h
        · simp_all
        · simp at h
      · simp at h
  · split at h
    · simp at h
    · simp at h
    · split at h
      · simp_all
      · simp at h

variable {table : TableSort} {router : TraditionalRouter} {req req' : Request}

theorem headersKey_inj {names : List String}
    (halike : ∀ name ∈ names, HeaderAlike (req.headers name) (req'.headers name))
    (h : req.headersKey table names = req'.headersKey table names) :
    ∀ name ∈ names,
      (req.headers name).map HeaderValue.lowered = (req'.headers name).map HeaderValue.lowered := by
  induction names with
  | nil => simp
  | cons name rest ih =>
    have hrest := ih fun name' hname' => halike name' (List.mem_cons_of_mem name hname')
    have hname := halike name List.mem_cons_self
    suffices hboth : (req.headers name).map HeaderValue.lowered
        = (req'.headers name).map HeaderValue.lowered
          ∧ req.headersKey table rest = req'.headersKey table rest by
      intro name' hname'
      rcases List.mem_cons.mp hname' with rfl | hmem
      · exact hboth.1
      · exact hrest hboth.2 name' hmem
    rw [Request.headersKey, Request.headersKey] at h
    cases hvalue : req.headers name with
    | none =>
      cases hvalue' : req'.headers name with
      | some value' => simp [HeaderAlike, hvalue, hvalue'] at hname
      | none =>
        rw [hvalue, hvalue'] at h
        exact ⟨rfl, (append_inj_of_length h rfl).2⟩
    | some value =>
      cases hvalue' : req'.headers name with
      | none => simp [HeaderAlike, hvalue, hvalue'] at hname
      | some value' =>
        rw [hvalue, hvalue'] at h hname
        -- the value's text has the same length in both keys
        have hlen : (value.keyText table).length = (value'.keyText table).length := by
          rcases hname with hlowered | ⟨s, s', rfl, rfl, hlen⟩
          · rw [keyText_eq, keyText_eq, hlowered]
          · simpa [HeaderValue.keyText, length_lower] using hlen
        obtain ⟨hpiece, hkeys⟩ := append_inj_of_length h
          (by simp only [String.length_append, hlen])
        obtain ⟨-, hpiece⟩ := append_inj_of_length hpiece rfl
        obtain ⟨-, hpiece⟩ := append_inj_of_length hpiece rfl
        obtain ⟨-, htext⟩ := append_inj_of_length hpiece rfl
        refine ⟨?_, hkeys⟩
        rcases hname with hlowered | ⟨s, s', rfl, rfl, -⟩
        · rw [Option.map_some, Option.map_some, hlowered]
        · exact congrArg (fun text => some [text]) htext

theorem sameView_of_cacheKey (halike : RequestAlike router req req')
    (h : router.cacheKey table req = router.cacheKey table req') : SameView router req req' := by
  obtain ⟨htexts, hheaders⟩ := append_inj_of_length h (length_tbConcat_congr halike.lengths)
  have hlist := tbConcat_inj htexts halike.lengths
  simp only [Request.keyTexts, List.cons.injEq, and_true] at hlist
  obtain ⟨hmethod, huri, hhost, hsrcIp, hsrcPort, hdstIp, hdstPort, hsni⟩ := hlist
  refine {
    method := hmethod, uri := huri, host := hhost, srcIp := hsrcIp
    srcPort := portText_inj hsrcPort, dstIp := hdstIp, dstPort := portText_inj hdstPort
    sni := hsni, http := halike.http, hosts := ?_
    headers := headersKey_inj halike.headers hheaders }
  intro hhosts
  obtain ⟨hpresent, hport⟩ := halike.hosts hhosts
  have hsame : req.host = req'.host := by
    cases hreq : req.host with
    | none =>
      cases hreq' : req'.host with
      | none => rfl
      | some name' => simp [hreq, hreq'] at hpresent
    | some name =>
      cases hreq' : req'.host with
      | none => simp [hreq, hreq'] at hpresent
      | some name' => simpa [hreq, hreq'] using hhost
  refine ⟨hsame, ?_, ?_⟩
  · rw [Request.hostNoPort, Request.hostNoPort, hsame]
    exact congrArg (fun f => req'.host.map f) (funext fun name => splitPort_fst name _ _)
  · rw [Request.hostWithPort, Request.hostWithPort, hsame]
    rcases hport with hnamed | hscheme
    · cases hreq' : req'.host with
      | none => rfl
      | some name =>
        rw [hsame, hreq'] at hnamed
        have hport := splitPort_of_port (some req.defaultPort) hnamed
        have hport' := splitPort_of_port (some req'.defaultPort) hnamed
        exact congrArg some (hport.trans hport'.symm)
    · have hdefault : req.defaultPort = req'.defaultPort := by
        simp only [Request.defaultPort, hscheme]
      rw [hdefault]

/-! ## The caches -/

/-- The parts of the returned table that a match decides. -/
structure MatchT where
  route : Route
  headers : List HeaderT
  matched : Matches
deriving DecidableEq

namespace TraditionalRouter

variable (lib : MatchLib) (table : TableSort) (isHttp : Bool) (router : TraditionalRouter)

def matchT (found : RouteT × Matches) : MatchT where
  route := router.resolve found.1
  headers := found.1.headers
  matched := found.2

/-- What `find_route` computes when both caches miss. -/
def evaluate (req : Request) : Outcome MatchT :=
  match router.findRoute lib table isHttp req with
  | none => .aborted
  | some none => .missing
  | some (some found) => .found (router.matchT found)

/-- No error comes before the lookup. -/
def query (req : Request) : Except Empty (String × Outcome MatchT) :=
  .ok (router.cacheKey table req, router.evaluate lib table isHttp req)

variable (posLib : CacheLib String MatchT) (negLib : CacheLib String Unit)

/-- `find_route`: the answer to a request, and the caches after it. -/
def cachedFindRoute (caches : Memo posLib negLib) (req : Request) :
    Except Empty (Option MatchT) × Memo posLib negLib :=
  Memo.step (router.query lib table isHttp) (fun _ found => found) caches req

end TraditionalRouter

/-- **The caches of the traditional router.** In every sequence of
requests in which requests with equal keys are alike, `find_route`
answers every request as it would with empty caches. -/
theorem match_caches_transparent (lib : MatchLib) (table : TableSort) (isHttp : Bool)
    (router : TraditionalRouter) (posLib : CacheLib String MatchT) (negLib : CacheLib String Unit)
    (requests : List Request)
    (halike : ∀ req ∈ requests, ∀ req' ∈ requests,
      router.cacheKey table req = router.cacheKey table req' → RequestAlike router req req') :
    Run.outputs (router.cachedFindRoute lib table isHttp posLib negLib) Memo.empty requests
      = requests.map fun req =>
          (router.cachedFindRoute lib table isHttp posLib negLib Memo.empty req).1 := by
  refine Memo.outputs_eq_alone (router.query lib table isHttp) (fun _ found => found) requests ?_
  intro req hreq req' hreq' key outcome outcome' hquery hquery'
  obtain ⟨rfl, rfl⟩ : router.cacheKey table req = key
      ∧ router.evaluate lib table isHttp req = outcome := by
    simpa [TraditionalRouter.query] using hquery
  obtain ⟨hkey, rfl⟩ : router.cacheKey table req' = router.cacheKey table req
      ∧ router.evaluate lib table isHttp req' = outcome' := by
    simpa [TraditionalRouter.query] using hquery'
  have hview := sameView_of_cacheKey (halike req hreq req' hreq' hkey.symm) hkey.symm
  simp only [TraditionalRouter.evaluate, hview.findRoute_eq]

/-! ### The scheme is not in the key -/

theorem RequestAlike.refl (router : TraditionalRouter) (req : Request) :
    RequestAlike router req req where
  lengths := rfl
  http := fun _ => Iff.rfl
  hosts := fun _ => ⟨rfl, .inr Iff.rfl⟩
  headers := by
    intro name _
    cases req.headers name with
    | none => trivial
    | some value => exact .inl rfl

/-- A route for TLS connections to `x.com`; over plain HTTP it matches
without an SNI. -/
def tlsRoute : Route where
  id := some "r1"
  paths := some ["/pay"]
  snis := some ["x.com"]
  createdAt := some 1

def tlsRouter : TraditionalRouter where
  routes := insertionTable.sort sortRoutes [{
    route := tlsRoute
    matchRules := {.uri, .sni}
    submatchWeight := 0, maxUriLength := 4
    hosts := [], headers := [], uris := [.plain "/pay"], methods := []
    sources := [], destinations := [], snis := ["x.com"] }]
  routesById := fun id => [tlsRoute].find? fun route => route.id = some id

def payRequest (scheme : String) : Request where
  method := some "GET"
  uri := some "/pay"
  host := some "y.com"
  scheme := some scheme

theorem repeated_request_from_cache :
    let requests := [payRequest "http", payRequest "http"]
    let find := tlsRouter.cachedFindRoute plainLib insertionTable true (Lru.cache 10) (Lru.cache 10)
    Run.outputs find Memo.empty requests = requests.map fun req => (find Memo.empty req).1 := by
  refine match_caches_transparent plainLib insertionTable true tlsRouter _ _ _ ?_
  intro req hreq req' hreq' _
  have heq : req = req' := by
    simp only [List.mem_cons, List.not_mem_nil, or_false, or_self] at hreq hreq'
    rw [hreq, hreq']
  rw [heq]
  exact .refl _ _

/-- The answer of a plain request is given to a TLS request without an
SNI, which no route matches. -/
theorem plain_answer_served_over_tls :
    TraditionalRouter.new insertionTable [tlsRoute] = .ok tlsRouter
      ∧ ∃ found,
        let requests := [payRequest "http", payRequest "https"]
        let find := tlsRouter.cachedFindRoute plainLib insertionTable true (Lru.cache 10) (Lru.cache 10)
        Run.outputs find Memo.empty requests = [.ok (some found), .ok (some found)]
          ∧ requests.map (fun req => (find Memo.empty req).1) = [.ok (some found), .ok none] := by
  exact ⟨rfl, _, rfl, rfl⟩

end KongGateway.Kong.Router.Traditional

import KongGateway.Kong.Router.Traditional.Search
import Mathlib.Algebra.Order.Ring.Rat
import Mathlib.Data.Prod.Lex

/-!
# Priority — when the reduced candidates respect the order of the routes

Within a category `find_match` tries a bucket of the category before the
whole of it. The bucket is the one the indexes suggest, and the indexes
are filled by the routes of all categories: a path regex of a route that
does not match may send the search to a bucket that lacks the first
route that does. The theorem of this module says exactly when the route
that is found is not preceded by another match of its category.
-/

namespace KongGateway.Kong.Router.Traditional

open LuaStd

/-! ## The order of routes -/

/-- What `sort_routes` compares, smaller first. -/
def priorityKey (r : RouteT) : ℤ ×ₗ ℤ ×ₗ ℤ ×ₗ ℤ ×ₗ ℚ :=
  toLex (-(r.submatchWeight : ℤ), toLex (-(r.headers.length : ℤ),
    toLex (if r.submatchWeight % 2 ≠ 0 then -r.route.regexPriority.getD 0 else 0,
      toLex (-(r.maxUriLength : ℤ), r.route.createdAt.getD 0))))

theorem toLex_lt_toLex_ite {α β : Type} [LinearOrder α] [LinearOrder β] {a a' : α} {b b' : β} :
    toLex (a, b) < toLex (a', b') ↔ if a ≠ a' then a < a' else b < b' := by
  rw [Prod.Lex.toLex_lt_toLex]
  split
  · rename_i hne
    simp [hne]
  · rename_i heq
    simp [not_not.mp heq]

theorem sortRoutes_iff_key {r1 r2 : RouteT} (h1 : r1.route.createdAt.isSome)
    (h2 : r2.route.createdAt.isSome) :
    sortRoutes r1 r2 = true ↔ priorityKey r1 < priorityKey r2 := by
  obtain ⟨created1, hcreated1⟩ := Option.isSome_iff_exists.mp h1
  obtain ⟨created2, hcreated2⟩ := Option.isSome_iff_exists.mp h2
  simp only [priorityKey, toLex_lt_toLex_ite, sortRoutes, hcreated1, hcreated2, Option.getD_some,
    ne_eq, neg_inj, neg_lt_neg_iff, Int.natCast_inj, Int.ofNat_lt]
  by_cases hweight : r1.submatchWeight = r2.submatchWeight
  · by_cases hheaders : r1.headers.length = r2.headers.length
    · -- the regex priority is compared only between routes with a regex
      by_cases hodd : r2.submatchWeight % 2 = 0
      · simp only [hweight, hheaders, hodd, not_true_eq_false, false_and, if_false]
        split <;> simp
      · simp only [hweight, hheaders, hodd, not_true_eq_false, not_false_eq_true, true_and, if_false,
          if_true, neg_inj, neg_lt_neg_iff]
        split
        · simp
        · split <;> simp
    · simp [hweight, hheaders]
  · simp [hweight]

theorem marshallRoutes_route {routes : List Route} {marshalled : List RouteT}
    (h : marshallRoutes routes = .ok marshalled) : ∀ r ∈ marshalled, r.route ∈ routes := by
  intro r hr
  obtain ⟨⟨route, part⟩, hpart, hmarshall⟩ := mem_of_mapM_eq_ok h r hr
  obtain ⟨route', hroute, hsplit⟩ := List.mem_flatMap.mp hpart
  obtain ⟨part', -, heq⟩ := List.mem_map.mp hsplit
  obtain ⟨rfl, rfl⟩ : route' = route ∧ part' = part := by simpa using heq
  cases hone : marshallRoute part' with
  | error err => simp [hone, Except.map] at hmarshall
  | ok routeT =>
    simp only [hone, Except.map, Except.ok.injEq] at hmarshall
    rw [← hmarshall]
    exact hroute

section Built

variable {lib : MatchLib} {table : TableSort} {isHttp : Bool} {routes : List Route}
  {router : TraditionalRouter} {req : Request}

/-- The routes of a built router are in the order of `sort_routes`. -/
theorem routes_sorted (hnew : TraditionalRouter.new table routes = .ok router)
    (hcreated : ∀ route ∈ routes, route.createdAt.isSome) :
    StrictWeak sortRoutes router.routes
      ∧ router.routes.Pairwise fun r1 r2 => sortRoutes r2 r1 = false := by
  rw [TraditionalRouter.new] at hnew
  cases hmarshall : marshallRoutes routes with
  | error err =>
    rw [hmarshall] at hnew
    cases hnew
  | ok marshalled =>
    rw [hmarshall] at hnew
    cases hnew
    have hweak : StrictWeak sortRoutes marshalled := .of_key priorityKey fun r1 hr1 r2 hr2 =>
      sortRoutes_iff_key (hcreated _ (marshallRoutes_route hmarshall r1 hr1))
        (hcreated _ (marshallRoutes_route hmarshall r2 hr2))
    exact ⟨hweak.of_subset (table.perm _ _).subset, table.sorted hweak⟩

/-! ## Buckets in the order of the routes -/

theorem reducer_sorted {all candidates : List RouteT} {ctx : Ctx} {rule : MatchRule}
    (hrefl : ∀ r ∈ all, sortRoutes r r = false)
    (hsorted : all.Pairwise fun r1 r2 => sortRoutes r2 r1 = false)
    (hrule : rule ≠ .src ∧ rule ≠ .dst) (h : reducer table all ctx rule = some candidates) :
    candidates.Pairwise fun r1 r2 => sortRoutes r2 r1 = false := by
  rcases reducer_eq_some h with ⟨κ, _, keys, k, rfl⟩ | ⟨haddr, -⟩
  · exact bucketRoutes_pairwise hrefl hsorted
  · exact absurd haddr (by simpa using hrule)

/-! ## The route that is found -/

/-- If the bucket of the category has a match at all, it has one that no
match of the category precedes. Where the bucket may be an address
bucket, which has an order of its own, that one also precedes no match
that stands before it there. -/
def BucketHasFirst (lib : MatchLib) (table : TableSort) (isHttp : Bool) (router : TraditionalRouter)
    (req : Request) (rules : Finset MatchRule) : Prop :=
  ∀ candidates, reduce table isHttp (router.category rules) (router.ctx lib table req) rules
      = some candidates →
    (∃ r ∈ candidates, router.Satisfies lib table req r) →
    ∃ before first after, candidates = before ++ first :: after
      ∧ router.Satisfies lib table req first
      ∧ (∀ r ∈ router.category rules, router.Satisfies lib table req r → sortRoutes r first = false)
      ∧ (.src ∈ rules ∨ .dst ∈ rules →
        ∀ r ∈ before, router.Satisfies lib table req r → sortRoutes first r = false)

theorem eq_or_mem_before {p : RouteT → Prop} {before after before' after' : List RouteT}
    {r first : RouteT} (heq : before ++ r :: after = before' ++ first :: after')
    (hbefore : ∀ a ∈ before, ¬ p a) (hfirst : p first) : r = first ∨ r ∈ before' := by
  rcases List.append_eq_append_iff.mp heq with ⟨between, rfl, hcons⟩ | ⟨between, rfl, hcons⟩
  · cases between with
    | nil => exact .inl (by simpa using congrArg List.head? hcons)
    | cons head rest =>
      obtain ⟨rfl, -⟩ : r = head ∧ after = rest ++ first :: after' := by simpa using hcons
      exact .inr (by simp)
  · cases between with
    | nil => exact .inl (by simpa using (congrArg List.head? hcons).symm)
    | cons head rest =>
      obtain ⟨rfl, -⟩ : first = head ∧ after' = rest ++ r :: after := by simpa using hcons
      exact absurd hfirst (hbefore first (by simp))

theorem not_satisfies {r : RouteT} (h : matchRoute lib r (router.ctx lib table req) = none) :
    ¬ router.Satisfies lib table req r := by
  intro hsat
  rw [TraditionalRouter.Satisfies, h] at hsat
  cases hsat

/-- In a router whose routes are in order: what one round of the search
finds is preceded by no match of the category, exactly if the bucket has
a match that comes first, or none. -/
theorem matchCategory_first_iff (hweak : StrictWeak sortRoutes router.routes)
    (hsorted : router.routes.Pairwise fun r1 r2 => sortRoutes r2 r1 = false)
    {rules : Finset MatchRule} {r : RouteT} {m : Matches}
    (h : router.matchCategory lib table isHttp (router.ctx lib table req) rules = some (r, m)) :
    (∀ r' ∈ router.category rules, router.Satisfies lib table req r' → sortRoutes r' r = false)
      ↔ BucketHasFirst lib table isHttp router req rules := by
  have hirrefl : ∀ r' ∈ router.routes, sortRoutes r' r' = false := by
    intro r' hr'
    by_contra hlt
    exact hlt (hweak.asymm r' hr' r' hr' (by simpa using hlt))
  have hroutes : ∀ r' ∈ router.category rules, r' ∈ router.routes := fun r' hr' =>
    (TraditionalRouter.mem_category.mp hr').1
  have hcategory : (router.category rules).Pairwise fun r1 r2 => sortRoutes r2 r1 = false :=
    hsorted.sublist List.filter_sublist
  have hr : r ∈ router.routes := hroutes r (TraditionalRouter.matchCategory_found h).1
  rcases TraditionalRouter.matchCategory_eq_some h
    with ⟨candidates, hreduce, hfound⟩ | ⟨hnone, hfound⟩
  · obtain ⟨before, after, heq, hsat, hbefore⟩ := matchCandidates_eq_some hfound
    constructor
    · intro hfirst candidates' hreduce' _
      obtain rfl : candidates = candidates' := Option.some.inj (hreduce.symm.trans hreduce')
      refine ⟨before, r, after, heq, Option.isSome_of_eq_some hsat, hfirst, ?_⟩
      intro _ a ha hsome
      exact absurd hsome (not_satisfies (hbefore a ha))
    · intro hbucket r' hr' hsat'
      obtain ⟨before', first, after', heq', hsatFirst, hfirst, haddr⟩ :=
        hbucket candidates hreduce ⟨r, by simp [heq], Option.isSome_of_eq_some hsat⟩
      have hfirstMem : first ∈ router.routes :=
        hroutes first (reduce_mem hreduce first (by simp [heq']))
      -- the route found is not after `first`, so it is as good as `first`
      have hle : sortRoutes first r = false := by
        by_cases hrule : MatchRule.src ∈ rules ∨ MatchRule.dst ∈ rules
        · rcases eq_or_mem_before (heq.symm.trans heq') (fun a ha => not_satisfies (hbefore a ha))
            hsatFirst with rfl | hmem
          · exact hirrefl r hr
          · exact haddr hrule r hmem (Option.isSome_of_eq_some hsat)
        · obtain ⟨rule, hin, hreducer, -⟩ := reduce_eq_some hreduce
          have hplain : rule ≠ .src ∧ rule ≠ .dst :=
            ⟨fun hsrc => hrule (.inl (hsrc ▸ hin)), fun hdst => hrule (.inr (hdst ▸ hin))⟩
          have hcandidates := reducer_sorted (fun a ha => hirrefl a (hroutes a ha)) hcategory hplain
            hreducer
          rw [heq] at hcandidates
          exact lt_first_eq_false hcandidates (hirrefl r hr)
            (fun a ha => not_satisfies (hbefore a ha)) first (by simp [← heq, heq']) hsatFirst
      by_contra hlt
      rcases hweak.negTrans r' (hroutes r' hr') first hfirstMem r hr (by simpa using hlt)
        with hbad | hbad
      · simp [hfirst r' hr' hsat'] at hbad
      · simp [hle] at hbad
  · obtain ⟨before, after, heq, -, hbefore⟩ := matchCandidates_eq_some hfound
    constructor
    · -- no match in the bucket, nothing to show
      intro _ candidates hreduce hsome
      obtain ⟨a, ha, hsat⟩ := hsome
      exact absurd hsat (not_satisfies (hnone candidates hreduce a ha))
    · intro _ r' hr' hsat'
      rw [heq] at hcategory hr'
      exact lt_first_eq_false hcategory (hirrefl r hr) (fun a ha => not_satisfies (hbefore a ha))
        r' hr' hsat'

end Built

/-- **Priority is honoured.** No match of its category precedes the route
that is found, exactly if the bucket that is tried first has a match
that comes first, or no match. -/
theorem priority_honoured_iff (lib : MatchLib) (table : TableSort) (isHttp : Bool)
    (routes : List Route) (router : TraditionalRouter) (req : Request)
    (hnew : TraditionalRouter.new table routes = .ok router)
    (hcreated : ∀ route ∈ routes, route.createdAt.isSome) (r : RouteT) (m : Matches)
    (hfound : router.findRoute lib table isHttp req = some (some (r, m))) :
    (∀ r' ∈ router.routes, router.Satisfies lib table req r' → r'.matchRules = r.matchRules →
        sortRoutes r' r = false)
      ↔ BucketHasFirst lib table isHttp router req r.matchRules := by
  obtain ⟨hweak, hsorted⟩ := routes_sorted hnew hcreated
  obtain ⟨hits, reqRules, -, -, hmatch⟩ := TraditionalRouter.findRoute_eq_found.mp hfound
  obtain ⟨-, rules, -, -, hround, -⟩ := List.findSome?_eq_some_iff.mp hmatch
  -- the round that found the route was the one of its category
  obtain ⟨-, rfl⟩ := TraditionalRouter.mem_category.mp (TraditionalRouter.matchCategory_found hround).1
  rw [← matchCategory_first_iff hweak hsorted hround]
  constructor
  · intro hfirst r' hr' hsat
    obtain ⟨hroute, hrules⟩ := TraditionalRouter.mem_category.mp hr'
    exact hfirst r' hroute hsat hrules
  · intro hfirst r' hroute hsat hrules
    exact hfirst r' (TraditionalRouter.mem_category.mpr ⟨hroute, hrules⟩) hsat

/-! ### Three regex routes -/

/-- What the regex engine answers about the path `/foo`, which both
regexes match. -/
def fooLib : MatchLib where
  find := fun subject regex => .ok (subject = some "/foo" ∧ (regex = "/f.*" ∨ regex = "/foo"))
  reMatch := fun subject regex =>
    if subject = "/foo" ∧ (regex = regexPrefix ++ "/f.*" ++ "(?<uri_postfix>.*)"
        ∨ regex = regexPrefix ++ "/foo" ++ "(?<uri_postfix>.*)") then
      .ok (some { uriPostfix := some "", groups := [some ""], named := [("uri_postfix", some "")] })
    else .ok none
  search := fun _ _ => false
  inRange := fun _ _ => false

def regexRoute (id path method : String) (priority : Int) (created : ℚ) : Route where
  id := some id
  paths := some [path]
  methods := some [method]
  regexPriority := some priority
  createdAt := some created

def postAny : Route := regexRoute "z" "~/f.*" "POST" 10 1

def getFoo : Route := regexRoute "a" "~/foo" "GET" 5 2

def getAny : Route := regexRoute "b" "~/f.*" "GET" 0 3

def fooRequest : Request where
  method := some "GET"
  uri := some "/foo"
  host := some "x.com"
  scheme := some "http"

theorem priority_of_two_regexes :
    ∃ router r m, TraditionalRouter.new insertionTable [getAny, getFoo] = .ok router
      ∧ router.findRoute fooLib insertionTable true fooRequest = some (some (r, m))
      ∧ r.route = getFoo
      ∧ ((∀ r' ∈ router.routes, router.Satisfies fooLib insertionTable fooRequest r' →
            r'.matchRules = r.matchRules → sortRoutes r' r = false)
          ↔ BucketHasFirst fooLib insertionTable true router fooRequest r.matchRules) := by
  refine ⟨_, _, _, rfl, rfl, rfl, ?_⟩
  exact priority_honoured_iff fooLib insertionTable true [getAny, getFoo] _ fooRequest rfl
    (by decide) _ _ rfl

/-- With the route for POST requests the search is sent to the bucket of
`/f.*`, and the regex of lower priority answers the GET request. -/
theorem unmatched_regex_reverses_priority :
    ∃ router a b m, TraditionalRouter.new insertionTable [postAny, getFoo, getAny] = .ok router
      ∧ router.findRoute fooLib insertionTable true fooRequest = some (some (b, m))
      ∧ b.route = getAny ∧ a ∈ router.routes ∧ a.route = getFoo
      ∧ router.Satisfies fooLib insertionTable fooRequest a
      ∧ a.matchRules = b.matchRules ∧ sortRoutes a b = true := by
  refine ⟨_, _, _, _, rfl, rfl, rfl, List.mem_cons_of_mem _ List.mem_cons_self, rfl, rfl, rfl, rfl⟩

end KongGateway.Kong.Router.Traditional

import KongGateway.Kong.Router.Traditional.Search

/-!
# Category — when the category of a request hides a match

`find_route` guesses the category of a request from the indexes and
skips the categories before it. The guess is right as long as every rule
that a route can match by has set its bit; a route may also match by its
SNIs without any index entry, since over plain HTTP its matcher lets
every request pass. The theorem of this module says exactly when a
request that some route matches is answered with a route.
-/

namespace KongGateway.Kong.Router.Traditional

open LuaStd

/-! ## Scans -/

section Scans

variable {α : Type} {check : α → Except String Bool}

/-- The check of a value fails before any value is accepted. -/
def ScanFails (check : α → Except String Bool) (l : List α) : Prop :=
  ∃ before a after err, l = before ++ a :: after
    ∧ (∀ b ∈ before, check b = .ok false) ∧ check a = .error err

theorem scanFails_cons {a : α} {rest : List α} (h : check a = .ok false) :
    ScanFails check (a :: rest) ↔ ScanFails check rest := by
  constructor
  · rintro ⟨before, bad, after, err, heq, hbefore, hbad⟩
    cases before with
    | nil =>
      obtain ⟨rfl, rfl⟩ : a = bad ∧ rest = after := by simpa using heq
      simp [h] at hbad
    | cons first before =>
      obtain ⟨rfl, rfl⟩ : a = first ∧ rest = before ++ bad :: after := by simpa using heq
      exact ⟨before, bad, after, err, rfl, fun b hb => hbefore b (List.mem_cons_of_mem a hb), hbad⟩
  · rintro ⟨before, bad, after, err, rfl, hbefore, hbad⟩
    refine ⟨a :: before, bad, after, err, rfl, ?_, hbad⟩
    intro b hb
    rcases List.mem_cons.mp hb with rfl | hb
    · exact h
    · exact hbefore b hb

theorem scan_spec (check : α → Except String Bool) (l : List α) :
    (ScanFails check l ∧ ∃ err, scan check l = .error err)
      ∨ (¬ ScanFails check l ∧ ∃ found, scan check l = .ok found
        ∧ (found.isSome ↔ ∃ a ∈ l, check a = .ok true)) := by
  induction l with
  | nil =>
    refine .inr ⟨?_, none, rfl, by simp⟩
    rintro ⟨before, bad, after, err, heq, -⟩
    simp at heq
  | cons a rest ih =>
    rw [scan]
    cases hcheck : check a with
    | error err => exact .inl ⟨⟨[], a, rest, err, rfl, by simp, hcheck⟩, err, rfl⟩
    | ok accepted =>
      cases accepted with
      | true =>
        refine .inr ⟨?_, some a, rfl, by simp [hcheck]⟩
        -- the first value is accepted, so no value fails before it
        rintro ⟨before, bad, after, err, heq, hbefore, hbad⟩
        cases before with
        | nil =>
          obtain ⟨rfl, rfl⟩ : a = bad ∧ rest = after := by simpa using heq
          simp [hcheck] at hbad
        | cons first before =>
          obtain ⟨rfl, -⟩ : a = first ∧ rest = before ++ bad :: after := by simpa using heq
          simp [hcheck] at hbefore
      | false =>
        rw [scanFails_cons hcheck]
        rcases ih with ⟨hfails, herr⟩ | ⟨hfails, found, hscan, hfound⟩
        · exact .inl ⟨hfails, herr⟩
        · exact .inr ⟨hfails, found, hscan, by simp [hfound, hcheck]⟩

end Scans

/-! ## The rules that the indexes have for a request -/

section Rules

variable (lib : MatchLib) (router : TraditionalRouter) (req : Request)

/-- A plain host of the routes is the request's host, with or without a
port. -/
def PlainHostHit : Prop :=
  ∃ host ∈ router.plainHosts, req.hostWithPort = some host ∨ req.hostNoPort = some host

/-- The indexes have something for the request under the rule. -/
def RuleHit : MatchRule → Prop
  | .host => req.host.isSome ∧ (PlainHostHit router req
      ∨ ∃ host ∈ router.wildcardHosts, lib.find req.hostWithPort host.2 = .ok true)
  | .header => ∃ name ∈ router.headerNames, (req.headers name).isSome
  | .uri => (∃ regex ∈ router.regexUris, lib.find (some (req.uri.getD "")) regex = .ok true)
      ∨ ∃ value ∈ router.plainUris, startsWith (req.uri.getD "") value
  | .method => req.method.getD "" ∈ router.methods
  | .sni => req.sni.getD "" ∈ router.snis
  | .src => router.addrHit lib RouteT.sources (req.srcIp.getD "") req.srcPort
  | .dst => router.addrHit lib RouteT.destinations (req.dstIp.getD "") req.dstPort

open Classical in
/-- The rules with a hit. -/
noncomputable def hitRules : Finset MatchRule := Finset.univ.filter (RuleHit lib router req)

/-- A wildcard regex cannot be evaluated, and no plain host made up for
it. -/
def HostIndexFails : Prop :=
  req.host.isSome ∧ ¬ PlainHostHit router req
    ∧ ScanFails (fun host => lib.find req.hostWithPort host.2) router.wildcardHosts

/-- A path regex cannot be evaluated. -/
def UriIndexFails : Prop :=
  ScanFails (fun regex => lib.find (some (req.uri.getD "")) regex) router.regexUris

/-- `find_route` gives up on the request. -/
def IndexFails : Prop := HostIndexFails lib router req ∨ UriIndexFails lib router req

end Rules

namespace TraditionalRouter

variable (lib : MatchLib) (table : TableSort) (isHttp : Bool) (router : TraditionalRouter)
  (req : Request)

theorem hostHit_spec :
    (HostIndexFails lib router req ∧ ∃ err, router.hostHit lib req = .error err)
      ∨ (¬ HostIndexFails lib router req
        ∧ ∃ found host, router.hostHit lib req = .ok (found, host)
          ∧ (found = true ↔ RuleHit lib router req .host)) := by
  rw [hostHit]
  cases hhost : req.host with
  | none => simp [HostIndexFails, RuleHit, hhost]
  | some host =>
    have hplain : (req.hostWithPort.any router.plainHosts.contains
        || req.hostNoPort.any router.plainHosts.contains) = true ↔ PlainHostHit router req := by
      simp only [PlainHostHit, Bool.or_eq_true, Option.any_eq_true, List.contains_iff_mem]
      constructor
      · rintro (⟨name, hname, hmem⟩ | ⟨name, hname, hmem⟩)
        · exact ⟨name, hmem, .inl hname⟩
        · exact ⟨name, hmem, .inr hname⟩
      · rintro ⟨name, hmem, hname | hname⟩
        · exact .inl ⟨name, hname, hmem⟩
        · exact .inr ⟨name, hname, hmem⟩
    by_cases hhit : PlainHostHit router req
    · rw [if_pos (hplain.mpr hhit)]
      simp [HostIndexFails, RuleHit, hhost, hhit]
    · rw [if_neg (fun h => hhit (hplain.mp h))]
      rcases scan_spec (fun host => lib.find req.hostWithPort host.2) router.wildcardHosts
        with ⟨hfails, err, herr⟩ | ⟨hfails, found, hscan, hfound⟩
      · rw [herr]
        exact .inl ⟨⟨by simp [hhost], hhit, hfails⟩, err, rfl⟩
      · rw [hscan]
        refine .inr ⟨fun h => hfails h.2.2, found.isSome, found.map (·.1), rfl, ?_⟩
        simp [RuleHit, hhost, hhit, hfound]

theorem uriHit_spec :
    (UriIndexFails lib router req ∧ ∃ err, router.uriHit lib table req = .error err)
      ∨ (¬ UriIndexFails lib router req
        ∧ ∃ uri, router.uriHit lib table req = .ok uri
          ∧ (uri.isSome ↔ RuleHit lib router req .uri)) := by
  rw [uriHit]
  rcases scan_spec (fun regex => lib.find (some (req.uri.getD "")) regex) router.regexUris
    with ⟨hfails, err, herr⟩ | ⟨hfails, found, hscan, hfound⟩
  · rw [herr]
    exact .inl ⟨hfails, err, rfl⟩
  · rw [hscan]
    refine .inr ⟨hfails, ?_⟩
    cases found with
    | some regex =>
      have hregex := hfound.mp rfl
      exact ⟨some regex, rfl, by simp [RuleHit, hregex]⟩
    | none =>
      have hregex : ¬ ∃ regex ∈ router.regexUris,
          lib.find (some (req.uri.getD "")) regex = .ok true := fun h => by simpa using hfound.mpr h
      simp only [RuleHit, hregex, false_or]
      by_cases hplain : req.uri.getD "" ∈ router.plainUris
      · refine ⟨some (req.uri.getD ""), by simp [hplain], ?_⟩
        have hself : startsWith (req.uri.getD "") (req.uri.getD "") = true := by
          simp [startsWith]
        simpa using ⟨_, hplain, hself⟩
      · refine ⟨(table.sort sortUris router.plainUris).find? fun value =>
          startsWith (req.uri.getD "") value, by simp [hplain], ?_⟩
        simp [List.find?_isSome, (table.perm sortUris router.plainUris).mem_iff]

/-- Either an index fails, or the category of the request is the set of
the rules with a hit. -/
theorem reqCategory_spec :
    (IndexFails lib router req ∧ ∃ err, router.reqCategory lib table req = .error err)
    ∨ (¬ IndexFails lib router req
      ∧ ∃ hits, router.reqCategory lib table req = .ok (hits, hitRules lib router req)) := by
  rw [reqCategory]
  rcases hostHit_spec lib router req
    with ⟨hfails, err, herr⟩ | ⟨hhostOk, hostFound, host, hhost, hhostRule⟩
  · rw [herr]
    exact .inl ⟨.inl hfails, err, rfl⟩
  · rw [hhost]
    rcases uriHit_spec lib table router req
      with ⟨hfails, err, herr⟩ | ⟨huriOk, uri, huri, huriRule⟩
    · rw [herr]
      exact .inl ⟨.inr hfails, err, rfl⟩
    · rw [huri]
      refine .inr ⟨fun h => h.elim hhostOk huriOk,
        { host := host, headerName := router.headerHit req, uri := uri }, ?_⟩
      refine congrArg Except.ok (Prod.ext rfl ?_)
      -- rule by rule, the bit that was set is the one of the index hit
      ext rule
      simp only [ruleSet, hitRules, Finset.mem_filter, Finset.mem_univ, true_and]
      cases rule with
      | host => exact hhostRule
      | header => simp [headerHit, RuleHit, List.find?_isSome]
      | uri => exact huriRule
      | _ => simp [RuleHit]

/-- The request is answered with a route exactly if no index fails, some
rule has a hit, and a route that matches is in a category that is not
skipped. -/
theorem findRoute_found_iff :
    (∃ found, router.findRoute lib table isHttp req = some (some found)) ↔
      ¬ IndexFails lib router req ∧ hitRules lib router req ≠ ∅
        ∧ ∃ r ∈ router.routes, router.Satisfies lib table req r
          ∧ ((∃ r' ∈ router.routes, r'.matchRules = hitRules lib router req) →
            sortCategories r.matchRules (hitRules lib router req) = false) := by
  have hreach : ∀ r ∈ router.routes,
      (r.matchRules ∈ router.searched table (hitRules lib router req) ↔
        ((∃ r' ∈ router.routes, r'.matchRules = hitRules lib router req) →
          sortCategories r.matchRules (hitRules lib router req) = false)) := by
    intro r hr
    rw [mem_searched, mem_categories, mem_categories]
    exact and_iff_right ⟨r, hr, rfl⟩
  simp only [findRoute_eq_found]
  constructor
  · rintro ⟨found, hits, rules, hcategory, hrules, hfound⟩
    rcases reqCategory_spec lib table router req with ⟨-, err, herr⟩ | ⟨hindex, hits', hok⟩
    · simp [herr] at hcategory
    · obtain ⟨rfl, rfl⟩ : hits' = hits ∧ hitRules lib router req = rules := by
        simpa [hok] using hcategory
      obtain ⟨r, hr, hsat, hsearched⟩ := findMatch_isSome.mp (Option.isSome_of_eq_some hfound)
      exact ⟨hindex, hrules, r, hr, hsat, (hreach r hr).mp hsearched⟩
  · rintro ⟨hindex, hrules, r, hr, hsat, hkept⟩
    rcases reqCategory_spec lib table router req with ⟨hfails, -⟩ | ⟨-, hits, hok⟩
    · exact absurd hfails hindex
    · obtain ⟨found, hfound⟩ := Option.isSome_iff_exists.mp
        (findMatch_isSome.mpr ⟨r, hr, hsat, (hreach r hr).mpr hkept⟩)
      exact ⟨found, hits, _, hok, hrules, hfound⟩

end TraditionalRouter

/-- **No false 404.** A request that some route matches is answered with
a route exactly if no index regex fails, some rule has a hit, and, when
there is a category of just the rules with a hit, the category of some
matching route does not come before it. -/
theorem no_false_404_iff (lib : MatchLib) (table : TableSort) (isHttp : Bool)
    (router : TraditionalRouter) (req : Request) :
    ((∃ r ∈ router.routes, router.Satisfies lib table req r) →
        ∃ found, router.findRoute lib table isHttp req = some (some found))
      ↔ ((∃ r ∈ router.routes, router.Satisfies lib table req r) →
        ¬ IndexFails lib router req ∧ hitRules lib router req ≠ ∅
          ∧ ∃ r ∈ router.routes, router.Satisfies lib table req r
            ∧ ((∃ r' ∈ router.routes, r'.matchRules = hitRules lib router req) →
              sortCategories r.matchRules (hitRules lib router req) = false)) := by
  rw [TraditionalRouter.findRoute_found_iff]

/-! ### A route with SNIs and a request over plain HTTP -/

def sniRoute : Route where
  id := some "r1"
  paths := some ["/a"]
  snis := some ["x.com"]
  createdAt := some 1

def otherRoute : Route where
  id := some "r2"
  paths := some ["/b"]
  createdAt := some 2

def plainHttpRequest : Request where
  method := some "GET"
  uri := some "/a"
  host := some "x.com"
  scheme := some "http"

theorem unrelated_route_hides_match :
    ∃ router alone, TraditionalRouter.new insertionTable [sniRoute, otherRoute] = .ok router
      ∧ TraditionalRouter.new insertionTable [sniRoute] = .ok alone
      ∧ (∃ r ∈ router.routes, router.Satisfies plainLib insertionTable plainHttpRequest r)
      ∧ router.findRoute plainLib insertionTable true plainHttpRequest = some none
      ∧ ∃ found, alone.findRoute plainLib insertionTable true plainHttpRequest
          = some (some found) := by
  refine ⟨_, _, rfl, rfl, ⟨_, List.mem_cons_self, rfl⟩, rfl, _, rfl⟩

end KongGateway.Kong.Router.Traditional

import KongGateway.Kong.Router.Traditional.FindRoute
import Mathlib.Algebra.BigOperators.Group.Finset.Piecewise

/-!
# Search — what a search over the categories can return

One spec lemma for each function of the search: which routes a bucket
has and in which order, that a reducer stays within its category, what
`match_candidates` and one round of `find_match` return, and which
categories are searched.
-/

namespace KongGateway.Kong.Router.Traditional

open LuaStd

/-! ## Buckets -/

section Buckets

variable {κ : Type} [DecidableEq κ] {keys : RouteT → List κ} {all routes : List RouteT} {k : κ}

/-- The routes of a bucket, each as often as it lists the key. -/
def bucketRoutes (keys : RouteT → List κ) (all : List RouteT) (k : κ) : List RouteT :=
  all.flatMap fun r => ((keys r).filter (· = k)).map fun _ => r

theorem bucket_eq_some (h : bucket keys all k = some routes) :
    routes = bucketRoutes keys all k := by
  rw [bucket] at h
  split at h
  · cases h
  · exact (Option.some.inj h).symm

theorem mem_bucketRoutes {r : RouteT} :
    r ∈ bucketRoutes keys all k ↔ r ∈ all ∧ k ∈ keys r := by
  simp only [bucketRoutes, List.mem_flatMap, List.mem_map, List.mem_filter, decide_eq_true_eq]
  constructor
  · rintro ⟨r', hr', k', ⟨hk', rfl⟩, rfl⟩
    exact ⟨hr', hk'⟩
  · rintro ⟨hr, hk⟩
    exact ⟨r, hr, k, ⟨hk, rfl⟩, rfl⟩

theorem bucketRoutes_pairwise {rel : RouteT → RouteT → Prop} (hrefl : ∀ r ∈ all, rel r r)
    (h : all.Pairwise rel) : (bucketRoutes keys all k).Pairwise rel := by
  induction all with
  | nil => exact List.Pairwise.nil
  | cons r rest ih =>
    have hrest := ih (fun r' hr' => hrefl r' (List.mem_cons_of_mem r hr')) h.of_cons
    rw [bucketRoutes, List.flatMap_cons]
    refine List.pairwise_append.mpr ⟨?_, hrest, ?_⟩
    · -- copies of one route
      rw [List.map_const']
      exact List.pairwise_replicate.mpr (.inr (hrefl r List.mem_cons_self))
    · intro a ha b hb
      obtain ⟨-, -, rfl⟩ := List.mem_map.mp ha
      exact List.rel_of_pairwise_cons h (mem_bucketRoutes.mp hb).1

end Buckets

/-! ## Reducers -/

section Reducers

variable {table : TableSort} {isHttp : Bool} {all candidates : List RouteT} {ctx : Ctx}

theorem addrBucket_mem {list : RouteT → List SrcDst} {key : AddrKey}
    (h : addrBucket table all list key = some candidates) : ∀ r ∈ candidates, r ∈ all := by
  intro r hr
  rw [addrBucket] at h
  obtain ⟨routes, hbucket, rfl⟩ := Option.map_eq_some_iff.mp h
  have hmem := (table.perm (sortSrcDst list) routes).mem_iff.mp hr
  rw [bucket_eq_some hbucket] at hmem
  exact (mem_bucketRoutes.mp hmem).1

/-- A reducer gives a bucket in the order of the category, or, for an
address rule, one that was sorted once more. -/
theorem reducer_eq_some {rule : MatchRule} (h : reducer table all ctx rule = some candidates) :
    (∃ (κ : Type) (_ : DecidableEq κ) (keys : RouteT → List κ) (k : κ),
        candidates = bucketRoutes keys all k)
      ∨ ((rule = .src ∨ rule = .dst)
        ∧ ∃ list key, addrBucket table all list key = some candidates) := by
  have haddr : ∀ {list : RouteT → List SrcDst} {ip port : AddrKey},
      (addrBucket table all list ip).or (addrBucket table all list port) = some candidates →
        ∃ list key, addrBucket table all list key = some candidates := by
    intro list ip port hor
    rcases Option.or_eq_some_iff.mp hor with hip | ⟨-, hport⟩
    · exact ⟨list, ip, hip⟩
    · exact ⟨list, port, hport⟩
  cases rule with
  | host => exact .inl ⟨_, _, _, _, bucket_eq_some h⟩
  | header =>
    obtain ⟨name, -, hsome⟩ := Option.bind_eq_some_iff.mp h
    exact .inl ⟨_, _, _, _, bucket_eq_some hsome⟩
  | uri =>
    obtain ⟨value, -, hsome⟩ := Option.bind_eq_some_iff.mp h
    exact .inl ⟨_, _, _, _, bucket_eq_some hsome⟩
  | method => exact .inl ⟨_, _, _, _, bucket_eq_some h⟩
  | sni => exact .inl ⟨_, _, _, _, bucket_eq_some h⟩
  | src => exact .inr ⟨.inl rfl, haddr h⟩
  | dst => exact .inr ⟨.inr rfl, haddr h⟩

theorem reducer_mem {rule : MatchRule} (h : reducer table all ctx rule = some candidates) :
    ∀ r ∈ candidates, r ∈ all := by
  intro r hr
  rcases reducer_eq_some h with ⟨κ, _, keys, k, rfl⟩ | ⟨-, list, key, haddr⟩
  · exact (mem_bucketRoutes.mp hr).1
  · exact addrBucket_mem haddr r hr

/-- The loop returns what it started with or a bucket of one of its
rules. -/
theorem reduceLoop_eq_some {rules : List MatchRule} {smallest : Option (List RouteT)}
    (h : reduceLoop table all ctx rules smallest = some candidates) :
    smallest = some candidates ∨ ∃ rule ∈ rules, reducer table all ctx rule = some candidates := by
  induction rules generalizing smallest with
  | nil => exact .inl h
  | cons rule rest ih =>
    have hlift : ∀ {smallest' : Option (List RouteT)},
        reduceLoop table all ctx rest smallest' = some candidates →
        smallest' = some candidates
          ∨ ∃ rule' ∈ rule :: rest, reducer table all ctx rule' = some candidates := by
      intro smallest' hloop
      rcases ih hloop with hsame | ⟨rule', hmem, hfound⟩
      · exact .inl hsame
      · exact .inr ⟨rule', List.mem_cons_of_mem rule hmem, hfound⟩
    have hhere : ∀ {found : List RouteT}, reducer table all ctx rule = some found →
        some found = some candidates →
        ∃ rule' ∈ rule :: rest, reducer table all ctx rule' = some candidates := by
      intro found hfound heq
      exact ⟨rule, List.mem_cons_self, hfound.trans heq⟩
    rw [reduceLoop] at h
    split at h
    · exact hlift h
    · rename_i found hfound
      split at h
      · exact .inr (hhere hfound h)
      · split at h
        · rcases hlift h with hsame | hlater
          · exact .inr (hhere hfound hsame)
          · exact .inr hlater
        · split at h
          · rcases hlift h with hsame | hlater
            · exact .inr (hhere hfound hsame)
            · exact .inr hlater
          · exact hlift h

/-- What `reduce` returns is the bucket of one rule of the category. -/
theorem reduce_eq_some {rules : Finset MatchRule}
    (h : reduce table isHttp all ctx rules = some candidates) :
    ∃ rule ∈ rules, reducer table all ctx rule = some candidates
      ∧ (rules = {rule} ∨ rule ∈ sortedMatchRules isHttp) := by
  rw [reduce] at h
  split at h
  · rename_i rule hfind
    have hrules : rules = {rule} := by simpa using List.find?_some hfind
    exact ⟨rule, by rw [hrules]; exact Finset.mem_singleton_self rule, h, .inl hrules⟩
  · rcases reduceLoop_eq_some h with hnone | ⟨rule, hmem, hfound⟩
    · cases hnone
    · obtain ⟨hsorted, hrule⟩ := List.mem_filter.mp hmem
      exact ⟨rule, by simpa using hrule, hfound, .inr hsorted⟩

theorem reduce_mem {rules : Finset MatchRule}
    (h : reduce table isHttp all ctx rules = some candidates) : ∀ r ∈ candidates, r ∈ all := by
  obtain ⟨rule, -, hfound, -⟩ := reduce_eq_some h
  exact reducer_mem hfound

end Reducers

/-! ## Candidates -/

section Candidates

variable {lib : MatchLib} {candidates : List RouteT} {ctx : Ctx}

theorem matchCandidates_eq_some {found : RouteT × Matches}
    (h : matchCandidates lib candidates ctx = some found) :
    ∃ before after, candidates = before ++ found.1 :: after
      ∧ matchRoute lib found.1 ctx = some found.2
      ∧ ∀ r ∈ before, matchRoute lib r ctx = none := by
  obtain ⟨before, r, after, heq, hfound, hbefore⟩ := List.findSome?_eq_some_iff.mp h
  obtain ⟨m, hm, rfl⟩ := Option.map_eq_some_iff.mp hfound
  exact ⟨before, after, heq, hm, fun r' hr' => by simpa using hbefore r' hr'⟩

theorem matchCandidates_eq_none :
    matchCandidates lib candidates ctx = none ↔ ∀ r ∈ candidates, matchRoute lib r ctx = none := by
  simp [matchCandidates, List.findSome?_eq_none_iff]

end Candidates

/-! ## Categories -/

theorem sortCategories_strictWeak (l : List (Finset MatchRule)) : StrictWeak sortCategories l where
  asymm := by
    intro c1 _ c2 _ h
    simp only [sortCategories] at h ⊢
    split at h <;> rename_i hcard <;> simp at h
    · rw [if_pos (Ne.symm hcard)]
      simpa using h.le
    · rw [if_neg (by simpa using Eq.symm (not_not.mp hcard))]
      simpa using h.le
  negTrans := by
    intro c1 _ c2 _ c3 _ h
    simp only [sortCategories] at h ⊢
    split at h <;> split <;> split <;> simp_all <;> omega

/-- Whether a rule is in the set, as a digit of its bit mask. -/
def ruleDigit (c : Finset MatchRule) (rule : MatchRule) : Nat := if rule ∈ c then 1 else 0

theorem ruleDigit_le_one (c : Finset MatchRule) (rule : MatchRule) : ruleDigit c rule ≤ 1 := by
  rw [ruleDigit]
  split <;> omega

theorem ruleDigit_eq_one {c : Finset MatchRule} {rule : MatchRule} :
    ruleDigit c rule = 1 ↔ rule ∈ c := by
  rw [ruleDigit]
  split <;> simp_all

theorem categoryBit_eq (c : Finset MatchRule) :
    categoryBit c = ruleDigit c .host * 0x40 + ruleDigit c .header * 0x20 + ruleDigit c .uri * 0x10
      + ruleDigit c .method * 0x08 + ruleDigit c .sni * 0x04 + ruleDigit c .src * 0x02
      + ruleDigit c .dst * 0x01 := by
  have hall : categoryBit c = ∑ rule : MatchRule, ruleDigit c rule * rule.bit := by
    rw [categoryBit, ← Finset.univ_inter c, ← Finset.sum_ite_mem, Finset.univ_inter]
    refine Finset.sum_congr rfl fun rule _ => ?_
    rw [ruleDigit]
    split <;> simp
  have huniv : (Finset.univ : Finset MatchRule)
      = {.host, .header, .uri, .method, .sni, .src, .dst} := rfl
  rw [hall, huniv]
  simp [MatchRule.bit, Nat.add_assoc]

theorem categoryBit_injective : Function.Injective categoryBit := by
  intro c c' h
  rw [categoryBit_eq, categoryBit_eq] at h
  have hle := ruleDigit_le_one c
  have hle' := ruleDigit_le_one c'
  have h1 := hle .host
  have h2 := hle .header
  have h3 := hle .uri
  have h4 := hle .method
  have h5 := hle .sni
  have h6 := hle .src
  have h7 := hle .dst
  have h1' := hle' .host
  have h2' := hle' .header
  have h3' := hle' .uri
  have h4' := hle' .method
  have h5' := hle' .sni
  have h6' := hle' .src
  have h7' := hle' .dst
  -- two masks that agree have the same digits
  ext rule
  rw [← ruleDigit_eq_one, ← ruleDigit_eq_one]
  cases rule <;> omega

theorem sortCategories_antisymm {c c' : Finset MatchRule} (h : sortCategories c c' = false)
    (h' : sortCategories c' c = false) : c = c' := by
  simp only [sortCategories] at h h'
  by_cases hcard : c.card = c'.card
  · rw [if_neg (by simpa using hcard)] at h
    rw [if_neg (by simpa using hcard.symm)] at h'
    have hle : categoryBit c ≤ categoryBit c' := by simpa using h
    have hle' : categoryBit c' ≤ categoryBit c := by simpa using h'
    exact categoryBit_injective (Nat.le_antisymm hle hle')
  · rw [if_pos (by simpa using hcard)] at h
    rw [if_pos (by simpa using Ne.symm hcard)] at h'
    simp only [decide_eq_false_iff_not] at h h'
    omega

/-! ## The search of one request -/

namespace TraditionalRouter

variable {lib : MatchLib} {table : TableSort} {isHttp : Bool} {router : TraditionalRouter}

theorem mem_category {rules : Finset MatchRule} {r : RouteT} :
    r ∈ router.category rules ↔ r ∈ router.routes ∧ r.matchRules = rules := by
  simp [category]

theorem mem_categories {rules : Finset MatchRule} :
    rules ∈ router.categories table ↔ ∃ r ∈ router.routes, r.matchRules = rules := by
  rw [categories, (table.perm _ _).mem_iff]
  simp

/-- A category is searched unless it comes before the one of the
request. -/
theorem mem_searched {reqCategory rules : Finset MatchRule} :
    rules ∈ router.searched table reqCategory ↔ rules ∈ router.categories table
      ∧ (reqCategory ∈ router.categories table → sortCategories rules reqCategory = false) := by
  rw [searched]
  split
  · rename_i hmem
    have hsorted : (router.categories table).Pairwise fun c c' => sortCategories c' c = false :=
      table.sorted (sortCategories_strictWeak _)
    rw [mem_dropWhile_ne hsorted (by simp [sortCategories])
      (fun c h h' => sortCategories_antisymm h' h) hmem]
    simp [hmem]
  · rename_i hmem
    simp [hmem]

/-- How one round of `find_match` ends: with the first match among the
reduced candidates, or, if none of them matches, with the first match of
the category. -/
theorem matchCategory_eq_some {ctx : Ctx} {rules : Finset MatchRule} {found : RouteT × Matches}
    (h : router.matchCategory lib table isHttp ctx rules = some found) :
    (∃ candidates, reduce table isHttp (router.category rules) ctx rules = some candidates
        ∧ matchCandidates lib candidates ctx = some found)
      ∨ ((∀ candidates, reduce table isHttp (router.category rules) ctx rules = some candidates →
          ∀ r ∈ candidates, matchRoute lib r ctx = none)
        ∧ matchCandidates lib (router.category rules) ctx = some found) := by
  rw [matchCategory] at h
  split at h
  · rename_i hreduce
    exact .inr ⟨fun candidates hsome => by simp [hreduce] at hsome, h⟩
  · rename_i candidates hreduce
    rcases Option.or_eq_some_iff.mp h with hfound | ⟨hnone, hfound⟩
    · exact .inl ⟨candidates, hreduce, hfound⟩
    · refine .inr ⟨fun candidates' hsome => ?_, hfound⟩
      rw [Option.some.inj (hsome.symm.trans hreduce)]
      exact matchCandidates_eq_none.mp hnone

theorem matchCategory_found {ctx : Ctx} {rules : Finset MatchRule} {found : RouteT × Matches}
    (h : router.matchCategory lib table isHttp ctx rules = some found) :
    found.1 ∈ router.category rules ∧ matchRoute lib found.1 ctx = some found.2 := by
  rcases matchCategory_eq_some h with ⟨candidates, hreduce, hfound⟩ | ⟨-, hfound⟩
  · obtain ⟨before, after, heq, hmatch, -⟩ := matchCandidates_eq_some hfound
    exact ⟨reduce_mem hreduce _ (by simp [heq]), hmatch⟩
  · obtain ⟨before, after, heq, hmatch, -⟩ := matchCandidates_eq_some hfound
    exact ⟨by simp [heq], hmatch⟩

theorem matchCategory_eq_none {ctx : Ctx} {rules : Finset MatchRule}
    (h : router.matchCategory lib table isHttp ctx rules = none) :
    ∀ r ∈ router.category rules, matchRoute lib r ctx = none := by
  rw [matchCategory] at h
  split at h
  · exact matchCandidates_eq_none.mp h
  · exact matchCandidates_eq_none.mp (Option.or_eq_none_iff.mp h).2

/-- The search finds a route exactly if one of the searched categories
has a route that matches. -/
theorem findMatch_isSome {ctx : Ctx} {reqCategory : Finset MatchRule} :
    (router.findMatch lib table isHttp ctx reqCategory).isSome ↔
      ∃ r ∈ router.routes, (matchRoute lib r ctx).isSome
        ∧ r.matchRules ∈ router.searched table reqCategory := by
  rw [findMatch, List.findSome?_isSome_iff]
  constructor
  · rintro ⟨rules, hrules, hsome⟩
    obtain ⟨found, hfound⟩ := Option.isSome_iff_exists.mp hsome
    obtain ⟨hmem, hmatch⟩ := matchCategory_found hfound
    obtain ⟨hroute, rfl⟩ := mem_category.mp hmem
    exact ⟨found.1, hroute, by simp [hmatch], hrules⟩
  · rintro ⟨r, hr, hmatch, hrules⟩
    refine ⟨r.matchRules, hrules, ?_⟩
    by_contra hnone
    have hno := matchCategory_eq_none (by simpa using hnone) r (mem_category.mpr ⟨hr, rfl⟩)
    simp [hno] at hmatch

/-- What `hits` holds when the search starts, or when an error ends the
request. -/
def hits (lib : MatchLib) (table : TableSort) (router : TraditionalRouter) (req : Request) : Hits :=
  match router.hostHit lib req with
  | .error _ => { headerName := router.headerHit req }
  | .ok (_, host) =>
    match router.uriHit lib table req with
    | .error _ => { host := host, headerName := router.headerHit req }
    | .ok uri => { host := host, headerName := router.headerHit req, uri := uri }

/-- The context in which `match_route` sees the request. -/
def ctx (lib : MatchLib) (table : TableSort) (router : TraditionalRouter) (req : Request) : Ctx where
  req := req
  hits := router.hits lib table req

/-- A route satisfies all of its match rules for the request. -/
def Satisfies (lib : MatchLib) (table : TableSort) (router : TraditionalRouter) (req : Request)
    (r : RouteT) : Prop :=
  (matchRoute lib r (router.ctx lib table req)).isSome

theorem hits_of_reqCategory {req : Request} {hits : Hits} {rules : Finset MatchRule}
    (h : router.reqCategory lib table req = .ok (hits, rules)) :
    router.hits lib table req = hits := by
  rw [TraditionalRouter.hits]
  rw [reqCategory] at h
  cases hhost : router.hostHit lib req with
  | error err =>
    rw [hhost] at h
    cases h
  | ok host =>
    cases huri : router.uriHit lib table req with
    | error err =>
      rw [hhost, huri] at h
      cases h
    | ok uri =>
      rw [hhost, huri] at h
      cases h
      rfl

theorem findRoute_eq_found {req : Request} {found : RouteT × Matches} :
    router.findRoute lib table isHttp req = some (some found) ↔
      ∃ hits rules, router.reqCategory lib table req = .ok (hits, rules) ∧ rules ≠ ∅
        ∧ router.findMatch lib table isHttp (router.ctx lib table req) rules = some found := by
  rw [findRoute]
  cases hcategory : router.reqCategory lib table req with
  | error err => simp
  | ok pair =>
    obtain ⟨hits, rules⟩ := pair
    have hctx : router.ctx lib table req = { req := req, hits := hits } := by
      rw [ctx, hits_of_reqCategory hcategory]
    by_cases hrules : rules = ∅
    · simp [hrules]
    · simp [hrules, hctx]

end TraditionalRouter

end KongGateway.Kong.Router.Traditional

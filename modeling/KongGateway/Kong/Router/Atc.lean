import KongGateway.Lib.Keyed
import Mathlib.Algebra.Order.Ring.Rat
import KongGateway.Kong.Router.Fields
import KongGateway.Lib.Memo

/-!
# Atc — building the expression router

The model of `add_atc_matcher`, `new_from_scratch` and
`new_from_previous` of `router/atc.lua`.

The matching engine is the `resty.router` library. It is the parameter
`AtcLib`: an instance holds matchers, and the laws say what the library
documents of adding and removing one. `get_exp_and_priority` is an
argument of the source's functions and of the model's.

A route of the input list is a fresh table, so the `seen` mark belongs
to the entry of the router's table and not to the route. Yielding and
logging have no effect on what is built; `fields` and `context` are
computed from the instance alone.
-/

namespace KongGateway.Kong.Router

/-! ## The matching engine -/

structure Matcher where
  id : String
  priority : Nat
  expression : String
deriving DecidableEq, Repr

/-- What the router relies on of `resty.router.router`. -/
structure AtcLib where
  Inst : Type
  new : Inst
  addMatcher : (inst : Inst) → (priority : Nat) → (id expression : String) → Except String Inst
  removeMatcher : (inst : Inst) → (id : String) → Option Inst
  /-- The matchers an instance holds. -/
  matchers : Inst → Set Matcher
  /-- The expressions that parse and type-check against the schema. -/
  Valid : String → Prop
  matchers_new : matchers new = ∅
  add_valid : ∀ inst priority id expression, (∀ m ∈ matchers inst, m.id ≠ id) →
    Valid expression → ∃ inst', addMatcher inst priority id expression = .ok inst'
      ∧ matchers inst' = insert ⟨id, priority, expression⟩ (matchers inst)
  add_invalid : ∀ inst priority id expression, ¬ Valid expression →
    ∃ err, addMatcher inst priority id expression = .error err
  remove_known : ∀ inst m, m ∈ matchers inst →
    (∀ m' ∈ matchers inst, m'.id = m.id → m' = m) →
    ∃ inst', removeMatcher inst m.id = some inst' ∧ matchers inst' = matchers inst \ {m}

/-! ## Routes and routers -/

/-- A route; what the priority and the expression are made from is its
`body`. -/
structure AtcRoute (Body : Type) where
  id : Option String
  updatedAt : Option ℚ
  body : Body

structure RouteAndService (Body Service : Type) where
  route : AtcRoute Body
  service : Option Service

/-- A route in the router's table, with its `seen` mark. -/
structure Held (Body : Type) where
  route : AtcRoute Body
  seen : Bool

/-- The tables and the instance a build works on, and the newest
`updated_at` so far. -/
structure Build (lib : AtcLib) (Body Service : Type) where
  inst : lib.Inst
  routes : LuaTable String (Held Body)
  services : LuaTable String Service
  newUpdatedAt : ℚ

structure AtcRouter (lib : AtcLib) (Body Service : Type) where
  router : lib.Inst
  routes : LuaTable String (Held Body)
  services : LuaTable String Service
  updatedAt : ℚ
  rebuilding : Bool

/-- A build that yields no router: `nil` with an error text, or a Lua
error. -/
inductive BuildFailure where
  | returned (err : String)
  | raised
deriving DecidableEq, Repr

variable {lib : AtcLib} {Body Service : Type}

/-! ## Building -/

/-- `assert(inst:remove_matcher(route_id))`. -/
def removeMatcher (inst : lib.Inst) (routeId : String) : Except BuildFailure lib.Inst :=
  match lib.removeMatcher inst routeId with
  | some inst => .ok inst
  | none => .error .raised

/-- The instance after the call, and the error text if no matcher was
added. -/
def addAtcMatcher (getExpAndPriority : AtcRoute Body → Option (String × Nat))
    (inst : lib.Inst) (route : AtcRoute Body) (routeId : String) (removeExisting : Bool) :
    Except BuildFailure (lib.Inst × Option String) :=
  match getExpAndPriority route with
  | none => .ok (inst, some ("could not find expression, route: " ++ routeId))
  | some (exp, priority) => do
    let inst ← if removeExisting then removeMatcher inst routeId else pure inst
    match lib.addMatcher inst priority routeId exp with
    | .ok inst => return (inst, none)
    | .error err => return (inst, some ("could not add route: " ++ routeId ++ ", err: " ++ err))

/-- One round of `new_from_scratch`. -/
def scratchStep (getExpAndPriority : AtcRoute Body → Option (String × Nat))
    (b : Build lib Body Service) (r : RouteAndService Body Service) :
    Except BuildFailure (Build lib Body Service) :=
  match r.route.id with
  | none => .error (.returned "could not categorize route")
  | some routeId => do
    let routes := b.routes.set routeId (some { route := r.route, seen := false })
    let services := b.services.set routeId r.service
    let (inst, err) ← addAtcMatcher getExpAndPriority b.inst r.route routeId false
    match err with
    | none =>
      return {
        inst := inst, routes := routes, services := services
        newUpdatedAt := max b.newUpdatedAt (r.route.updatedAt.getD 0) }
    | some _ =>
      return {
        inst := inst, routes := routes.set routeId none, services := services.set routeId none
        newUpdatedAt := b.newUpdatedAt }

def newFromScratch (getExpAndPriority : AtcRoute Body → Option (String × Nat))
    (routes : List (RouteAndService Body Service)) :
    Except BuildFailure (AtcRouter lib Body Service) := do
  let b ← routes.foldlM (scratchStep getExpAndPriority)
    { inst := lib.new, routes := ∅, services := ∅, newUpdatedAt := 0 }
  return {
    router := b.inst, routes := b.routes, services := b.services
    updatedAt := b.newUpdatedAt, rebuilding := false }

/-- Whether the entry must be replaced; a missing `updated_at` cannot be
compared. -/
def isModified (updatedAt : ℚ) (route oldRoute : AtcRoute Body) : Except BuildFailure Bool :=
  match route.updatedAt with
  | none => .error .raised
  | some routeUpdatedAt =>
    .ok (updatedAt ≤ routeUpdatedAt || route.updatedAt != oldRoute.updatedAt)

/-- One round of the first loop of `new_from_previous`: `updatedAt` is
that of the old router. -/
def previousStep (getExpAndPriority : AtcRoute Body → Option (String × Nat)) (updatedAt : ℚ)
    (b : Build lib Body Service) (r : RouteAndService Body Service) :
    Except BuildFailure (Build lib Body Service) :=
  match r.route.id with
  | none => .error (.returned "could not categorize route")
  | some routeId => do
    let routes := b.routes.set routeId (some { route := r.route, seen := true })
    let services := b.services.set routeId r.service
    let (inst, err) ←
      match b.routes.get routeId with
      | none => addAtcMatcher getExpAndPriority b.inst r.route routeId false
      | some old => do
        if ← isModified updatedAt r.route old.route then
          addAtcMatcher getExpAndPriority b.inst r.route routeId true
        else pure (b.inst, none)
    match err with
    | none =>
      match r.route.updatedAt with
      | none => .error .raised
      | some routeUpdatedAt =>
        return {
          inst := inst, routes := routes, services := services
          newUpdatedAt := max b.newUpdatedAt routeUpdatedAt }
    | some _ =>
      return {
        inst := inst, routes := routes.set routeId none, services := services.set routeId none
        newUpdatedAt := b.newUpdatedAt }

/-- One round of the second loop: a seen entry is unmarked, another one
goes. -/
def removeStep (b : Build lib Body Service) (id : String) :
    Except BuildFailure (Build lib Body Service) :=
  match b.routes.get id with
  | none => .ok b
  | some held =>
    if held.seen then
      .ok { b with routes := b.routes.set id (some { held with seen := false }) }
    else do
      let inst ← removeMatcher b.inst id
      return {
        b with
        inst := inst, routes := b.routes.set id none, services := b.services.set id none }

def newFromPrevious (getExpAndPriority : AtcRoute Body → Option (String × Nat))
    (routes : List (RouteAndService Body Service)) (oldRouter : AtcRouter lib Body Service) :
    Except BuildFailure (AtcRouter lib Body Service) :=
  if oldRouter.rebuilding then
    .error (.returned "concurrent incremental router rebuild without mutex, this is unsafe")
  else do
    let b ← routes.foldlM (previousStep getExpAndPriority oldRouter.updatedAt)
      { inst := oldRouter.router, routes := oldRouter.routes, services := oldRouter.services
        newUpdatedAt := 0 }
    let b ← b.routes.keys.foldlM removeStep b
    return {
      router := b.inst, routes := b.routes, services := b.services
      updatedAt := b.newUpdatedAt, rebuilding := false }

/-!
## Exec — the caches of the expression router

The model of `matching` and `exec` of `router/atc.lua` for HTTP. The
matching engine is a parameter: what it answers is a function of the
`add_value` calls that filled its context, an error if one of them
fails.

A match is kept in the positive cache as `matching` returned it. `exec`
overwrites `upstream_host` in the cached table before it is read again,
for the routes that preserve the host, and leaves it `nil` for the
others, so here the host is filled in when the match is handed out.
`upstream_uri` is computed from the match and the request on every call
and is left out.
-/

/-- The route of a match, as far as `matching` and `exec` read it. -/
structure AtcMatchedRoute where
  id : String
  stripPath : Bool := true
  preserveHost : Bool := false
deriving DecidableEq, Repr

/-- The result of an execution: the matcher's id, the part of the path
that matched and the captures, which include the whole match. -/
structure AtcHit where
  uuid : String
  matchedPath : Option String := none
  captures : List (String × String) := []
deriving DecidableEq, Repr

structure AtcMatch (Service : Type) where
  route : AtcMatchedRoute
  service : Option Service
  requestPrefix : Option String
  uriCaptures : Option (List (String × String))
  upstreamHost : Option String
deriving DecidableEq

/-- A built router: the fields of its expressions, its tables (with
`original_route` resolved) and the engine. -/
structure AtcInstance (Service : Type) where
  fields : List Field
  routes : String → AtcMatchedRoute
  services : String → Option Service
  engine : List (Field × Option ContextValue) → Except String (Option AtcHit)

namespace AtcInstance

variable (tonumber : String → Option ℚ) (router : AtcInstance Service)

/-- There are captures besides the whole match. -/
def hasCapture (captures : List (String × String)) : Bool := 2 ≤ captures.length

/-- The table `matching` returns for a hit, without the host. -/
def matchOf (hit : AtcHit) : AtcMatch Service where
  route := router.routes hit.uuid
  service := router.services hit.uuid
  requestPrefix := if (router.routes hit.uuid).stripPath then hit.matchedPath else none
  uriCaptures := if hasCapture hit.captures then some hit.captures else none
  upstreamHost := none

/-- `matching`; an error of the engine is logged and cached like a
miss. -/
def matching (r : HttpRequest) : Outcome (AtcMatch Service) :=
  match router.engine (fillAtcContext r (r.contextParams tonumber) router.fields) with
  | .ok (some hit) => .found (router.matchOf hit)
  | .ok none => .missing
  | .error _ => .missing

/-- The `preserve_host` logic. -/
def withHost (r : HttpRequest) (found : AtcMatch Service) : AtcMatch Service :=
  { found with upstreamHost := if found.route.preserveHost then r.host else none }

def query (r : HttpRequest) : Except Raised (String × Outcome (AtcMatch Service)) := do
  let key ← getCacheKey r r.keyParams router.fields
  return (key, router.matching tonumber r)

variable (posLib : CacheLib String (AtcMatch Service)) (negLib : CacheLib String Unit)

/-- `exec`: the answer to a request, and the caches after it. -/
def exec (caches : Memo posLib negLib) (r : HttpRequest) :
    Except Raised (Option (AtcMatch Service)) × Memo posLib negLib :=
  Memo.step (router.query tonumber) (fun r found => found.map (withHost r)) caches r

end AtcInstance

/-- **The caches of the expression router.** In every sequence of
requests in which requests with equal keys are alike, `exec` answers
every request as it would with empty caches. -/
theorem atc_caches_transparent {Service : Type} (tonumber : String → Option ℚ)
    (router : AtcInstance Service) (posLib : CacheLib String (AtcMatch Service))
    (negLib : CacheLib String Unit) (requests : List HttpRequest)
    (halike : ∀ r ∈ requests, ∀ r' ∈ requests, ∀ key,
      getCacheKey r r.keyParams router.fields = .ok key →
      getCacheKey r' r'.keyParams router.fields = .ok key →
      Alike tonumber router.fields r r') :
    Run.outputs (router.exec tonumber posLib negLib) Memo.empty requests
      = requests.map fun r => (router.exec tonumber posLib negLib Memo.empty r).1 := by
  have hquery : ∀ r key outcome, router.query tonumber r = .ok (key, outcome) →
      getCacheKey r r.keyParams router.fields = .ok key
        ∧ outcome = router.matching tonumber r := by
    intro r key outcome hquery
    unfold AtcInstance.query at hquery
    cases hkey : getCacheKey r r.keyParams router.fields with
    | error err =>
      rw [hkey] at hquery
      cases hquery
    | ok found =>
      rw [hkey] at hquery
      cases hquery
      exact ⟨rfl, rfl⟩
  refine Memo.outputs_eq_alone (router.query tonumber)
    (fun r found => found.map (AtcInstance.withHost r)) requests ?_
  intro r hr r' hr' key outcome outcome' hq hq'
  obtain ⟨hkey, rfl⟩ := hquery r key outcome hq
  obtain ⟨hkey', rfl⟩ := hquery r' key outcome' hq'
  have hcontext := fillAtcContext_eq (halike r hr r' hr' key hkey hkey') hkey hkey'
  simp only [AtcInstance.matching, hcontext]

/-! ### One argument with a comma, two arguments without -/

/-- The router of the expression `http.queries.a == "x,y"`. -/
def commaRouter : AtcInstance Unit where
  fields := [.httpQuery "a"]
  routes := fun uuid => { id := uuid }
  services := fun _ => some ()
  engine := fun calls =>
    if (.httpQuery "a", some (.text "x,y")) ∈ calls then .ok (some { uuid := "r1" })
    else .ok none

def withQuery (value : FieldValue) : HttpRequest where
  uri := "/"
  queries := fun name => if name = "a" then value else .missing

def commaMatch : AtcMatch Unit where
  route := { id := "r1" }
  service := some ()
  requestPrefix := none
  uriCaptures := none
  upstreamHost := none

theorem Alike.refl (tonumber : String → Option ℚ) (fields : List Field) (r : HttpRequest) :
    Alike tonumber fields r r where
  scheme := fun _ => rfl
  port := fun _ => rfl
  shape := fun _ _ _ => rfl

/-- A request that comes again is answered from the cache, rightly. -/
theorem repeated_request_answered_alike :
    let requests := [withQuery (.text "x,y"), withQuery (.text "x,y")]
    Run.outputs (commaRouter.exec (fun _ => none) (Lru.cache 10) (Lru.cache 10)) Memo.empty requests
        = requests.map fun r =>
            (commaRouter.exec (fun _ => none) (Lru.cache 10) (Lru.cache 10) Memo.empty r).1 := by
  refine atc_caches_transparent _ commaRouter _ _ _ ?_
  intro r hr r' hr' key _ _
  have heq : r = r' := by
    simp only [List.mem_cons, List.not_mem_nil, or_false, or_self] at hr hr'
    rw [hr, hr']
  rw [heq]
  exact .refl _ _ _

/-- `/?a=x,y` and then `/?a=x&a=y`: the second request does not match and
is answered with the match of the first. -/
theorem comma_argument_answers_for_list :
    let requests := [withQuery (.text "x,y"), withQuery (.many (.text "x") (.text "y") [])]
    Run.outputs (commaRouter.exec (fun _ => none) (Lru.cache 10) (Lru.cache 10)) Memo.empty requests
        = [.ok (some commaMatch), .ok (some commaMatch)]
      ∧ requests.map (fun r =>
          (commaRouter.exec (fun _ => none) (Lru.cache 10) (Lru.cache 10) Memo.empty r).1)
        = [.ok (some commaMatch), .ok none] := by
  exact ⟨rfl, rfl⟩

end KongGateway.Kong.Router

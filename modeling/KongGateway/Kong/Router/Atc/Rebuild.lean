import KongGateway.Kong.Router.Atc.Passes

/-!
# Rebuild — the incremental router is the one built from scratch

Both builds leave `settled` slots for the listed ids and empty slots for
the others, so routers built either way from one list look the same, and
a router built either way is fit to be rebuilt from.

An update whose route yields no expression leaves `add_atc_matcher`
before the old matcher is removed, and a route without `updated_at` is
accepted by `new_from_scratch` only. `Meets` rules these out.
-/

namespace KongGateway.Kong.Router

variable {lib : AtcLib} {Body Service : Type}
  {getExpAndPriority : AtcRoute Body → Option (String × Nat)}

/-! ## Routers -/

def AtcRouter.slot (router : AtcRouter lib Body Service) (id : String) : Slot Body Service where
  held := router.routes.get id
  service := router.services.get id
  matchers := matchersAt router.router id

/-- The router a list of routes with distinct ids asks for. -/
structure Describes (getExpAndPriority : AtcRoute Body → Option (String × Nat))
    (routes : List (RouteAndService Body Service)) (router : AtcRouter lib Body Service) :
    Prop where
  listed : ∀ r ∈ routes, router.slot r.key = settled lib getExpAndPriority false r
  others : ∀ id, id ∉ routes.map RouteAndService.key → router.slot id = .empty
  time : router.updatedAt = routes.foldl (newest lib getExpAndPriority) 0
  idle : router.rebuilding = false

/-- A router between two builds. -/
structure AtcRouter.Sound (getExpAndPriority : AtcRoute Body → Option (String × Nat))
    (router : AtcRouter lib Body Service) : Prop where
  slots : ∀ id, (router.slot id).Sound lib getExpAndPriority id
  idle : router.rebuilding = false

/-- What can be read off a router. -/
structure Observed (Body Service : Type) where
  routes : String → Option (Held Body)
  services : String → Option Service
  updatedAt : ℚ
  matchers : Set Matcher

def AtcRouter.observe (router : AtcRouter lib Body Service) : Observed Body Service where
  routes := router.routes.get
  services := router.services.get
  updatedAt := router.updatedAt
  matchers := lib.matchers router.router

section Routers

variable {routes : List (RouteAndService Body Service)} {router router' : AtcRouter lib Body Service}

theorem Describes.slot_eq (h : Describes getExpAndPriority routes router)
    (h' : Describes getExpAndPriority routes router') (id : String) :
    router.slot id = router'.slot id := by
  by_cases hmem : id ∈ routes.map RouteAndService.key
  · obtain ⟨r, hr, rfl⟩ := List.mem_map.mp hmem
    rw [h.listed r hr, h'.listed r hr]
  · rw [h.others id hmem, h'.others id hmem]

theorem Describes.observe_eq (h : Describes getExpAndPriority routes router)
    (h' : Describes getExpAndPriority routes router') : router.observe = router'.observe := by
  have hslot := h.slot_eq h'
  have hmatchers : lib.matchers router.router = lib.matchers router'.router := by
    ext m
    have hat : matchersAt router.router m.id = matchersAt router'.router m.id :=
      congrArg Slot.matchers (hslot m.id)
    constructor
    · intro hm
      have hmem : m ∈ matchersAt router.router m.id := ⟨hm, rfl⟩
      rw [hat] at hmem
      exact hmem.1
    · intro hm
      have hmem : m ∈ matchersAt router'.router m.id := ⟨hm, rfl⟩
      rw [← hat] at hmem
      exact hmem.1
  have hroutes : router.routes.get = router'.routes.get :=
    funext fun id => congrArg Slot.held (hslot id)
  have hservices : router.services.get = router'.services.get :=
    funext fun id => congrArg Slot.service (hslot id)
  simp only [AtcRouter.observe, hroutes, hservices, hmatchers, h.time, h'.time]

theorem Describes.sound (h : Describes getExpAndPriority routes router) :
    router.Sound getExpAndPriority where
  slots := by
    intro id
    by_cases hmem : id ∈ routes.map RouteAndService.key
    · obtain ⟨r, hr, rfl⟩ := List.mem_map.mp hmem
      rw [h.listed r hr]
      exact settled_sound r
    · rw [h.others id hmem]
      exact .inl rfl
  idle := h.idle

/-- The ids of the listed routes are pairwise distinct. -/
def DistinctIds (routes : List (RouteAndService Body Service)) : Prop :=
  (routes.filterMap fun r => r.route.id).Nodup

theorem key_of_id {r : RouteAndService Body Service} (h : r.route.id ≠ none) :
    r.route.id = some r.key := by
  obtain ⟨id, hid⟩ := Option.ne_none_iff_exists'.mp h
  rw [RouteAndService.key, hid, Option.getD_some]

theorem DistinctIds.keys_nodup (h : DistinctIds routes)
    (hids : ∀ r ∈ routes, r.route.id = some r.key) :
    (routes.map RouteAndService.key).Nodup := by
  have hkeys : routes.filterMap (fun r => r.route.id) = routes.map RouteAndService.key := by
    rw [← List.filterMap_eq_map]
    exact List.filterMap_congr fun r hr => by rw [hids r hr]; rfl
  rw [← hkeys]
  exact h

/-- Either every route has an id, or there is a first one that has
none. -/
theorem ids_or_missing (routes : List (RouteAndService Body Service)) :
    (∀ r ∈ routes, r.route.id = some r.key)
      ∨ ∃ pre r post, routes = pre ++ r :: post ∧ r.route.id = none
        ∧ ∀ r ∈ pre, r.route.id = some r.key := by
  induction routes with
  | nil => exact .inl (by simp)
  | cons head rest ih =>
    by_cases hhead : head.route.id = none
    · exact .inr ⟨[], head, rest, rfl, hhead, by simp⟩
    · rcases ih with hall | ⟨pre, r, post, rfl, hr, hpre⟩
      · left
        intro r hr
        rcases List.mem_cons.mp hr with rfl | hr
        · exact key_of_id hhead
        · exact hall r hr
      · refine .inr ⟨head :: pre, r, post, rfl, hr, ?_⟩
        intro r hr
        rcases List.mem_cons.mp hr with rfl | hr
        · exact key_of_id hhead
        · exact hpre r hr

/-! ### From scratch -/

theorem Build.slot_new (lib : AtcLib) (id : String) :
    (⟨lib.new, ∅, ∅, 0⟩ : Build lib Body Service).slot id = .empty := by
  simp [Build.slot, Slot.empty, matchersAt, lib.matchers_new]

theorem newFromScratch_describes (lib : AtcLib)
    (getExpAndPriority : AtcRoute Body → Option (String × Nat))
    (hids : ∀ r ∈ routes, r.route.id = some r.key) (hdistinct : DistinctIds routes) :
    ∃ router : AtcRouter lib Body Service,
      newFromScratch getExpAndPriority routes = .ok router
        ∧ Describes getExpAndPriority routes router := by
  obtain ⟨b, hrun, hlisted, hothers, htime⟩ :=
    scratch_pass getExpAndPriority hids (hdistinct.keys_nodup hids) (Build.slot_new lib)
  refine ⟨_, by simp only [newFromScratch, hrun, bind, Except.bind]; rfl, ?_⟩
  exact ⟨hlisted, hothers, htime, rfl⟩

/-! ### From the previous router -/

/-- The old router and the new list meet what `new_from_previous` relies
on. -/
structure Meets (getExpAndPriority : AtcRoute Body → Option (String × Nat))
    (old : AtcRouter lib Body Service) (routes : List (RouteAndService Body Service)) :
    Prop where
  distinct : DistinctIds routes
  refreshable : ∀ r ∈ routes, r.route.id ≠ none →
    Refreshable lib getExpAndPriority old.updatedAt (old.routes.get r.key) r

theorem AtcRouter.Sound.newFromPrevious_describes {old : AtcRouter lib Body Service}
    (hsound : old.Sound getExpAndPriority) (hids : ∀ r ∈ routes, r.route.id = some r.key)
    (hmeets : Meets getExpAndPriority old routes) :
    ∃ router, newFromPrevious getExpAndPriority routes old = .ok router
      ∧ Describes getExpAndPriority routes router := by
  have hrefresh : ∀ r ∈ routes, Refreshable lib getExpAndPriority old.updatedAt
      ((⟨old.router, old.routes, old.services, 0⟩ : Build lib Body Service).slot r.key).held r := by
    intro r hr
    exact hmeets.refreshable r hr (by rw [hids r hr]; exact Option.some_ne_none _)
  obtain ⟨b, hrun, hlisted, hothers, htime⟩ :=
    previous_pass hids (hmeets.distinct.keys_nodup hids) hsound.slots hrefresh
  have hrest : ∀ id, id ∉ routes.map RouteAndService.key →
      (b.slot id).Sound lib getExpAndPriority id := by
    intro id hid
    rw [hothers id hid]
    exact hsound.slots id
  obtain ⟨b', hrun', hself, hempty, htime'⟩ := remove_pass b fun id => by
    by_cases hmem : id ∈ routes.map RouteAndService.key
    · obtain ⟨r, hr, rfl⟩ := List.mem_map.mp hmem
      exact .inl ⟨r, rfl, hlisted r hr⟩
    · exact .inr (hrest id hmem)
  refine ⟨_, by
    simp only [newFromPrevious, hsound.idle, Bool.false_eq_true, if_false, hrun, hrun', bind,
      Except.bind]
    rfl, ?_⟩
  exact ⟨fun r hr => hself r (hlisted r hr), fun id hid => hempty id (hrest id hid),
    htime'.trans htime, rfl⟩

/-! ### A route without an id -/

theorem foldlM_missing {step : Build lib Body Service → RouteAndService Body Service →
      Except BuildFailure (Build lib Body Service)} {failure : BuildFailure}
    (hstep : ∀ b r, r.route.id = none → step b r = .error failure)
    {pre : List (RouteAndService Body Service)} (post : List (RouteAndService Body Service))
    {r : RouteAndService Body Service} {b b' : Build lib Body Service} (hpre : pre.foldlM step b = .ok b')
    (hr : r.route.id = none) : (pre ++ r :: post).foldlM step b = .error failure := by
  rw [List.foldlM_append, hpre]
  show (r :: post).foldlM step b' = .error failure
  rw [List.foldlM_cons, hstep b' r hr]
  rfl

theorem DistinctIds.append_left {pre post : List (RouteAndService Body Service)}
    (h : DistinctIds (pre ++ post)) : DistinctIds pre := by
  rw [DistinctIds, List.filterMap_append] at h
  exact h.of_append_left

theorem newFromScratch_missing {pre post : List (RouteAndService Body Service)}
    {r : RouteAndService Body Service} (hr : r.route.id = none)
    (hids : ∀ r ∈ pre, r.route.id = some r.key) (hdistinct : DistinctIds pre) :
    (newFromScratch getExpAndPriority (pre ++ r :: post)
        : Except BuildFailure (AtcRouter lib Body Service))
      = .error (.returned "could not categorize route") := by
  obtain ⟨b, hrun, -⟩ :=
    scratch_pass getExpAndPriority hids (hdistinct.keys_nodup hids) (Build.slot_new lib)
  have hstop : ∀ (b : Build lib Body Service) r, r.route.id = none →
      scratchStep getExpAndPriority b r = .error (.returned "could not categorize route") := by
    intro b r hr
    simp only [scratchStep, hr]
  have hfail := foldlM_missing hstop post hrun hr
  simp only [newFromScratch, hfail, bind, Except.bind]

theorem AtcRouter.Sound.newFromPrevious_missing {old : AtcRouter lib Body Service}
    (hsound : old.Sound getExpAndPriority) {pre post : List (RouteAndService Body Service)}
    {r : RouteAndService Body Service} (hr : r.route.id = none)
    (hids : ∀ r ∈ pre, r.route.id = some r.key)
    (hmeets : Meets getExpAndPriority old (pre ++ r :: post)) :
    newFromPrevious getExpAndPriority (pre ++ r :: post) old
      = .error (.returned "could not categorize route") := by
  have hrefresh : ∀ r ∈ pre, Refreshable lib getExpAndPriority old.updatedAt
      ((⟨old.router, old.routes, old.services, 0⟩ : Build lib Body Service).slot r.key).held r := by
    intro r hr
    exact hmeets.refreshable r (List.mem_append_left _ hr)
      (by rw [hids r hr]; exact Option.some_ne_none _)
  obtain ⟨b, hrun, -⟩ := previous_pass hids (hmeets.distinct.append_left.keys_nodup hids)
    hsound.slots hrefresh
  have hstop : ∀ (b : Build lib Body Service) r, r.route.id = none →
      previousStep getExpAndPriority old.updatedAt b r
        = .error (.returned "could not categorize route") := by
    intro b r hr
    simp only [previousStep, hr]
  have hfail := foldlM_missing hstop post hrun hr
  simp only [newFromPrevious, hsound.idle, Bool.false_eq_true, if_false, hfail, bind, Except.bind]

end Routers

/-! ## Any sequence of builds -/

/-- The routers of a run of builds: one from scratch, then any number of
incremental ones, each of which meets its condition. -/
inductive Built (getExpAndPriority : AtcRoute Body → Option (String × Nat)) :
    AtcRouter lib Body Service → Prop
  | scratch {routes : List (RouteAndService Body Service)} {router : AtcRouter lib Body Service}
      (hdistinct : DistinctIds routes)
      (hbuild : newFromScratch getExpAndPriority routes = .ok router) :
      Built getExpAndPriority router
  | previous {routes : List (RouteAndService Body Service)} {old router : AtcRouter lib Body Service}
      (hold : Built getExpAndPriority old) (hmeets : Meets getExpAndPriority old routes)
      (hbuild : newFromPrevious getExpAndPriority routes old = .ok router) :
      Built getExpAndPriority router

theorem Built.sound {router : AtcRouter lib Body Service} (h : Built getExpAndPriority router) :
    router.Sound getExpAndPriority := by
  induction h with
  | @scratch routes router hdistinct hbuild =>
    rcases ids_or_missing routes with hids | ⟨pre, r, post, rfl, hr, hids⟩
    · obtain ⟨built, hrun, hdescribes⟩ := newFromScratch_describes lib
        getExpAndPriority hids hdistinct
      rw [hbuild, Except.ok.injEq] at hrun
      exact hrun ▸ hdescribes.sound
    · rw [newFromScratch_missing hr hids hdistinct.append_left] at hbuild
      cases hbuild
  | @previous routes old router hold hmeets hbuild hsound =>
    rcases ids_or_missing routes with hids | ⟨pre, r, post, rfl, hr, hids⟩
    · obtain ⟨built, hrun, hdescribes⟩ := hsound.newFromPrevious_describes hids hmeets
      rw [hbuild, Except.ok.injEq] at hrun
      exact hrun ▸ hdescribes.sound
    · rw [hsound.newFromPrevious_missing hr hids hmeets] at hbuild
      cases hbuild

/-- **Incremental rebuild.** After any run of builds that meet the
condition, the next incremental build that meets it gives what a build
from scratch gives: the same routes, services, newest time stamp and
matchers, or the same failure. -/
theorem rebuild_eq_scratch (lib : AtcLib)
    (getExpAndPriority : AtcRoute Body → Option (String × Nat))
    {old : AtcRouter lib Body Service} (hold : Built getExpAndPriority old)
    {routes : List (RouteAndService Body Service)} (hmeets : Meets getExpAndPriority old routes) :
    (newFromPrevious getExpAndPriority routes old).map AtcRouter.observe
      = (newFromScratch getExpAndPriority routes
          : Except BuildFailure (AtcRouter lib Body Service)).map AtcRouter.observe := by
  rcases ids_or_missing routes with hids | ⟨pre, r, post, rfl, hr, hids⟩
  · obtain ⟨rebuilt, hrun, hdescribes⟩ := hold.sound.newFromPrevious_describes hids hmeets
    obtain ⟨fresh, hrun', hdescribes'⟩ := newFromScratch_describes lib
      getExpAndPriority hids hmeets.distinct
    rw [hrun, hrun']
    exact congrArg Except.ok (hdescribes.observe_eq hdescribes')
  · rw [hold.sound.newFromPrevious_missing hr hids hmeets,
      newFromScratch_missing hr hids hmeets.distinct.append_left]

/-! ### A route that loses its expression -/

/-- The engine as a list of matchers, for expressions that `valid`
accepts. -/
def listLib (valid : String → Bool) : AtcLib where
  Inst := List Matcher
  new := []
  addMatcher inst priority id expression :=
    if !valid expression then .error "invalid expression"
    else if inst.any fun m => m.id == id && m.priority == priority then
      .error "UUID already exists"
    else .ok (⟨id, priority, expression⟩ :: inst)
  removeMatcher inst id :=
    (inst.find? fun m => m.id == id).map fun m => inst.filter (· ≠ m)
  matchers inst := { m | m ∈ inst }
  Valid expression := valid expression = true
  matchers_new := by
    ext m
    simp
  add_valid := by
    intro inst priority id expression hfree hvalid
    have hnew : (inst.any fun m => m.id == id && m.priority == priority) = false := by
      rw [List.any_eq_false]
      intro m hm
      simp [hfree m hm]
    refine ⟨⟨id, priority, expression⟩ :: inst, by simp [hvalid, hnew], ?_⟩
    ext m
    simp
  add_invalid := by
    intro inst priority id expression hvalid
    exact ⟨"invalid expression", by simp [hvalid]⟩
  remove_known := by
    intro inst m hm huniq
    have hfind : inst.find? (fun m' => m'.id == m.id) = some m := by
      have hsome : (inst.find? fun m' => m'.id == m.id).isSome := by
        rw [List.find?_isSome]
        exact ⟨m, hm, by simp⟩
      obtain ⟨m', hm'⟩ := Option.isSome_iff_exists.mp hsome
      have hid : m'.id = m.id := by simpa using List.find?_some hm'
      rw [hm', huniq m' (List.mem_of_find?_eq_some hm') hid]
    refine ⟨inst.filter (· ≠ m), by rw [hfind]; rfl, ?_⟩
    ext m'
    simp

/-- Routes of the expressions flavour, reduced to their `expression`. -/
def expressionOf (route : AtcRoute (Option String)) : Option (String × Nat) :=
  route.body.map fun expression => (expression, 0)

def pathRoute (updatedAt : Option ℚ) (expression : Option String) :
    RouteAndService (Option String) Unit where
  route := { id := some "r1", updatedAt := updatedAt, body := expression }
  service := some ()

def pathLib : AtcLib := listLib fun expression => expression == "http.path == r#\"/a\"#"

def pathExpression : String := "http.path == r#\"/a\"#"

/-- The route is saved again: the incremental build agrees with the one
from scratch. -/
theorem update_rebuilds_like_scratch :
    ∃ old : AtcRouter pathLib (Option String) Unit,
      newFromScratch expressionOf [pathRoute (some 1) (some pathExpression)] = .ok old
      ∧ (newFromPrevious expressionOf [pathRoute (some 2) (some pathExpression)] old).map
          AtcRouter.observe
        = (newFromScratch expressionOf [pathRoute (some 2) (some pathExpression)]
            : Except BuildFailure (AtcRouter pathLib (Option String) Unit)).map
            AtcRouter.observe := by
  have hdistinct : ∀ time, DistinctIds [pathRoute time (some pathExpression)] := by
    intro time
    simp [DistinctIds, pathRoute]
  refine ⟨_, rfl, rebuild_eq_scratch pathLib expressionOf (.scratch (hdistinct (some 1)) rfl)
    ⟨hdistinct (some 2), ?_⟩⟩
  intro r hr hid
  rw [List.mem_singleton] at hr
  subst hr
  refine ⟨?_, ?_, ?_⟩
  · intro hstamp
    cases hstamp
  · intro old hold
    right
    left
    rw [← Option.some.inj hold]
    simp [pathRoute]
  · intro _
    exact Option.some_ne_none _

/-- The route is updated and has no expression any more: the incremental
build drops the route and keeps its matcher. A route without
`updated_at`: the incremental build raises. -/
theorem update_without_expression_keeps_matcher :
    ∃ old rebuilt fresh fresh' : AtcRouter pathLib (Option String) Unit,
      newFromScratch expressionOf [pathRoute (some 1) (some pathExpression)] = .ok old
      ∧ newFromPrevious expressionOf [pathRoute (some 2) none] old = .ok rebuilt
      ∧ newFromScratch expressionOf [pathRoute (some 2) none] = .ok fresh
      ∧ rebuilt.routes.get "r1" = none
      ∧ ⟨"r1", 0, pathExpression⟩ ∈ rebuilt.observe.matchers
      ∧ fresh.observe.matchers = ∅
      ∧ newFromPrevious expressionOf [pathRoute none (some pathExpression)] fresh = .error .raised
      ∧ newFromScratch expressionOf [pathRoute none (some pathExpression)] = .ok fresh' := by
  refine ⟨_, _, _, _, rfl, rfl, rfl, rfl, ?_, ?_, rfl, rfl⟩
  · exact List.mem_singleton.mpr rfl
  · exact pathLib.matchers_new

end KongGateway.Kong.Router

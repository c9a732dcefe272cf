import KongGateway.Kong.Router.Atc

/-!
# Passes — what the loops of a build do to one route id

What a build says about one route id is its `slot`: the entry of the
routes table, the entry of the services table and the matchers of that
id. The loops over the listed routes settle the slot of each route; the
last loop of the incremental build unmarks what it has seen and drops
the rest. Each loop is a pass in the sense of `Keyed.Step`, so a lemma
about one round is all that is needed for each.
-/

namespace KongGateway.Kong.Router

variable {lib : AtcLib} {Body Service : Type}

/-! ## Slots -/

/-- What a router says about one id. -/
structure Slot (Body Service : Type) where
  held : Option (Held Body)
  service : Option Service
  matchers : Set Matcher

def Slot.empty : Slot Body Service where
  held := none
  service := none
  matchers := ∅

def matchersAt (inst : lib.Inst) (id : String) : Set Matcher :=
  { m ∈ lib.matchers inst | m.id = id }

def Build.slot (b : Build lib Body Service) (id : String) : Slot Body Service where
  held := b.routes.get id
  service := b.services.get id
  matchers := matchersAt b.inst id

def RouteAndService.key (r : RouteAndService Body Service) : String := r.route.id.getD ""

/-- The route yields an expression that the engine accepts. -/
def Accepted (lib : AtcLib) (getExpAndPriority : AtcRoute Body → Option (String × Nat))
    (route : AtcRoute Body) (m : Matcher) : Prop :=
  getExpAndPriority route = some (m.expression, m.priority) ∧ lib.Valid m.expression

open Classical in
/-- The slot of an id after its route was put in: full if the route is
accepted, else empty. -/
noncomputable def settled (lib : AtcLib)
    (getExpAndPriority : AtcRoute Body → Option (String × Nat)) (seen : Bool)
    (r : RouteAndService Body Service) : Slot Body Service :=
  if ∃ m, m.id = r.key ∧ Accepted lib getExpAndPriority r.route m then
    { held := some { route := r.route, seen := seen }
      service := r.service
      matchers := { m | m.id = r.key ∧ Accepted lib getExpAndPriority r.route m } }
  else .empty

variable {getExpAndPriority : AtcRoute Body → Option (String × Nat)}

theorem Accepted.unique {route : AtcRoute Body} {m m' : Matcher} (hid : m.id = m'.id)
    (h : Accepted lib getExpAndPriority route m) (h' : Accepted lib getExpAndPriority route m') :
    m = m' := by
  obtain ⟨id, priority, expression⟩ := m
  obtain ⟨id', priority', expression'⟩ := m'
  have hsame := Option.some.inj (h.1.symm.trans h'.1)
  simp only [Prod.mk.injEq] at hsame hid
  rw [hid, hsame.1, hsame.2]

theorem settled_of_accepted {r : RouteAndService Body Service} {m : Matcher} (seen : Bool)
    (hid : m.id = r.key) (h : Accepted lib getExpAndPriority r.route m) :
    settled lib getExpAndPriority seen r
      = { held := some { route := r.route, seen := seen }, service := r.service
          matchers := {m} } := by
  rw [settled, if_pos ⟨m, hid, h⟩]
  congr 1
  ext m'
  constructor
  · rintro ⟨hid', h'⟩
    exact h'.unique (hid'.trans hid.symm) h
  · rintro rfl
    exact ⟨hid, h⟩

theorem settled_of_rejected {r : RouteAndService Body Service} (seen : Bool)
    (h : ¬ ∃ m, m.id = r.key ∧ Accepted lib getExpAndPriority r.route m) :
    settled lib getExpAndPriority seen r = .empty := if_neg h

theorem settled_cases (lib : AtcLib) (getExpAndPriority : AtcRoute Body → Option (String × Nat))
    (r : RouteAndService Body Service) :
    (∃ m, m.id = r.key ∧ Accepted lib getExpAndPriority r.route m
        ∧ ∀ seen, settled lib getExpAndPriority seen r
          = { held := some { route := r.route, seen := seen }, service := r.service
              matchers := {m} })
      ∨ ∀ seen, settled lib getExpAndPriority seen r = .empty := by
  by_cases h : ∃ m, m.id = r.key ∧ Accepted lib getExpAndPriority r.route m
  · obtain ⟨m, hm, haccepted⟩ := h
    exact .inl ⟨m, hm, haccepted, fun seen => settled_of_accepted seen hm haccepted⟩
  · exact .inr fun seen => settled_of_rejected seen h

/-! ## Adding and removing one matcher -/

section Engine

variable {inst inst' : lib.Inst} {id : String}

theorem notMem_of_matchersAt (h : matchersAt inst id = ∅) : ∀ m ∈ lib.matchers inst, m.id ≠ id := by
  intro m hm hid
  have hmem : m ∈ matchersAt inst id := ⟨hm, hid⟩
  rw [h] at hmem
  exact hmem

theorem matchersAt_insert_self {m : Matcher} (h : matchersAt inst m.id = ∅)
    (hins : lib.matchers inst' = insert m (lib.matchers inst)) : matchersAt inst' m.id = {m} := by
  ext m'
  constructor
  · rintro ⟨hmem, hid⟩
    rw [hins] at hmem
    rcases hmem with rfl | hold
    · rfl
    · exact absurd hid (notMem_of_matchersAt h m' hold)
  · rintro rfl
    refine ⟨?_, rfl⟩
    rw [hins]
    exact Set.mem_insert _ _

theorem matchersAt_insert_ne {m : Matcher} (hne : id ≠ m.id)
    (hins : lib.matchers inst' = insert m (lib.matchers inst)) :
    matchersAt inst' id = matchersAt inst id := by
  ext m'
  constructor
  · rintro ⟨hmem, hid⟩
    rw [hins] at hmem
    rcases hmem with rfl | hold
    · exact absurd hid.symm hne
    · exact ⟨hold, hid⟩
  · rintro ⟨hmem, hid⟩
    refine ⟨?_, hid⟩
    rw [hins]
    exact Set.mem_insert_of_mem _ hmem

/-- The single matcher of an id can be removed, and nothing else
changes. -/
theorem removeMatcher_spec {m : Matcher} (h : matchersAt inst m.id = {m}) :
    ∃ inst', removeMatcher inst m.id = .ok inst' ∧ matchersAt inst' m.id = ∅
      ∧ ∀ id, id ≠ m.id → matchersAt inst' id = matchersAt inst id := by
  have hmem : m ∈ matchersAt inst m.id := by
    rw [h]
    rfl
  have huniq : ∀ m' ∈ lib.matchers inst, m'.id = m.id → m' = m := by
    intro m' hm' hid
    have hat : m' ∈ matchersAt inst m.id := ⟨hm', hid⟩
    rw [h] at hat
    exact hat
  obtain ⟨inst', hremove, hmatchers⟩ := lib.remove_known inst m hmem.1 huniq
  refine ⟨inst', by rw [removeMatcher, hremove], ?_, ?_⟩
  · ext m'
    constructor
    · rintro ⟨hm', hid⟩
      rw [hmatchers] at hm'
      exact hm'.2 (huniq m' hm'.1 hid)
    · intro hfalse
      exact absurd hfalse (Set.notMem_empty m')
  · intro id hne
    ext m'
    constructor
    · rintro ⟨hm', hid⟩
      rw [hmatchers] at hm'
      exact ⟨hm'.1, hid⟩
    · rintro ⟨hm', hid⟩
      refine ⟨?_, hid⟩
      rw [hmatchers]
      refine ⟨hm', fun heq => hne ?_⟩
      rw [← hid, show m' = m from heq]

/-- Adding to a free id: the route's matcher is put in, or the route is
rejected and the engine stays as it is. -/
theorem addAtcMatcher_free (getExpAndPriority : AtcRoute Body → Option (String × Nat))
    (route : AtcRoute Body) (h : matchersAt inst id = ∅) :
    (∃ m inst', m.id = id ∧ Accepted lib getExpAndPriority route m
        ∧ addAtcMatcher getExpAndPriority inst route id false = .ok (inst', none)
        ∧ matchersAt inst' id = {m}
        ∧ ∀ id', id' ≠ id → matchersAt inst' id' = matchersAt inst id')
      ∨ ∃ err, (¬ ∃ m, m.id = id ∧ Accepted lib getExpAndPriority route m)
        ∧ addAtcMatcher getExpAndPriority inst route id false = .ok (inst, some err) := by
  cases hexp : getExpAndPriority route with
  | none =>
    refine .inr ⟨"could not find expression, route: " ++ id, ?_, by simp only [addAtcMatcher, hexp]⟩
    rintro ⟨m, -, haccepted⟩
    have hsome := haccepted.1
    rw [hexp] at hsome
    cases hsome
  | some found =>
    obtain ⟨exp, priority⟩ := found
    by_cases hvalid : lib.Valid exp
    · obtain ⟨inst', hadd, hmatchers⟩ :=
        lib.add_valid inst priority id exp (notMem_of_matchersAt h) hvalid
      refine .inl ⟨⟨id, priority, exp⟩, inst', rfl, ⟨hexp, hvalid⟩, ?_, ?_, ?_⟩
      · simp [addAtcMatcher, hexp, hadd, pure, Except.pure, bind, Except.bind]
      · exact matchersAt_insert_self h hmatchers
      · intro id' hne
        exact matchersAt_insert_ne hne hmatchers
    · obtain ⟨err, hadd⟩ := lib.add_invalid inst priority id exp hvalid
      refine .inr ⟨"could not add route: " ++ id ++ ", err: " ++ err, ?_, ?_⟩
      · rintro ⟨m, -, haccepted⟩
        have hsame := Option.some.inj (hexp.symm.trans haccepted.1)
        rw [Prod.mk.injEq] at hsame
        exact hvalid (hsame.1 ▸ haccepted.2)
      · simp [addAtcMatcher, hexp, hadd, pure, Except.pure, bind, Except.bind]

/-- Replacing is removing and then adding, for a route that yields an
expression. -/
theorem addAtcMatcher_replace {route : AtcRoute Body}
    (hexp : getExpAndPriority route ≠ none) (hremove : removeMatcher inst id = .ok inst') :
    addAtcMatcher getExpAndPriority inst route id true
      = addAtcMatcher getExpAndPriority inst' route id false := by
  cases hfound : getExpAndPriority route with
  | none => exact absurd hfound hexp
  | some found => simp [addAtcMatcher, hfound, hremove, pure, Except.pure, bind, Except.bind]

end Engine

/-! ## The three passes -/

open Classical in
/-- The newest `updated_at` after one more route. -/
noncomputable def newest (lib : AtcLib)
    (getExpAndPriority : AtcRoute Body → Option (String × Nat)) (updatedAt : ℚ)
    (r : RouteAndService Body Service) : ℚ :=
  if ∃ m, m.id = r.key ∧ Accepted lib getExpAndPriority r.route m then
    max updatedAt (r.route.updatedAt.getD 0)
  else updatedAt

/-- What a round must leave behind for its route. -/
structure Settles (getExpAndPriority : AtcRoute Body → Option (String × Nat)) (seen : Bool)
    (r : RouteAndService Body Service) (b b' : Build lib Body Service) : Prop where
  self : b'.slot r.key = settled lib getExpAndPriority seen r
  other : ∀ id, id ≠ r.key → b'.slot id = b.slot id
  time : b'.newUpdatedAt = newest lib getExpAndPriority b.newUpdatedAt r

section Rounds

variable {b b' : Build lib Body Service} {r : RouteAndService Body Service} {seen : Bool}

theorem settles_accepted {m : Matcher} (hm : m.id = r.key)
    (haccepted : Accepted lib getExpAndPriority r.route m)
    (hroutes : b'.routes = b.routes.set r.key (some { route := r.route, seen := seen }))
    (hservices : b'.services = b.services.set r.key r.service)
    (hself : matchersAt b'.inst r.key = {m})
    (hother : ∀ id, id ≠ r.key → matchersAt b'.inst id = matchersAt b.inst id)
    (htime : b'.newUpdatedAt = max b.newUpdatedAt (r.route.updatedAt.getD 0)) :
    Settles getExpAndPriority seen r b b' where
  self := by
    rw [settled_of_accepted seen hm haccepted]
    simp [Build.slot, hroutes, hservices, hself]
  other := by
    intro id hne
    simp only [Build.slot, hroutes, hservices, hother id hne, LuaTable.get_set_ne _ hne]
  time := by rw [htime, newest, if_pos ⟨m, hm, haccepted⟩]

theorem settles_rejected {held : Option (Held Body)}
    (hrejected : ¬ ∃ m, m.id = r.key ∧ Accepted lib getExpAndPriority r.route m)
    (hroutes : b'.routes = (b.routes.set r.key held).set r.key none)
    (hservices : b'.services = (b.services.set r.key r.service).set r.key none)
    (hself : matchersAt b'.inst r.key = ∅)
    (hother : ∀ id, id ≠ r.key → matchersAt b'.inst id = matchersAt b.inst id)
    (htime : b'.newUpdatedAt = b.newUpdatedAt) : Settles getExpAndPriority seen r b b' where
  self := by
    rw [settled_of_rejected seen hrejected]
    simp [Build.slot, Slot.empty, hroutes, hservices, hself]
  other := by
    intro id hne
    simp only [Build.slot, hroutes, hservices, hother id hne, LuaTable.get_set_ne _ hne]
  time := by rw [htime, newest, if_neg hrejected]

/-- A round of `new_from_scratch` on a free id. -/
theorem scratchStep_settles (hid : r.route.id = some r.key) (hslot : b.slot r.key = .empty) :
    ∃ b', scratchStep getExpAndPriority b r = .ok b'
      ∧ Settles getExpAndPriority false r b b' := by
  have hfree : matchersAt b.inst r.key = ∅ := congrArg Slot.matchers hslot
  rcases addAtcMatcher_free getExpAndPriority r.route hfree with
    ⟨m, inst', hm, haccepted, hadd, hself, hother⟩ | ⟨err, hrejected, hadd⟩
  · refine ⟨_, by simp only [scratchStep, hid, hadd, bind, Except.bind]; rfl, ?_⟩
    exact settles_accepted hm haccepted rfl rfl hself hother rfl
  · refine ⟨_, by simp only [scratchStep, hid, hadd, bind, Except.bind]; rfl, ?_⟩
    exact settles_rejected hrejected rfl rfl hfree (fun _ _ => rfl) rfl

/-- What `new_from_previous` needs of a listed route, given the entry of
its id in the old router: a time stamp where it will be read, a new one
for new content, and an expression where a matcher is there to be
replaced. -/
structure Refreshable (lib : AtcLib)
    (getExpAndPriority : AtcRoute Body → Option (String × Nat)) (updatedAt : ℚ)
    (held : Option (Held Body)) (r : RouteAndService Body Service) : Prop where
  stamped : r.route.updatedAt = none →
    held = none ∧ ¬ ∃ m, m.id = r.key ∧ Accepted lib getExpAndPriority r.route m
  touched : ∀ old, held = some old → r.route = old.route
    ∨ r.route.updatedAt ≠ old.route.updatedAt
    ∨ ∃ time, r.route.updatedAt = some time ∧ updatedAt ≤ time
  expressible : held ≠ none → getExpAndPriority r.route ≠ none

/-- A slot of a finished router: empty, or an unmarked entry with its
matcher. -/
def Slot.Sound (lib : AtcLib) (getExpAndPriority : AtcRoute Body → Option (String × Nat))
    (id : String) (slot : Slot Body Service) : Prop :=
  slot = .empty ∨ ∃ route service m, m.id = id ∧ Accepted lib getExpAndPriority route m
    ∧ slot = { held := some { route := route, seen := false }, service := service, matchers := {m} }

/-- A round of the first loop of `new_from_previous` on a sound slot. -/
theorem previousStep_settles {updatedAt : ℚ} (hid : r.route.id = some r.key)
    (hsound : (b.slot r.key).Sound lib getExpAndPriority r.key)
    (hrefresh : Refreshable lib getExpAndPriority updatedAt (b.slot r.key).held r) :
    ∃ b', previousStep getExpAndPriority updatedAt b r = .ok b'
      ∧ Settles getExpAndPriority true r b b' := by
  rcases hsound with hempty | ⟨route, service, m, hm, haccepted, hfull⟩
  · -- the route is new
    have hnone : b.routes.get r.key = none := congrArg Slot.held hempty
    have hfree : matchersAt b.inst r.key = ∅ := congrArg Slot.matchers hempty
    rcases addAtcMatcher_free getExpAndPriority r.route hfree with
      ⟨m, inst', hm, haccepted, hadd, hself, hother⟩ | ⟨err, hrejected, hadd⟩
    · cases hstamp : r.route.updatedAt with
      | none => exact absurd ⟨m, hm, haccepted⟩ (hrefresh.stamped hstamp).2
      | some time =>
        refine ⟨_, by simp only [previousStep, hid, hnone, hadd, hstamp, bind, Except.bind]; rfl, ?_⟩
        exact settles_accepted hm haccepted rfl rfl hself hother (by rw [hstamp]; rfl)
    · refine ⟨_, by simp only [previousStep, hid, hnone, hadd, bind, Except.bind]; rfl, ?_⟩
      exact settles_rejected hrejected rfl rfl hfree (fun _ _ => rfl) rfl
  · have hheld : b.routes.get r.key = some { route := route, seen := false } :=
      congrArg Slot.held hfull
    have hsome : (b.slot r.key).held = some { route := route, seen := false } := hheld
    have hat : matchersAt b.inst r.key = {m} := congrArg Slot.matchers hfull
    obtain ⟨time, hstamp⟩ : ∃ time, r.route.updatedAt = some time := by
      rw [← Option.ne_none_iff_exists']
      intro hnone
      rw [(hrefresh.stamped hnone).1] at hsome
      cases hsome
    by_cases hmodified : updatedAt ≤ time ∨ r.route.updatedAt ≠ route.updatedAt
    · -- the old matcher goes, then the route is put in as a new one
      have hflag : isModified updatedAt r.route route = .ok true := by
        simpa [isModified, hstamp] using hmodified
      obtain ⟨inst₁, hremove, hfree, hkept⟩ := removeMatcher_spec (hm ▸ hat)
      rw [hm] at hremove hfree hkept
      have hreplace := addAtcMatcher_replace
        (hrefresh.expressible (by rw [hsome]; exact Option.some_ne_none _)) hremove
      rcases addAtcMatcher_free getExpAndPriority r.route hfree with
        ⟨m', inst', hm', haccepted', hadd, hself, hother⟩ | ⟨err, hrejected, hadd⟩
      · refine ⟨_, by
          simp only [previousStep, hid, hheld, hflag, hreplace, hadd, hstamp, bind, Except.bind]
          rfl, ?_⟩
        exact settles_accepted hm' haccepted' rfl rfl hself
          (fun id hne => (hother id hne).trans (hkept id hne)) (by rw [hstamp]; rfl)
      · refine ⟨_, by
          simp only [previousStep, hid, hheld, hflag, hreplace, hadd, bind, Except.bind]
          rfl, ?_⟩
        exact settles_rejected hrejected rfl rfl hfree hkept rfl
    · -- the content is the old one, and so is the matcher
      rw [not_or, not_not] at hmodified
      have hflag : isModified updatedAt r.route route = .ok false := by
        simpa [isModified, hstamp] using hmodified
      have hsame : r.route = route := by
        rcases hrefresh.touched _ hsome with heq | hne | ⟨time', htime', hle⟩
        · exact heq
        · exact absurd hmodified.2 hne
        · rw [hstamp, Option.some.injEq] at htime'
          exact absurd (htime' ▸ hle) hmodified.1
      refine ⟨_, by
        simp only [previousStep, hid, hheld, hflag, hstamp, bind, Except.bind]
        rfl, ?_⟩
      exact settles_accepted hm (hsame ▸ haccepted) rfl rfl hat (fun _ _ => rfl)
        (by rw [hstamp]; rfl)

/-- A round of the second loop: what was seen is unmarked, what was not
is dropped with its matcher. -/
theorem removeStep_spec {b : Build lib Body Service} {id : String} {held : Held Body}
    (hheld : (b.slot id).held = some held)
    (hsound : held.seen = false → (b.slot id).Sound lib getExpAndPriority id) :
    ∃ b', removeStep b id = .ok b'
      ∧ b'.slot id
        = (if held.seen then { b.slot id with held := some { held with seen := false } }
          else .empty)
      ∧ (∀ id', id' ≠ id → b'.slot id' = b.slot id')
      ∧ b'.newUpdatedAt = b.newUpdatedAt := by
  have hget : b.routes.get id = some held := hheld
  cases hseen : held.seen with
  | true =>
    refine ⟨_, by simp only [removeStep, hget, hseen, if_true]; rfl, ?_, ?_, ?_⟩
    · simp [Build.slot]
    · intro id' hne
      simp only [Build.slot, LuaTable.get_set_ne _ hne]
    · rfl
  | false =>
    rcases hsound hseen with hempty | ⟨route, service, m, hm, -, hfull⟩
    · rw [hempty] at hheld
      cases hheld
    · have hat : matchersAt b.inst id = {m} := congrArg Slot.matchers hfull
      obtain ⟨inst', hremove, hfree, hkept⟩ := removeMatcher_spec (hm ▸ hat)
      rw [hm] at hremove hfree hkept
      refine ⟨_, by
        simp only [removeStep, hget, hseen, hremove, bind, Except.bind, Bool.false_eq_true, if_false]
        rfl, ?_, ?_, ?_⟩
      · simp [Build.slot, Slot.empty, hfree]
      · intro id' hne
        simp only [Build.slot, hkept id' hne, LuaTable.get_set_ne _ hne]
      · rfl

end Rounds

/-! ## The passes -/

theorem settled_sound (r : RouteAndService Body Service) :
    (settled lib getExpAndPriority false r).Sound lib getExpAndPriority r.key := by
  rcases settled_cases lib getExpAndPriority r with ⟨m, hm, haccepted, hfull⟩ | hempty
  · exact .inr ⟨r.route, r.service, m, hm, haccepted, hfull false⟩
  · exact .inl (hempty false)

section Passes

variable {routes : List (RouteAndService Body Service)} {b : Build lib Body Service}

theorem scratch_pass (getExpAndPriority : AtcRoute Body → Option (String × Nat))
    (hids : ∀ r ∈ routes, r.route.id = some r.key)
    (hkeys : (routes.map RouteAndService.key).Nodup) (hempty : ∀ id, b.slot id = .empty) :
    ∃ b', routes.foldlM (scratchStep getExpAndPriority) b = .ok b'
      ∧ (∀ r ∈ routes, b'.slot r.key = settled lib getExpAndPriority false r)
      ∧ (∀ id, id ∉ routes.map RouteAndService.key → b'.slot id = .empty)
      ∧ b'.newUpdatedAt = routes.foldl (newest lib getExpAndPriority) b.newUpdatedAt := by
  have hstep : Keyed.Step (scratchStep getExpAndPriority : Build lib Body Service → _ → _)
      RouteAndService.key Build.slot Build.newUpdatedAt
      (fun slot r => r.route.id = some r.key ∧ slot = .empty)
      (fun _ r => settled lib getExpAndPriority false r) (newest lib getExpAndPriority) := by
    constructor
    rintro b r ⟨hid, hslot⟩
    obtain ⟨b', hrun, hsettles⟩ := scratchStep_settles hid hslot
    exact ⟨b', hrun, hsettles.self, hsettles.other, hsettles.time⟩
  obtain ⟨b', hrun, hself, hother, htime⟩ :=
    hstep.foldlM hkeys fun r hr => ⟨hids r hr, hempty r.key⟩
  exact ⟨b', hrun, hself, fun id hid => (hother id hid).trans (hempty id), htime⟩

theorem previous_pass {updatedAt : ℚ} (hids : ∀ r ∈ routes, r.route.id = some r.key)
    (hkeys : (routes.map RouteAndService.key).Nodup)
    (hsound : ∀ id, (b.slot id).Sound lib getExpAndPriority id)
    (hrefresh : ∀ r ∈ routes,
      Refreshable lib getExpAndPriority updatedAt (b.slot r.key).held r) :
    ∃ b', routes.foldlM (previousStep getExpAndPriority updatedAt) b = .ok b'
      ∧ (∀ r ∈ routes, b'.slot r.key = settled lib getExpAndPriority true r)
      ∧ (∀ id, id ∉ routes.map RouteAndService.key → b'.slot id = b.slot id)
      ∧ b'.newUpdatedAt = routes.foldl (newest lib getExpAndPriority) b.newUpdatedAt := by
  have hstep : Keyed.Step
      (previousStep getExpAndPriority updatedAt : Build lib Body Service → _ → _)
      RouteAndService.key Build.slot Build.newUpdatedAt
      (fun slot r => r.route.id = some r.key ∧ slot.Sound lib getExpAndPriority r.key
        ∧ Refreshable lib getExpAndPriority updatedAt slot.held r)
      (fun _ r => settled lib getExpAndPriority true r) (newest lib getExpAndPriority) := by
    constructor
    rintro b r ⟨hid, hslot, href⟩
    obtain ⟨b', hrun, hsettles⟩ := previousStep_settles hid hslot href
    exact ⟨b', hrun, hsettles.self, hsettles.other, hsettles.time⟩
  exact hstep.foldlM hkeys fun r hr => ⟨hids r hr, hsound r.key, hrefresh r hr⟩

/-- The second loop turns a build whose listed slots are marked and whose
other slots are sound into the finished one. -/
theorem remove_pass (b : Build lib Body Service)
    (hslots : ∀ id, (∃ r, r.key = id ∧ b.slot id = settled lib getExpAndPriority true r)
      ∨ (b.slot id).Sound lib getExpAndPriority id) :
    ∃ b', b.routes.keys.foldlM removeStep b = .ok b'
      ∧ (∀ r, b.slot r.key = settled lib getExpAndPriority true r →
          b'.slot r.key = settled lib getExpAndPriority false r)
      ∧ (∀ id, (b.slot id).Sound lib getExpAndPriority id → b'.slot id = .empty)
      ∧ b'.newUpdatedAt = b.newUpdatedAt := by
  have hstep : Keyed.Step (removeStep : Build lib Body Service → _ → _)
      (fun id => id) Build.slot Build.newUpdatedAt
      (fun slot id => ∃ held, slot.held = some held
        ∧ (held.seen = false → slot.Sound lib getExpAndPriority id))
      (fun slot _ =>
        match slot.held with
        | some held =>
          if held.seen then { slot with held := some { held with seen := false } } else .empty
        | none => slot)
      (fun time _ => time) := by
    constructor
    rintro b id ⟨held, hheld, hsound⟩
    obtain ⟨b', hrun, hself, hother, htime⟩ := removeStep_spec hheld hsound
    refine ⟨b', hrun, ?_, hother, htime⟩
    rw [hself, hheld]
  have hready : ∀ id ∈ b.routes.keys, ∃ held, (b.slot id).held = some held
      ∧ (held.seen = false → (b.slot id).Sound lib getExpAndPriority id) := by
    intro id hmem
    have hsome : (b.slot id).held ≠ none := fun hnone => LuaTable.get_eq_none_iff.mp hnone hmem
    obtain ⟨held, hheld⟩ := Option.ne_none_iff_exists'.mp hsome
    refine ⟨held, hheld, fun hseen => ?_⟩
    rcases hslots id with ⟨r, rfl, hr⟩ | hsound
    · -- a listed slot is empty or marked
      rcases settled_cases lib getExpAndPriority r with ⟨m, -, -, hfull⟩ | hempty
      · rw [hr, hfull true] at hheld
        cases hheld
        cases hseen
      · rw [hr, hempty true] at hheld
        cases hheld
    · exact hsound
  obtain ⟨b', hrun, hself, hother, htime⟩ :=
    hstep.foldlM (by simpa using AList.keys_nodup b.routes) hready
  rw [List.map_id'] at hother
  -- an empty slot has no key in the table, so the loop does not visit it
  have hempty : ∀ id, b.slot id = .empty → b'.slot id = .empty := by
    intro id hslot
    have hnone : b.routes.get id = none := congrArg Slot.held hslot
    rw [hother id (LuaTable.get_eq_none_iff.mp hnone), hslot]
  have hvisit : ∀ id held, (b.slot id).held = some held → id ∈ b.routes.keys := by
    intro id held hheld
    by_contra hmem
    rw [show (b.slot id).held = none from LuaTable.get_eq_none_iff.mpr hmem] at hheld
    cases hheld
  refine ⟨b', hrun, ?_, ?_, ?_⟩
  · intro r hr
    rcases settled_cases lib getExpAndPriority r with ⟨m, -, -, hfull⟩ | hrejected
    · rw [hfull true] at hr
      rw [hfull false, hself r.key (hvisit r.key _ (by rw [hr])), hr]
      rfl
    · rw [hrejected true] at hr
      rw [hrejected false, hempty r.key hr]
  · rintro id (hslot | ⟨route, service, m, -, -, hslot⟩)
    · exact hempty id hslot
    · rw [hself id (hvisit id _ (by rw [hslot])), hslot]
      rfl
  · rw [htime, List.foldl_fixed]

end Passes

end KongGateway.Kong.Router

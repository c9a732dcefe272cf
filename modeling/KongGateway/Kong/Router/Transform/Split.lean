import KongGateway.Kong.Router.Transform.Priority

/-!
# Split — `split_routes_and_services_by_path` as it runs

The groups of a route's paths are kept in a table of lists with a map
from keys to places, and the list of routes is written to while it is
read: the first piece of a route takes its place, the others go to the
end, where the loop does not come to. `splitAll_eq` says what the list
is in the end. The pieces of a route partition its paths, and on each of
them the assertions of `get_priority` hold.
-/

namespace KongGateway.Kong.Router.Transform

variable {Service : Type}

/-! ## The groups -/

/-- `_grouped_paths` and `_grouped_paths_map`; places count from 0. -/
structure GroupedPaths where
  grouped : List (List String) := []
  map : List (Nat × Nat) := []

/-- One round of `group_by_regex_or_length`. -/
def groupPath (st : GroupedPaths) (path : String) : GroupedPaths :=
  match st.map.lookup (pathKey path) with
  | some place => { st with grouped := st.grouped.modify place (· ++ [path]) }
  | none =>
    { grouped := st.grouped ++ [[path]]
      map := st.map ++ [(pathKey path, st.grouped.length)] }

def groupPaths (paths : List String) : GroupedPaths := paths.foldl groupPath {}

/-! ## The loop over the routes -/

/-- A route with its service, and the route that it was split from. -/
structure Entry (Service : Type) where
  route : Route
  originalRoute : Option Route := none
  service : Option Service
deriving DecidableEq

def Entry.paths (e : Entry Service) : List String := e.route.paths.getD []

/-- A copy of the route for one group of its paths. -/
def piece (uuid : String → String) (e : Entry Service) (index : Nat) (group : List String) :
    Entry Service where
  route := { e.route with
    paths := some group
    id := some (uuid (e.route.id.getD "" ++ "#" ++ toString index)) }
  originalRoute := some e.route
  service := e.service

/-- The loop over the groups of the route at `i`. -/
def placePieces (uuid : String → String) (e : Entry Service) (i : Nat) :
    Nat → List (List String) → List (Entry Service) → List (Entry Service)
  | _, [], list => list
  | index, group :: rest, list =>
    placePieces uuid e i (index + 1) rest
      (if 1 < index then list ++ [piece uuid e index group]
      else list.set i (piece uuid e index group))

/-- Whether the route stays as it is. -/
def staysWhole (e : Entry Service) : Bool :=
  isEmptyField e.route.paths || e.paths.length = 1 || e.route.expression.isSome
    || (groupPaths e.paths).grouped.length = 1

def splitAt (uuid : String → String) (list : List (Entry Service)) (i : Nat) :
    List (Entry Service) :=
  match list[i]? with
  | none => list
  | some e =>
    if staysWhole e then list
    else placePieces uuid e i 1 (groupPaths e.paths).grouped list

/-- `split_routes_and_services_by_path`: the loop goes over the places
that the list has at the start. -/
def splitAll (uuid : String → String) (list : List (Entry Service)) : List (Entry Service) :=
  (List.range list.length).foldl (splitAt uuid) list

/-! ## What the groups are -/

/-- The groups of the paths so far: one for each key, with all the paths
of the key in their order. -/
structure GroupsOf (done : List String) (groups : List (Nat × List String)) : Prop where
  keys : (groups.map Prod.fst).Nodup
  group : ∀ kg ∈ groups, kg.2 = done.filter (pathKey · = kg.1)
  all : ∀ p ∈ done, pathKey p ∈ groups.map Prod.fst
  used : ∀ kg ∈ groups, kg.2 ≠ []

theorem fst_insertPath (path : String) (groups : List (Nat × List String)) :
    (insertPath path groups).map Prod.fst
      = if pathKey path ∈ groups.map Prod.fst then groups.map Prod.fst
        else groups.map Prod.fst ++ [pathKey path] := by
  induction groups with
  | nil => rfl
  | cons head rest ih =>
    obtain ⟨k, group⟩ := head
    rw [insertPath, List.map_cons]
    by_cases hk : k = pathKey path
    · rw [if_pos hk, if_pos (by rw [hk]; exact List.mem_cons_self), List.map_cons]
    · rw [if_neg hk, List.map_cons, ih]
      have hne : pathKey path ≠ k := Ne.symm hk
      simp only [List.mem_cons, hne, false_or]
      split_ifs <;> rfl

theorem mem_insertPath_of_nodup {path : String} {groups : List (Nat × List String)}
    (hnodup : (groups.map Prod.fst).Nodup) {k : Nat} {group : List String}
    (h : (k, group) ∈ insertPath path groups) :
    (k ≠ pathKey path ∧ (k, group) ∈ groups)
      ∨ k = pathKey path ∧ ((k ∉ groups.map Prod.fst ∧ group = [path])
        ∨ ∃ old, (k, old) ∈ groups ∧ group = old ++ [path]) := by
  induction groups with
  | nil =>
    obtain ⟨rfl, rfl⟩ : k = pathKey path ∧ group = [path] := by simpa [insertPath] using h
    exact .inr ⟨rfl, .inl ⟨by simp, rfl⟩⟩
  | cons head rest ih =>
    obtain ⟨k', group'⟩ := head
    rw [List.map_cons, List.nodup_cons] at hnodup
    rw [insertPath] at h
    split_ifs at h with hk
    · rcases List.mem_cons.mp h with hhead | hrest
      · obtain ⟨rfl, rfl⟩ := Prod.mk.inj hhead
        exact .inr ⟨hk, .inr ⟨group', List.mem_cons_self, rfl⟩⟩
      · refine .inl ⟨?_, List.mem_cons_of_mem _ hrest⟩
        rintro rfl
        have hin : pathKey path ∈ rest.map Prod.fst := List.mem_map_of_mem hrest
        rw [hk] at hnodup
        exact hnodup.1 hin
    · rcases List.mem_cons.mp h with hhead | hrest
      · obtain ⟨rfl, rfl⟩ := Prod.mk.inj hhead
        exact .inl ⟨hk, List.mem_cons_self⟩
      · rcases ih hnodup.2 hrest with ⟨hne, hold⟩ | ⟨rfl, ⟨hnone, rfl⟩ | ⟨old, hold, rfl⟩⟩
        · exact .inl ⟨hne, List.mem_cons_of_mem _ hold⟩
        · refine .inr ⟨rfl, .inl ⟨?_, rfl⟩⟩
          rw [List.map_cons, List.mem_cons, not_or]
          exact ⟨Ne.symm hk, hnone⟩
        · exact .inr ⟨rfl, .inr ⟨old, List.mem_cons_of_mem _ hold, rfl⟩⟩

theorem GroupsOf.insertPath {done : List String} {groups : List (Nat × List String)}
    (h : GroupsOf done groups) (path : String) :
    GroupsOf (done ++ [path]) (insertPath path groups) := by
  have hkeys := fst_insertPath path groups
  refine ⟨?_, ?_, ?_, ?_⟩
  · rw [hkeys]
    split_ifs with hmem
    · exact h.keys
    · refine List.nodup_append.mpr ⟨h.keys, List.nodup_singleton _, ?_⟩
      intro k hk k' hk'
      rw [List.mem_singleton.mp hk']
      exact ne_of_mem_of_not_mem hk hmem
  · rintro ⟨k, group⟩ hkg
    dsimp only
    rw [List.filter_append, List.filter_singleton]
    rcases mem_insertPath_of_nodup h.keys hkg with
      ⟨hne, hold⟩ | ⟨rfl, ⟨hnone, rfl⟩ | ⟨old, hold, rfl⟩⟩
    · rw [decide_eq_false (Ne.symm hne), ← h.group _ hold]
      simp
    · have hempty : done.filter (pathKey · = pathKey path) = [] := by
        rw [List.filter_eq_nil_iff]
        intro p hp hkey
        rw [decide_eq_true_eq] at hkey
        exact hnone (hkey ▸ h.all p hp)
      rw [hempty]
      simp
    · rw [← h.group _ hold]
      simp
  · intro p hp
    rw [hkeys]
    rcases List.mem_append.mp hp with hp | hp
    · split_ifs
      · exact h.all p hp
      · exact List.mem_append_left _ (h.all p hp)
    · rw [List.mem_singleton.mp hp]
      split_ifs with hmem
      · exact hmem
      · exact List.mem_append_right _ (List.mem_singleton_self _)
  · intro kg hkg
    obtain ⟨k, group⟩ := kg
    rcases mem_insertPath hkg with hold | ⟨-, rfl | ⟨old, -, rfl⟩⟩
    · exact h.used _ hold
    · simp
    · simp

theorem groupsOf_foldl (paths : List String) {done : List String}
    {groups : List (Nat × List String)} (h : GroupsOf done groups) :
    GroupsOf (done ++ paths) (paths.foldl (fun groups path => insertPath path groups) groups) := by
  induction paths generalizing done groups with
  | nil => rwa [List.append_nil]
  | cons path rest ih =>
    rw [List.append_cons, List.foldl_cons]
    exact ih (h.insertPath path)

/-- The table and the map hold the groups in the order of their keys. -/
structure Holds (st : GroupedPaths) (groups : List (Nat × List String)) : Prop where
  grouped : st.grouped = groups.map Prod.snd
  map : st.map = (groups.map Prod.fst).zipIdx

theorem lookup_zipIdx (path : String) (groups : List (Nat × List String)) (start : Nat) :
    (∃ place, ((groups.map Prod.fst).zipIdx start).lookup (pathKey path) = some (start + place)
        ∧ (groups.map Prod.snd).modify place (· ++ [path]) = (insertPath path groups).map Prod.snd
        ∧ (insertPath path groups).map Prod.fst = groups.map Prod.fst)
      ∨ ((groups.map Prod.fst).zipIdx start).lookup (pathKey path) = none
        ∧ insertPath path groups = groups ++ [(pathKey path, [path])] := by
  induction groups generalizing start with
  | nil => exact .inr ⟨rfl, rfl⟩
  | cons head rest ih =>
    obtain ⟨k, group⟩ := head
    rw [insertPath]
    split_ifs with hk
    · exact .inl ⟨0, by simp [hk], by simp, by simp⟩
    · have hne : (pathKey path == k) = false := by simpa using Ne.symm hk
      rcases ih (start + 1) with ⟨place, hlookup, hmodify, hfst⟩ | ⟨hlookup, hinsert⟩
      · refine .inl ⟨place + 1, ?_, ?_, ?_⟩
        · rw [List.map_cons, List.zipIdx_cons, List.lookup_cons, hne, hlookup, Nat.add_assoc,
            Nat.add_comm 1]
        · simpa using hmodify
        · simpa using hfst
      · refine .inr ⟨?_, by rw [hinsert]; rfl⟩
        rw [List.map_cons, List.zipIdx_cons, List.lookup_cons, hne, hlookup]

theorem Holds.groupPath {st : GroupedPaths} {groups : List (Nat × List String)}
    (h : Holds st groups) (path : String) :
    Holds (groupPath st path) (insertPath path groups) := by
  unfold Transform.groupPath
  rw [h.map]
  rcases lookup_zipIdx path groups 0 with ⟨place, hlookup, hmodify, hfst⟩ | ⟨hlookup, hinsert⟩
  · rw [hlookup, Nat.zero_add]
    refine ⟨?_, by rw [hfst]⟩
    rw [← hmodify, ← h.grouped]
  · rw [hlookup, hinsert, h.grouped]
    refine ⟨by simp, ?_⟩
    rw [List.map_append, List.zipIdx_append]
    simp

theorem groupPaths_holds (paths : List String) {st : GroupedPaths}
    {groups : List (Nat × List String)} (h : Holds st groups) :
    Holds (paths.foldl groupPath st)
      (paths.foldl (fun groups path => insertPath path groups) groups) := by
  induction paths generalizing st groups with
  | nil => exact h
  | cons path rest ih => exact ih (h.groupPath path)

theorem groupPaths_eq (paths : List String) :
    (groupPaths paths).grouped = groupByRegexOrLength paths :=
  (groupPaths_holds paths ⟨rfl, rfl⟩).grouped

theorem groupsOf_groupPaths (paths : List String) :
    ∃ groups, GroupsOf paths groups ∧ (groupPaths paths).grouped = groups.map Prod.snd := by
  refine ⟨_, ?_, groupPaths_eq paths⟩
  have hnil : GroupsOf [] [] := ⟨List.nodup_nil, by simp, by simp, by simp⟩
  simpa using groupsOf_foldl paths hnil

/-! ## Groups partition the paths -/

/-- The lists `parts` hold every element of `all` once, in its order, and
no element is in two of them. -/
structure Partition (all : List String) (parts : List (List String)) : Prop where
  sublists : ∀ part ∈ parts, part.Sublist all
  all : parts.flatten.Perm all
  disjoint : parts.Pairwise List.Disjoint

theorem perm_flatMap_filter {keys : List Nat} (hkeys : keys.Nodup) {paths : List String}
    (hall : ∀ p ∈ paths, pathKey p ∈ keys) :
    (keys.flatMap fun k => paths.filter (pathKey · = k)).Perm paths := by
  induction keys generalizing paths with
  | nil =>
    have hnil : paths = [] := List.eq_nil_iff_forall_not_mem.mpr fun p hp => by simpa using hall p hp
    rw [hnil]
    exact List.Perm.nil
  | cons k keys ih =>
    rw [List.nodup_cons] at hkeys
    -- the other groups are those of the paths with other keys
    have hothers : (keys.flatMap fun k' => paths.filter (pathKey · = k'))
        = keys.flatMap fun k' =>
          (paths.filter fun p => !decide (pathKey p = k)).filter (pathKey · = k') := by
      refine List.flatMap_congr fun k' hk' => ?_
      have hne : k' ≠ k := ne_of_mem_of_not_mem hk' hkeys.1
      rw [List.filter_filter]
      refine List.filter_congr fun p _ => ?_
      by_cases hp : pathKey p = k'
      · simp [hp, hne]
      · simp [hp]
    rw [List.flatMap_cons, hothers]
    refine ((ih hkeys.2 fun p hp => ?_).append_left _).trans
      (List.filter_append_perm (pathKey · = k) paths)
    rw [List.mem_filter] at hp
    exact (List.mem_cons.mp (hall p hp.1)).resolve_left (by simpa using hp.2)

theorem GroupsOf.partition {paths : List String} {groups : List (Nat × List String)}
    (h : GroupsOf paths groups) : Partition paths (groups.map Prod.snd) := by
  refine ⟨?_, ?_, ?_⟩
  · intro part hpart
    obtain ⟨kg, hkg, rfl⟩ := List.mem_map.mp hpart
    rw [h.group kg hkg]
    exact List.filter_sublist
  · have hperm := perm_flatMap_filter h.keys h.all
    rwa [List.flatMap_map, List.flatMap_congr fun kg hkg => (h.group kg hkg).symm,
      List.flatMap_def] at hperm
  · rw [List.pairwise_map]
    have hkeys := List.pairwise_map.mp h.keys
    refine hkeys.imp_of_mem fun {kg kg'} hkg hkg' hne p hp hp' => hne ?_
    rw [h.group kg hkg, List.mem_filter, decide_eq_true_eq] at hp
    rw [h.group kg' hkg', List.mem_filter, decide_eq_true_eq] at hp'
    exact hp.2.symm.trans hp'.2

/-! ## What the list is in the end -/

/-- The pieces of a route, or the route alone. -/
def piecesOf (uuid : String → String) (e : Entry Service) : List (Entry Service) :=
  if staysWhole e then [e]
  else (groupPaths e.paths).grouped.mapIdx fun index group => piece uuid e (index + 1) group

theorem placePieces_eq (uuid : String → String) (e : Entry Service) (i : Nat) {index : Nat}
    (hindex : 1 < index) (groups : List (List String)) (list : List (Entry Service)) :
    placePieces uuid e i index groups list
      = list ++ groups.mapIdx fun k group => piece uuid e (index + k) group := by
  induction groups generalizing index list with
  | nil => simp [placePieces]
  | cons group rest ih =>
    rw [placePieces, if_pos hindex, ih (by omega), List.mapIdx_cons, List.append_assoc]
    simp [Nat.add_comm 1, Nat.add_assoc]

theorem piecesOf_cons (uuid : String → String) (e : Entry Service) :
    ∃ first others, piecesOf uuid e = first :: others
      ∧ ∀ (list : List (Entry Service)) (i : Nat), list[i]? = some e →
        splitAt uuid list i = list.set i first ++ others := by
  unfold piecesOf splitAt
  by_cases hwhole : staysWhole e = true
  · refine ⟨e, [], if_pos hwhole, fun list i hi => ?_⟩
    obtain ⟨hlt, rfl⟩ := List.getElem?_eq_some_iff.mp hi
    rw [hi]
    simp [hwhole]
  · rw [if_neg hwhole]
    obtain ⟨groups, hgroups, hgrouped⟩ := groupsOf_groupPaths e.paths
    have hne : (groupPaths e.paths).grouped ≠ [] := by
      rw [hgrouped]
      intro hnil
      rw [List.map_eq_nil_iff] at hnil
      have hempty : e.paths = [] := List.eq_nil_iff_forall_not_mem.mpr fun p hp => by
        simpa [hnil] using hgroups.all p hp
      apply hwhole
      unfold staysWhole
      unfold Entry.paths at hempty
      cases hpaths : e.route.paths with
      | none => simp [isEmptyField]
      | some paths =>
        rw [hpaths] at hempty
        simp_all [isEmptyField]
    obtain ⟨group, rest, hcons⟩ := List.exists_cons_of_ne_nil hne
    rw [hcons, List.mapIdx_cons]
    refine ⟨_, _, rfl, fun list i hi => ?_⟩
    simp only [hi, if_neg hwhole]
    rw [hcons, placePieces, if_neg (by decide), placePieces_eq uuid e i (by decide)]
    simp [Nat.add_comm, Nat.add_left_comm]

/-- **The list in the end**: the first pieces in the places of the
routes, the others behind them. -/
theorem splitAll_eq (uuid : String → String) (list : List (Entry Service)) :
    splitAll uuid list = (list.flatMap fun e => (piecesOf uuid e).take 1)
      ++ list.flatMap fun e => (piecesOf uuid e).drop 1 := by
  -- the routes before `done.length` are done, their further pieces stand at the end
  have hrun : ∀ todo done : List (Entry Service),
      (List.range' done.length todo.length).foldl (splitAt uuid)
          ((done.flatMap fun e => (piecesOf uuid e).take 1) ++ todo
            ++ done.flatMap fun e => (piecesOf uuid e).drop 1)
        = ((done ++ todo).flatMap fun e => (piecesOf uuid e).take 1)
          ++ (done ++ todo).flatMap fun e => (piecesOf uuid e).drop 1 := by
    intro todo
    induction todo with
    | nil => simp
    | cons e todo ih =>
      intro done
      obtain ⟨first, others, hpieces, hsplit⟩ := piecesOf_cons uuid e
      have hlen : (done.flatMap fun e => (piecesOf uuid e).take 1).length = done.length := by
        rw [List.length_flatMap]
        have hone : ∀ e ∈ done, ((piecesOf uuid e).take 1).length = 1 := by
          intro e _
          obtain ⟨first, others, hcons, -⟩ := piecesOf_cons uuid e
          rw [hcons]
          rfl
        rw [List.map_congr_left hone]
        simp
      have hstep := hsplit ((done.flatMap fun e => (piecesOf uuid e).take 1) ++ e :: todo
        ++ done.flatMap fun e => (piecesOf uuid e).drop 1) done.length (by
          rw [List.append_assoc, List.getElem?_append_right (by omega), hlen]
          simp)
      have hdone := ih (done ++ [e])
      rw [List.length_cons, List.range'_succ, List.foldl_cons, hstep]
      rw [List.length_append, List.flatMap_append, List.flatMap_append, List.append_assoc,
        List.append_assoc, List.append_assoc] at hdone
      rw [List.append_assoc, List.set_append_right _ _ (by omega), hlen]
      simpa [hpieces] using hdone
  have hall := hrun list []
  rw [splitAll, List.range_eq_range']
  simpa using hall

/-- The pieces are the routes of `splitRoute`. -/
theorem piecesOf_routes (uuid : String → String) (e : Entry Service) :
    (piecesOf uuid e).map (fun p => (p.route, p.service))
      = (splitRoute uuid e.route).map (·, e.service) := by
  unfold piecesOf splitRoute
  by_cases hwhole : staysWhole e = true
  · rw [if_pos hwhole]
    unfold staysWhole at hwhole
    rw [Bool.or_eq_true, groupPaths_eq, decide_eq_true_eq] at hwhole
    dsimp only
    split_ifs with h₁ h₂
    · rfl
    · rfl
    · exact absurd hwhole (fun h => h.elim h₁ h₂)
  · rw [if_neg hwhole]
    unfold staysWhole at hwhole
    rw [Bool.or_eq_true, not_or, groupPaths_eq, decide_eq_true_eq] at hwhole
    unfold Entry.paths at hwhole
    dsimp only
    rw [if_neg hwhole.1, if_neg hwhole.2, groupPaths_eq]
    exact List.ext_getElem (by simp [Entry.paths]) fun i _ _ => by simp [piece, Entry.paths]

/-- The loop makes the list of `splitRoutesAndServicesByPath`. -/
theorem splitAll_routes (uuid : String → String)
    (routesAndServices : List (Route × Option Service)) :
    (splitAll uuid (routesAndServices.map fun entry =>
          { route := entry.1, service := entry.2 })).map
        (fun p => (p.route, p.service))
      = splitRoutesAndServicesByPath uuid routesAndServices := by
  rw [splitAll_eq, List.map_append, splitRoutesAndServicesByPath, List.flatMap_map,
    List.flatMap_map, List.map_flatMap, List.map_flatMap]
  congr 1
  · refine List.flatMap_congr fun entry _ => ?_
    obtain ⟨r, service⟩ := entry
    rw [List.map_take, piecesOf_routes, ← List.map_take]
    dsimp only
    cases splitRoute uuid r <;> rfl
  · refine List.flatMap_congr fun entry _ => ?_
    obtain ⟨r, service⟩ := entry
    rw [List.map_drop, piecesOf_routes, ← List.map_drop, List.drop_one]

/-! ## The pieces of a route -/

/-- What the three assertions of `get_priority` ask for. -/
structure Asserted (r : Route) : Prop where
  mixed : ∀ p ∈ r.paths.getD [], ∀ q ∈ r.paths.getD [], isRegexMagic p = isRegexMagic q
  lengths : ∀ p ∈ r.paths.getD [], ∀ q ∈ r.paths.getD [], isRegexMagic p = false →
    p.length = q.length
  weight : matchWeight r ≤ 7

/-- The pieces `pieces` of the route of `e`. -/
structure PiecesOf (uuid : String → String) (e : Entry Service) (pieces : List (Entry Service)) :
    Prop where
  paths : Partition e.paths (pieces.map Entry.paths)
  service : ∀ p ∈ pieces, p.service = e.service
  /-- A route that is not split is kept; a piece is the original route
  with other paths and a new id, and it knows the original. -/
  fields : pieces = [e]
    ∨ ∀ p ∈ pieces, { p.route with paths := e.route.paths, id := e.route.id } = e.route
      ∧ p.originalRoute = some e.route
      ∧ ∃ index, p.route.id = some (uuid (e.route.id.getD "" ++ "#" ++ toString (index + 1)))
  /-- The assertions hold where they are checked, and none fails. -/
  asserted : ∀ p ∈ pieces, (p.route.expression = none → Asserted p.route)
    ∧ ∃ priority, getPriority p.route = .ok priority

theorem OneGroup.mixed {paths : List String} (h : OneGroup paths) (hne : ∀ p ∈ paths, p ≠ "") :
    (∀ p ∈ paths, ∀ q ∈ paths, isRegexMagic p = isRegexMagic q)
      ∧ ∀ p ∈ paths, ∀ q ∈ paths, isRegexMagic p = false → p.length = q.length := by
  have hpos : ∀ p ∈ paths, 0 < p.length := fun p hp =>
    Nat.pos_of_ne_zero fun hzero => hne p hp (String.length_eq_zero_iff.mp hzero)
  have hmixed : ∀ p ∈ paths, ∀ q ∈ paths, isRegexMagic p = isRegexMagic q := by
    intro p hp q hq
    have hkey := h p hp q hq
    have hp' := hpos p hp
    have hq' := hpos q hq
    unfold pathKey at hkey
    cases hregex : isRegexMagic p <;> cases hregex' : isRegexMagic q <;>
      simp only [hregex, hregex', if_true, if_false, Bool.false_eq_true] at hkey
    · rfl
    · omega
    · omega
    · rfl
  refine ⟨hmixed, fun p hp q hq hregex => ?_⟩
  have hkey := h p hp q hq
  have hregex' := (hmixed p hp q hq).symm.trans hregex
  simpa [pathKey, hregex, hregex'] using hkey

theorem asserted_of_oneGroup {r : Route} (hne : ∀ p ∈ r.paths.getD [], p ≠ "")
    (hgroup : r.expression = none → OneGroup (r.paths.getD [])) :
    (r.expression = none → Asserted r) ∧ ∃ priority, getPriority r = .ok priority := by
  constructor
  · intro hexpression
    obtain ⟨hmixed, hlengths⟩ := (hgroup hexpression).mixed hne
    exact ⟨hmixed, hlengths, matchWeight_le r⟩
  · rw [getPriority]
    by_cases hexpression : r.expression.isSome = true
    · exact ⟨_, if_pos hexpression⟩
    · rw [if_neg hexpression]
      by_cases hstream : isStreamRoute r = true
      · exact ⟨_, if_pos hstream⟩
      · have hnone : r.expression = none := by simpa using hexpression
        rw [if_neg hstream, regexUrlAndLength_eq hne (hgroup hnone)]
        exact ⟨_, if_pos (matchWeight_le r)⟩

theorem oneGroup_of_staysWhole {e : Entry Service} (hwhole : staysWhole e = true)
    (hexpression : e.route.expression = none) : OneGroup e.paths := by
  unfold staysWhole at hwhole
  rw [hexpression, groupPaths_eq] at hwhole
  simp only [Option.isSome_none, Bool.or_false, Bool.or_eq_true, decide_eq_true_eq] at hwhole
  rcases hwhole with (hempty | hone) | hone
  · intro p hp
    unfold Entry.paths at hp
    cases hpaths : e.route.paths with
    | none => simp [hpaths] at hp
    | some paths =>
      have hnil : paths = [] := by simpa [isEmptyField, hpaths] using hempty
      simp [hpaths, hnil] at hp
  · obtain ⟨path, hpath⟩ := List.length_eq_one_iff.mp hone
    intro p hp q hq
    rw [hpath, List.mem_singleton] at hp hq
    rw [hp, hq]
  · exact (groupByRegexOrLength_spec e.paths).2 hone

theorem piecesOf_spec (uuid : String → String) {e : Entry Service}
    (hne : ∀ p ∈ e.paths, p ≠ "") : PiecesOf uuid e (piecesOf uuid e) := by
  unfold piecesOf
  split_ifs with hwhole
  · have hpartition : Partition e.paths ([e].map Entry.paths) := by
      refine ⟨by simp, by simp, by simp⟩
    refine ⟨hpartition, by simp, .inl rfl, ?_⟩
    intro p hp
    rw [List.mem_singleton.mp hp]
    exact asserted_of_oneGroup hne (oneGroup_of_staysWhole hwhole)
  · obtain ⟨groups, hgroups, hgrouped⟩ := groupsOf_groupPaths e.paths
    have hpartition := hgroups.partition
    rw [← hgrouped] at hpartition
    have hpaths : ((groupPaths e.paths).grouped.mapIdx fun index group =>
        piece uuid e (index + 1) group).map Entry.paths = (groupPaths e.paths).grouped := by
      exact List.ext_getElem (by simp) fun i _ _ => by simp [piece, Entry.paths]
    refine ⟨by rwa [hpaths], ?_, .inr ?_, ?_⟩
    · intro p hp
      obtain ⟨index, _, rfl⟩ := List.mem_mapIdx.mp hp
      rfl
    · intro p hp
      obtain ⟨index, _, rfl⟩ := List.mem_mapIdx.mp hp
      exact ⟨rfl, rfl, index, rfl⟩
    · intro p hp
      obtain ⟨index, hindex, rfl⟩ := List.mem_mapIdx.mp hp
      have hgroup : (groupPaths e.paths).grouped[index] ∈ groupByRegexOrLength e.paths := by
        rw [← groupPaths_eq]
        exact List.getElem_mem hindex
      obtain ⟨hone, hsub⟩ := (groupByRegexOrLength_spec e.paths).1 _ hgroup
      exact asserted_of_oneGroup (fun path hpath => hne path (hsub hpath)) fun _ => hone

/-- **Splitting by path keeps the routes**: the list in the end is made
of the pieces of the routes, and the pieces of each route are those of
`PiecesOf`. -/
theorem split_preserves_routes (uuid : String → String) (list : List (Entry Service))
    (hne : ∀ e ∈ list, ∀ p ∈ e.paths, p ≠ "") :
    splitAll uuid list = (list.flatMap fun e => (piecesOf uuid e).take 1)
        ++ (list.flatMap fun e => (piecesOf uuid e).drop 1)
      ∧ ∀ e ∈ list, PiecesOf uuid e (piecesOf uuid e) :=
  ⟨splitAll_eq uuid list, fun e he => piecesOf_spec uuid (hne e he)⟩

/-- A route with paths of two groups. -/
def twoGroups : Entry Unit where
  route := { id := some "r", paths := some ["/a", "~/b", "/c"] }
  service := some ()

theorem split_preserves_two_groups :
    splitAll id [twoGroups] = ([twoGroups].flatMap fun e => (piecesOf id e).take 1)
        ++ ([twoGroups].flatMap fun e => (piecesOf id e).drop 1)
      ∧ ∀ e ∈ [twoGroups], PiecesOf id e (piecesOf id e) :=
  split_preserves_routes id [twoGroups] (by decide)

/-- A piece has an id of its own. -/
theorem piece_has_new_id :
    ¬ ∀ (uuid : String → String) (e : Entry Unit), (∀ p ∈ e.paths, p ≠ "") →
      ∀ p ∈ piecesOf uuid e, { p.route with paths := e.route.paths } = e.route := by
  intro hall
  have hpiece := hall id twoGroups (by decide) (piece id twoGroups 1 ["/a", "/c"]) (by decide)
  exact absurd (congrArg (fun r : Route => r.id) hpiece) (by decide)

end KongGateway.Kong.Router.Transform

import Mathlib.Data.List.Dedup
import Mathlib.Data.List.Pairwise
import KongGateway.Lib.MapM
import KongGateway.Kong.Db.Schema.DeclarativeConfig

/-!
# Flatten — what an accepted configuration becomes
-/

namespace KongGateway.Kong.Db.DeclarativeConfig

open Bytes Declarative

/-! ## Declared entities -/

/-- The entities of an input, at any depth. -/
def declared (p : Params) (input : Input) : List Visit := visits p none 0 input

def Visit.id (p : Params) (visit : Visit) : Text :=
  match p.schema visit.entity with
  | some schema => pkString schema.toSchema visit.own.get
  | none => []

def Visit.key (p : Params) (visit : Visit) : Text × Text := (visit.entity, visit.id p)

/-- The entity that an item is in comes among the items, or is the one
around all of them. -/
def ParentAmong (parent : Option Parent) (items : List Visit) : Prop :=
  ∀ visit ∈ items, visit.parent = parent
    ∨ ∃ other ∈ items, visit.parent = some ⟨other.entity, other.own⟩

theorem ParentAmong.append {parent : Option Parent} {items rest : List Visit}
    (h : ParentAmong parent items) (hrest : ParentAmong parent rest) :
    ParentAmong parent (items ++ rest) := by
  intro visit hvisit
  rcases List.mem_append.mp hvisit with hvisit | hvisit
  · rcases h visit hvisit with hparent | ⟨other, hother, hparent⟩
    · exact .inl hparent
    · exact .inr ⟨other, List.mem_append_left rest hother, hparent⟩
  · rcases hrest visit hvisit with hparent | ⟨other, hother, hparent⟩
    · exact .inl hparent
    · exact .inr ⟨other, List.mem_append_right items hother, hparent⟩

mutual

theorem parentAmong_visits (p : Params) (parent : Option Parent) (parentIdx : Nat) :
    (input : Input) → ParentAmong parent (visits p parent parentIdx input)
  | [] => by
    intro visit hvisit
    cases hvisit
  | (entity, items) :: rest => by
    rw [visits]
    refine ParentAmong.append ?_ (parentAmong_visits p parent parentIdx rest)
    split
    · intro visit hvisit
      cases hvisit
    · exact parentAmong_visitsItems p parent parentIdx entity 1 items

theorem parentAmong_visitsItems (p : Params) (parent : Option Parent) (parentIdx : Nat)
    (entity : Text) (i : Nat) :
    (items : List Item) → ParentAmong parent (visitsItems p parent parentIdx entity i items)
  | [] => by
    intro visit hvisit
    cases hvisit
  | item :: rest => by
    rw [visitsItems]
    exact (parentAmong_visitsItem p parent parentIdx entity i item).append
      (parentAmong_visitsItems p parent parentIdx entity (i + 1) rest)

theorem parentAmong_visitsItem (p : Params) (parent : Option Parent) (parentIdx : Nat)
    (entity : Text) (i : Nat) :
    (item : Item) → ParentAmong parent (visitsItem p parent parentIdx entity i item)
  | .mk own nested => by
    rw [visitsItem]
    intro visit hvisit
    rcases List.mem_append.mp hvisit with hvisit | hvisit
    · refine .inr ?_
      rcases parentAmong_visits p (some ⟨entity, own⟩) i nested visit hvisit with
        hparent | ⟨other, hother, hparent⟩
      · exact ⟨_, List.mem_append_right _ List.mem_cons_self, hparent⟩
      · exact ⟨other, List.mem_append_left _ hother, hparent⟩
    · obtain rfl := List.mem_singleton.mp hvisit
      exact .inl rfl

end

/-! ## Generated ids -/

/-- An item before and after `generate_ids`. -/
def Given (p : Params) (visit done : Visit) : Prop :=
  done.entity = visit.entity ∧ generateId p done.parent visit.entity visit.own = .ok done.own

theorem isField_congr (p : Params) {parent parent' : Option Parent}
    (h : parent.map Parent.entity = parent'.map Parent.entity) (entity : Text) :
    isField p parent entity = isField p parent' entity := by
  unfold isField
  cases parent with
  | none =>
    cases parent' with
    | none => rfl
    | some parent' => cases h
  | some parent =>
    cases parent' with
    | none => cases h
    | some parent' =>
      have heq : parent.entity = parent'.entity := by simpa using h
      simp [heq]

mutual

theorem given_generateIds {p : Params} {parent parent' : Option Parent} {parentIdx : Nat}
    (hparent : parent.map Parent.entity = parent'.map Parent.entity) :
    {input done : Input} → generateIds p parent' input = .ok done →
      List.Forall₂ (Given p) (visits p parent parentIdx input) (visits p parent' parentIdx done)
  | [], done, h => by
    obtain rfl := Except.ok.inj h
    exact .nil
  | (entity, items) :: rest, done, h => by
    rw [generateIds] at h
    obtain ⟨items', hitems, h⟩ := MapM.bind_ok h
    obtain ⟨rest', hrest, h⟩ := MapM.bind_ok h
    obtain rfl := Except.ok.inj h
    rw [visits, visits, isField_congr p hparent]
    refine List.rel_append ?_ (given_generateIds hparent hrest)
    split at hitems
    · rename_i hfield
      rw [if_pos hfield, if_pos hfield]
      exact .nil
    · rename_i hfield
      rw [if_neg hfield, if_neg hfield]
      exact given_generateIdsItems hparent hitems

theorem given_generateIdsItems {p : Params} {parent parent' : Option Parent} {parentIdx i : Nat}
    {entity : Text} (hparent : parent.map Parent.entity = parent'.map Parent.entity) :
    {items done : List Item} → generateIdsItems p parent' entity items = .ok done →
      List.Forall₂ (Given p) (visitsItems p parent parentIdx entity i items)
        (visitsItems p parent' parentIdx entity i done)
  | [], done, h => by
    obtain rfl := Except.ok.inj h
    exact .nil
  | item :: rest, done, h => by
    rw [generateIdsItems] at h
    obtain ⟨item', hitem, h⟩ := MapM.bind_ok h
    obtain ⟨rest', hrest, h⟩ := MapM.bind_ok h
    obtain rfl := Except.ok.inj h
    rw [visitsItems, visitsItems]
    exact List.rel_append (given_generateIdsItem hitem)
      (given_generateIdsItems hparent hrest)

theorem given_generateIdsItem {p : Params} {parent parent' : Option Parent} {parentIdx i : Nat}
    {entity : Text} :
    {item done : Item} → generateIdsItem p parent' entity item = .ok done →
      List.Forall₂ (Given p) (visitsItem p parent parentIdx entity i item)
        (visitsItem p parent' parentIdx entity i done)
  | .mk own nested, done, h => by
    rw [generateIdsItem] at h
    obtain ⟨own', hown, h⟩ := MapM.bind_ok h
    obtain ⟨nested', hnested, h⟩ := MapM.bind_ok h
    obtain rfl := Except.ok.inj h
    rw [visitsItem, visitsItem]
    have hgiven : Given p ⟨parent, parentIdx, entity, i, own⟩ ⟨parent', parentIdx, entity, i, own'⟩ :=
      ⟨rfl, hown⟩
    have hentity : (some (⟨entity, own⟩ : Parent)).map Parent.entity
        = (some (⟨entity, own'⟩ : Parent)).map Parent.entity := rfl
    exact List.rel_append (given_generateIds hentity hnested) (.cons hgiven .nil)

end

/-! ## One item of `populate_references` -/

/-- What has been collected without an error. -/
structure Collects (p : Params) (done : List Visit) (found : Collected) : Prop where
  ids : found.ids = done.map (Visit.key p)
  nodup : found.ids.Nodup
  byId : ∀ entity id item, found.byId entity id = some item ↔
    ∃ visit ∈ done, visit.key p = (entity, id) ∧ withParent p visit = .ok item
  byKey : ∀ wsId entity key item, found.byKey wsId entity key = some item →
    ∃ visit ∈ done, visit.entity = entity ∧ withParent p visit = .ok item
      ∧ ∃ schema, p.schema entity = some schema ∧ useKey schema visit.own = some (wsId, key)
  expected : ∀ visit ∈ done, ∀ schema, p.schema visit.entity = some schema →
    ∀ expected ∈ expectedOf p schema visit, expected ∈ found.expected
  known : ∀ visit ∈ done, ∃ schema item, p.schema visit.entity = some schema
    ∧ withParent p visit = .ok item

theorem orRaise_ok {α : Type} {o : Option α} {a : α} (h : orRaise o = .ok a) : o = some a := by
  cases o with
  | none => cases h
  | some b => exact congrArg some (Except.ok.inj h)

theorem collects_nil (p : Params) : Collects p [] .empty where
  ids := rfl
  nodup := List.nodup_nil
  byId := by simp [Collected.empty]
  byKey := by simp [Collected.empty]
  expected := by simp
  known := by simp

section Step

variable {p : Params} {schema : EntitySchema} {visit : Visit} {item : Entity} {found : Collected}

theorem addToByKey_errs (h : (addToByKey schema visit item found).2.errs = []) :
    found.errs = [] ∧ (addToByKey schema visit item found).1 = false := by
  unfold addToByKey at h ⊢
  cases hkey : useKey schema visit.own with
  | none => simpa [hkey] using h
  | some key =>
    simp only [hkey] at h ⊢
    split at h
    · simp at h
    · rename_i hnone
      simp only [hnone]
      exact ⟨h, rfl⟩

theorem addToById_errs {id : Text} {failed : Bool}
    (h : (addToById visit item id failed found).errs = []) :
    found.errs = [] ∧ (failed = false → found.byId visit.entity id = none) := by
  unfold addToById at h
  split at h
  · simp at h
  · rename_i hnone
    refine ⟨h, ?_⟩
    rintro rfl
    simpa using hnone

theorem addToByKey_byKey {wsId entity key : Text} {other : Entity}
    (h : (addToByKey schema visit item found).2.byKey wsId entity key = some other) :
    found.byKey wsId entity key = some other
      ∨ (entity = visit.entity ∧ other = item ∧ useKey schema visit.own = some (wsId, key)) := by
  unfold addToByKey at h
  cases hkey : useKey schema visit.own with
  | none => exact .inl (by simpa [hkey] using h)
  | some pair =>
    simp only [hkey] at h
    split at h
    · exact .inl h
    · simp only at h
      split at h
      · rename_i heq
        obtain ⟨rfl, rfl, rfl⟩ := heq
        exact .inr ⟨rfl, (Option.some.inj h).symm, rfl⟩
      · exact .inl h

theorem addToByKey_rest (schema : EntitySchema) (visit : Visit) (item : Entity)
    (found : Collected) :
    (addToByKey schema visit item found).2.ids = found.ids
      ∧ (addToByKey schema visit item found).2.byId = found.byId
      ∧ (addToByKey schema visit item found).2.expected = found.expected := by
  unfold addToByKey
  cases useKey schema visit.own with
  | none => exact ⟨rfl, rfl, rfl⟩
  | some key =>
    simp only
    split
    · exact ⟨rfl, rfl, rfl⟩
    · exact ⟨rfl, rfl, rfl⟩

theorem collect_ok {found' : Collected} (h : collect p found visit = .ok found')
    (herrs : found'.errs = []) :
    ∃ schema item, p.schema visit.entity = some schema ∧ withParent p visit = .ok item
      ∧ found.errs = [] ∧ found.byId visit.entity (visit.id p) = none
      ∧ found'.ids = found.ids ++ [visit.key p]
      ∧ (∀ entity id, found'.byId entity id
          = if entity = visit.entity ∧ id = visit.id p then some item else found.byId entity id)
      ∧ found'.byKey = (addToByKey schema visit item found).2.byKey
      ∧ found'.expected = found.expected ++ expectedOf p schema visit := by
  unfold collect at h
  obtain ⟨schema, hschema, h⟩ := MapM.bind_ok h
  obtain ⟨item, hitem, h⟩ := MapM.bind_ok h
  have hschema := orRaise_ok hschema
  have hid : visit.id p = pkString schema.toSchema visit.own.get := by simp [Visit.id, hschema]
  obtain rfl := Except.ok.inj h
  obtain ⟨hkeyErrs, hnone⟩ := addToById_errs herrs
  obtain ⟨hfound, hfailed⟩ := addToByKey_errs hkeyErrs
  obtain ⟨hids, hbyId, hexpected⟩ :=
    addToByKey_rest schema visit item found
  have hnone : found.byId visit.entity (visit.id p) = none := by
    rw [hid, ← hbyId]
    exact hnone hfailed
  have hadd : addToById visit item (pkString schema.toSchema visit.own.get)
      (addToByKey schema visit item found).1 (addToByKey schema visit item found).2
      = { (addToByKey schema visit item found).2 with
          ids := (addToByKey schema visit item found).2.ids ++ [visit.key p]
          byId := fun entity id =>
            if entity = visit.entity ∧ id = visit.id p then some item
            else (addToByKey schema visit item found).2.byId entity id } := by
    unfold addToById
    rw [hbyId, ← hid, hnone, Visit.key]
    simp
  refine ⟨schema, item, hschema, hitem, hfound, hnone, ?_, fun entity id => ?_, ?_, ?_⟩
  · simp only [hadd, hids]
  · simp only [hadd, hbyId]
  · simp only [hadd]
  · simp only [hadd, hexpected]

theorem collects_step {done : List Visit} {found' : Collected} (hdone : Collects p done found)
    (h : collect p found visit = .ok found') (herrs : found'.errs = []) :
    Collects p (done ++ [visit]) found' := by
  obtain ⟨schema, item, hschema, hitem, -, hnone, hids, hbyId, hbyKey, hexpected⟩ :=
    collect_ok h herrs
  have hnotMem : visit.key p ∉ found.ids := by
    rw [hdone.ids]
    intro hmem
    obtain ⟨other, hother, hkey⟩ := List.mem_map.mp hmem
    obtain ⟨-, item', -, hitem'⟩ := hdone.known other hother
    have hsome := (hdone.byId visit.entity (visit.id p) item').mpr ⟨other, hother, hkey, hitem'⟩
    rw [hnone] at hsome
    cases hsome
  constructor
  · rw [hids, hdone.ids, List.map_append]
    rfl
  · rw [hids]
    exact List.nodup_append.mpr ⟨hdone.nodup, List.nodup_singleton _, fun a ha b hb => by
      rw [List.mem_singleton.mp hb]
      rintro rfl
      exact hnotMem ha⟩
  · intro entity id other
    rw [hbyId]
    by_cases hcond : entity = visit.entity ∧ id = visit.id p
    · obtain ⟨rfl, rfl⟩ := hcond
      rw [if_pos ⟨rfl, rfl⟩]
      constructor
      · intro heq
        obtain rfl := Option.some.inj heq
        exact ⟨visit, List.mem_append_right _ List.mem_cons_self, rfl, hitem⟩
      · rintro ⟨v, hv, hkey, hother⟩
        rcases List.mem_append.mp hv with hv | hv
        · have hmem : v.key p ∈ found.ids := hdone.ids ▸ List.mem_map_of_mem hv
          rw [hkey] at hmem
          exact absurd hmem hnotMem
        · obtain rfl := List.mem_singleton.mp hv
          exact congrArg some (Except.ok.inj (hitem.symm.trans hother))
    · rw [if_neg hcond, hdone.byId]
      constructor
      · rintro ⟨v, hv, hrest⟩
        exact ⟨v, List.mem_append_left _ hv, hrest⟩
      · rintro ⟨v, hv, hkey, hother⟩
        rcases List.mem_append.mp hv with hv | hv
        · exact ⟨v, hv, hkey, hother⟩
        · obtain rfl := List.mem_singleton.mp hv
          simp only [Visit.key, Prod.mk.injEq] at hkey
          exact absurd ⟨hkey.1.symm, hkey.2.symm⟩ hcond
  · intro wsId entity key other hother
    rw [hbyKey] at hother
    rcases addToByKey_byKey hother with hold | ⟨rfl, rfl, hkey⟩
    · obtain ⟨v, hv, hrest⟩ := hdone.byKey wsId entity key other hold
      exact ⟨v, List.mem_append_left _ hv, hrest⟩
    · exact ⟨visit, List.mem_append_right _ List.mem_cons_self, rfl, hitem, schema, hschema, hkey⟩
  · intro v hv schema' hschema' expected hmem
    rw [hexpected]
    rcases List.mem_append.mp hv with hv | hv
    · exact List.mem_append_left _ (hdone.expected v hv schema' hschema' expected hmem)
    · obtain rfl := List.mem_singleton.mp hv
      obtain rfl := Option.some.inj (hschema.symm.trans hschema')
      exact List.mem_append_right _ hmem
  · intro v hv
    rcases List.mem_append.mp hv with hv | hv
    · exact hdone.known v hv
    · obtain rfl := List.mem_singleton.mp hv
      exact ⟨schema, item, hschema, hitem⟩

end Step

/-- What `populate_references` collects without an error. -/
theorem collects_populateReferences {p : Params} {input : Input} {found : Collected}
    (h : populateReferences p input = .ok found) (herrs : found.errs = []) :
    Collects p (declared p input) found := by
  refine MapM.foldlM_invariant (fun done found => found.errs = [] → Collects p done found)
    (fun done visit s s' hinv hstep hs' => ?_) (fun _ => collects_nil p) h herrs
  obtain ⟨-, -, -, -, hs, -⟩ := collect_ok hstep hs'
  exact collects_step (hinv hs) hstep hs'

theorem validateReferences_ok {p : Params} {input : Input} {found : Collected}
    (h : validateReferences p input = .ok found) :
    Collects p (declared p input) found
      ∧ ∀ expected ∈ found.expected, expected.found found = true := by
  obtain ⟨found', hfound', h⟩ := MapM.bind_ok h
  split at h
  · rename_i herrs
    obtain rfl := Except.ok.inj h
    obtain ⟨hnil, hrefs⟩ := List.append_eq_nil_iff.mp herrs
    refine ⟨collects_populateReferences hfound' hnil, fun expected hmem => ?_⟩
    have hfilter := List.filter_eq_nil_iff.mp (List.map_eq_nil_iff.mp hrefs) expected hmem
    simpa using hfilter
  · cases h

/-! ## Unique fields -/

section Uniques

variable {p : Params} {found : Collected} {schema : EntitySchema}

/-- What a field adds to `uniques`. -/
def uniqueEntry (p : Params) (found : Collected) (schema : EntitySchema) (item : Entity)
    (field : Field) : Option (Text × Text) :=
  (uniqueField p found schema item field).map fun entry => (field.name, entry.1)

theorem checkUnique_ok {id : Text} {item : Entity} {uniques uniques' : Uniques} {field : Field}
    (h : checkUnique p found schema id item uniques field = .ok uniques')
    (herrs : uniques'.errs = []) :
    uniques.errs = []
      ∧ uniques'.seen = uniques.seen ++ (uniqueEntry p found schema item field).toList
      ∧ ∀ entry ∈ uniqueEntry p found schema item field, entry ∉ uniques.seen := by
  unfold checkUnique at h
  unfold uniqueEntry
  cases hfield : uniqueField p found schema item field with
  | none =>
    simp only [hfield] at h
    obtain rfl := Except.ok.inj h
    simp [herrs]
  | some entry =>
    obtain ⟨key, value⟩ := entry
    simp only [hfield] at h
    split at h
    · cases value with
      | text s =>
        obtain rfl := Except.ok.inj h
        simp at herrs
      | null => cases h
      | foreign fk => cases h
    · rename_i hmem
      obtain rfl := Except.ok.inj h
      refine ⟨herrs, ?_⟩
      simp [hmem]

theorem checkUniques_ok {id : Text} {item : Entity} {uniques uniques' : Uniques}
    {fields : List Field}
    (h : fields.foldlM (checkUnique p found schema id item) uniques = .ok uniques')
    (herrs : uniques'.errs = []) :
    uniques.errs = []
      ∧ uniques'.seen = uniques.seen ++ fields.filterMap (uniqueEntry p found schema item)
      ∧ (uniques.seen.Nodup → uniques'.seen.Nodup) := by
  have hinv := MapM.foldlM_invariant
    (fun done (u : Uniques) => u.errs = [] → uniques.errs = []
      ∧ u.seen = uniques.seen ++ done.filterMap (uniqueEntry p found schema item)
      ∧ (uniques.seen.Nodup → u.seen.Nodup)) ?_ (fun herrs => by simp [herrs]) h herrs
  · simpa using hinv
  · intro done field s s' hs hstep hs'
    obtain ⟨herrs, hseen, hnew⟩ := checkUnique_ok hstep hs'
    obtain ⟨hinit, hdone, hnodup⟩ := hs herrs
    refine ⟨hinit, ?_, fun hseed => ?_⟩
    · rw [hseen, hdone, List.filterMap_append, List.append_assoc]
      cases hentry : uniqueEntry p found schema item field <;> simp [hentry]
    · rw [hseen]
      cases hentry : uniqueEntry p found schema item field with
      | none => simpa using hnodup hseed
      | some entry =>
        have hnot := hnew entry hentry
        exact List.nodup_append.mpr ⟨hnodup hseed, List.nodup_singleton _, fun a ha b hb => by
          rw [List.mem_singleton.mp hb]
          rintro rfl
          exact hnot ha⟩

theorem checkUniquesAll_ok {entries : List (Text × Entity)} {uniques uniques' : Uniques}
    (h : entries.foldlM (fun uniques (entry : Text × Entity) =>
      schema.fields.foldlM (checkUnique p found schema entry.1 entry.2) uniques) uniques
        = .ok uniques')
    (herrs : uniques'.errs = []) (hseen : uniques.seen = []) :
    (entries.flatMap fun entry =>
      schema.fields.filterMap (uniqueEntry p found schema entry.2)).Nodup := by
  have hinv := MapM.foldlM_invariant
    (fun done (u : Uniques) => u.errs = [] →
      u.seen = (done.flatMap fun entry =>
        schema.fields.filterMap (uniqueEntry p found schema entry.2))
      ∧ u.seen.Nodup) ?_ (fun _ => by simp [hseen]) h herrs
  · rw [hinv.1] at hinv
    simpa using hinv.2
  · intro done entry s s' hs hstep hs'
    obtain ⟨herrs, hseen', hnodup⟩ := checkUniques_ok hstep hs'
    obtain ⟨hdone, hold⟩ := hs herrs
    exact ⟨by rw [hseen', hdone]; simp, hnodup hold⟩

end Uniques

/-! ## Flat entities -/

def Flat.key (flat : Flat) : Text × Text := (flat.entity, flat.id)

/-- The entities of one type. -/
structure TypeOk (p : Params) (found : Collected) (entity : Text) (flats : List Flat) : Prop where
  keys : flats.map Flat.key = found.ids.filter fun id => id.1 = entity
  entries : ∃ schema, p.schema entity = some schema
    ∧ (∀ flat ∈ flats, ∃ item, found.byId entity flat.id = some item
        ∧ flat.entity = entity ∧ flat.entry = flatEntry p found schema item)
    ∧ ∀ flat ∈ flats, ∀ flat' ∈ flats, ∀ item item', found.byId entity flat.id = some item →
        found.byId entity flat'.id = some item' → ∀ field ∈ schema.fields, ∀ entry,
        uniqueEntry p found schema item field = some entry →
        uniqueEntry p found schema item' field = some entry → flat.id = flat'.id

section Flat

variable {p : Params} {found : Collected}

theorem entryOf_ok {entity id : Text} {entry : Text × Entity}
    (h : entryOf found entity id = .ok entry) :
    entry.1 = id ∧ found.byId entity id = some entry.2 := by
  obtain ⟨item, hitem, h⟩ := MapM.bind_ok h
  obtain rfl := Except.ok.inj h
  exact ⟨rfl, orRaise_ok hitem⟩

theorem typeOk_flattenType {entity : Text} {result : List Flat × List Err}
    (h : flattenType p found entity = .ok result) (herrs : result.2 = []) :
    TypeOk p found entity result.1 := by
  obtain ⟨schema, hschema, h⟩ := MapM.bind_ok h
  obtain ⟨entries, hentries, h⟩ := MapM.bind_ok h
  obtain ⟨uniques, huniques, h⟩ := MapM.bind_ok h
  obtain rfl := Except.ok.inj h
  have hfirst : entries.map Prod.fst = (found.ids.filter fun id => id.1 = entity).map Prod.snd :=
    MapM.map_of_ok (fun id entry hentry => (entryOf_ok hentry).1) hentries
  have hbyId : ∀ entry ∈ entries, found.byId entity entry.1 = some entry.2 := by
    intro entry hentry
    obtain ⟨id, -, hid⟩ := MapM.mem_of_ok hentries hentry
    obtain ⟨rfl, hitem⟩ := entryOf_ok hid
    exact hitem
  constructor
  · have hkeys : (entries.map fun entry =>
          Flat.mk entity entry.1 (flatEntry p found schema entry.2)).map Flat.key
        = (entries.map Prod.fst).map (entity, ·) := by
      simp [Flat.key, Function.comp_def]
    rw [hkeys, hfirst, List.map_map]
    refine (List.map_congr_left fun id hid => ?_).trans (List.map_id _)
    have hentity : id.1 = entity := by simpa using (List.mem_filter.mp hid).2
    simp [← hentity]
  · refine ⟨schema, orRaise_ok hschema, fun flat hflat => ?_, ?_⟩
    · obtain ⟨entry, hentry, rfl⟩ := List.mem_map.mp hflat
      exact ⟨entry.2, hbyId entry hentry, rfl, rfl⟩
    · intro flat hflat flat' hflat' item item' hitem hitem' field hfield key hkey hkey'
      obtain ⟨entry, hentry, rfl⟩ := List.mem_map.mp hflat
      obtain ⟨entry', hentry', rfl⟩ := List.mem_map.mp hflat'
      obtain rfl := Option.some.inj ((hbyId entry hentry).symm.trans hitem)
      obtain rfl := Option.some.inj ((hbyId entry' hentry').symm.trans hitem')
      by_contra hne
      have hpairs := (List.nodup_flatMap.mp (checkUniquesAll_ok huniques herrs rfl)).2
      have hsymm : Std.Symm (Function.onFun List.Disjoint fun entry : Text × Entity =>
          schema.fields.filterMap (uniqueEntry p found schema entry.2)) :=
        ⟨fun a b hab => List.Disjoint.symm hab⟩
      have hdisjoint := hpairs.forall hentry hentry' fun heq => hne (congrArg Prod.fst heq)
      exact hdisjoint (List.mem_filterMap.mpr ⟨field, hfield, hkey⟩)
        (List.mem_filterMap.mpr ⟨field, hfield, hkey'⟩)

theorem flattenEntities_ok {flats : List Flat} (h : flattenEntities p found = .ok flats) :
    ∃ ofType : Text → List Flat,
      flats = (found.ids.map Prod.fst).dedup.flatMap ofType
      ∧ ∀ entity ∈ found.ids.map Prod.fst, TypeOk p found entity (ofType entity) := by
  obtain ⟨types, htypes, h⟩ := MapM.bind_ok h
  split at h
  · rename_i herrs
    obtain rfl := Except.ok.inj h
    refine ⟨fun entity => MapM.okOr [] ((flattenType p found entity).map Prod.fst),
      MapM.flatMap_of_ok htypes, fun entity hentity => ?_⟩
    obtain ⟨result, hresult, hok⟩ := MapM.ok_of_mem htypes (List.mem_dedup.mpr hentity)
    have hnil : result.2 = [] := List.flatMap_eq_nil_iff.mp herrs result hresult
    simp only [hok]
    exact typeOk_flattenType hok hnil
  · cases h

theorem perm_keys {flats : List Flat} (hnodup : found.ids.Nodup) {ofType : Text → List Flat}
    (hflats : flats = (found.ids.map Prod.fst).dedup.flatMap ofType)
    (hok : ∀ entity ∈ found.ids.map Prod.fst, TypeOk p found entity (ofType entity)) :
    (flats.map Flat.key).Perm found.ids := by
  have hkeys : flats.map Flat.key = (found.ids.map Prod.fst).dedup.flatMap fun entity =>
      found.ids.filter fun id => id.1 = entity := by
    rw [hflats, List.map_flatMap]
    exact List.flatMap_congr fun entity hentity => (hok entity (List.mem_dedup.mp hentity)).keys
  have hdisjoint : (found.ids.map Prod.fst).dedup.Pairwise fun a b =>
      List.Disjoint (found.ids.filter fun id => id.1 = a) (found.ids.filter fun id => id.1 = b) := by
    refine (List.nodup_dedup _).imp fun {a b} hne id ha hb => hne ?_
    have ha : id.1 = a := by simpa using (List.mem_filter.mp ha).2
    have hb : id.1 = b := by simpa using (List.mem_filter.mp hb).2
    exact ha.symm.trans hb
  rw [hkeys, List.perm_ext_iff_of_nodup
    (List.nodup_flatMap.mpr ⟨fun entity _ => hnodup.filter _, hdisjoint⟩) hnodup]
  intro id
  simp only [List.mem_flatMap, List.mem_dedup, List.mem_filter, decide_eq_true_eq]
  constructor
  · rintro ⟨entity, -, hid, -⟩
    exact hid
  · intro hid
    exact ⟨id.1, List.mem_map_of_mem hid, hid, rfl⟩

end Flat

end KongGateway.Kong.Db.DeclarativeConfig

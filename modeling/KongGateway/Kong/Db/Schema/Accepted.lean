import KongGateway.Kong.Db.Schema.Flatten

/-!
# Accepted — an accepted configuration is sound

Every declared entity is in the result once, under its primary key; the
foreign keys of the result are primary keys of entities in it; the values
of unique fields differ within a workspace.

The cache keys of entities that come with ids are not compared. Ids that
are generated from the same key are the same, so that of two such entities
one is refused.
-/

namespace KongGateway.Kong.Db.DeclarativeConfig

open Bytes Declarative

/-! ## Fields -/

theorem lookup_filterMap {α β : Type} {name : α → Text} {f : α → Option β} {l : List α}
    (hnodup : (l.map name).Nodup) {x : α} (hx : x ∈ l) :
    (l.filterMap fun y => (f y).map fun value => (name y, value)).lookup (name x) = f x := by
  induction l with
  | nil => cases hx
  | cons a l ih =>
    obtain ⟨hnot, hrest⟩ := List.nodup_cons.mp hnodup
    rcases List.mem_cons.mp hx with rfl | hx
    · cases hf : f x with
      | some value => simp [hf]
      | none =>
        simp only [List.filterMap_cons, hf, Option.map_none]
        rw [List.lookup_eq_none_iff]
        intro entry hentry
        obtain ⟨y, hy, heq⟩ := List.mem_filterMap.mp hentry
        obtain ⟨value, -, rfl⟩ := Option.map_eq_some_iff.mp heq
        have hne : name x ≠ name y := fun h => hnot (h ▸ List.mem_map_of_mem hy)
        simpa using hne
    · have hne : name x ≠ name a := fun h => hnot (h ▸ List.mem_map_of_mem hx)
      cases hf : f a with
      | some value =>
        simp only [List.filterMap_cons, hf, Option.map_some, List.lookup_cons,
          beq_false_of_ne hne]
        exact ih hrest hx
      | none =>
        simp only [List.filterMap_cons, hf, Option.map_none]
        exact ih hrest hx

theorem get_flatEntry (p : Params) (found : Collected) (schema : EntitySchema) (item : Entity)
    {field : Field} (hfield : field ∈ schema.fields) :
    (flatEntry p found schema item).get field.name = flatValue p found item field :=
  lookup_filterMap schema.names_nodup hfield

theorem lookup_filter_ne {l : List (Text × FieldValue)} {name k : Text} (hk : k ≠ name) :
    (l.filter fun field => field.1 ≠ name).lookup k = l.lookup k := by
  induction l with
  | nil => rfl
  | cons field l ih =>
    by_cases hname : field.1 = name
    · have hne : k ≠ field.1 := hname ▸ hk
      rw [List.filter_cons_of_neg (by simpa using hname), ih, List.lookup_cons,
        beq_false_of_ne hne]
    · rw [List.filter_cons_of_pos (by simpa using hname), List.lookup_cons, List.lookup_cons, ih]

theorem get_set (item : Entity) (name k : Text) (value : FieldValue) :
    (Entity.set item name value).get k = if k = name then some value else item.get k := by
  by_cases hk : k = name
  · simp [Entity.set, Entity.get, hk]
  · rw [if_neg hk]
    simp only [Entity.set, Entity.get, List.lookup_cons, beq_false_of_ne hk]
    exact lookup_filter_ne hk

theorem schema_name {p : Params} {entity : Text} {schema : EntitySchema}
    (h : p.schema entity = some schema) : schema.name = entity := by
  simpa using List.find?_some h

theorem field_unique (schema : EntitySchema) {field field' : Field} (hfield : field ∈ schema.fields)
    (hfield' : field' ∈ schema.fields) (h : field.name = field'.name) : field = field' :=
  List.inj_on_of_nodup_map schema.names_nodup hfield hfield' h

theorem foreignChild_some {p : Params} {parent entity k : Text} {schema : EntitySchema}
    (hschema : p.schema entity = some schema) (h : foreignChild p parent entity = some k) :
    ∃ field ∈ schema.fields, field.name = k ∧ field.reference = some parent := by
  simp only [foreignChild, hschema, Option.bind_eq_bind, Option.bind_some,
    Option.bind_eq_some_iff, Option.some.injEq] at h
  obtain ⟨field, hfind, rfl⟩ := h
  refine ⟨field, List.mem_reverse.mp (List.mem_of_find?_eq_some hfind), rfl, ?_⟩
  simpa using List.find?_some hfind

section Parent

variable {p : Params} {visit : Visit} {item : Entity} {schema : EntitySchema}

/-- An item has its own fields, but for the key of the entity it is in. -/
theorem withParent_get (h : withParent p visit = .ok item) (k : Text) :
    item.get k = visit.own.get k
      ∨ ∃ parent fk, visit.parent = some parent ∧ parentFk p parent = .ok fk
          ∧ foreignChild p parent.entity visit.entity = some k
          ∧ item.get k = some (.foreign fk) := by
  unfold withParent at h
  cases hparent : visit.parent with
  | none =>
    simp only [hparent] at h
    obtain rfl := Except.ok.inj h
    exact .inl rfl
  | some parent =>
    simp only [hparent] at h
    obtain ⟨fk, hfk, h⟩ := MapM.bind_ok h
    obtain ⟨childKey, hchild, h⟩ := MapM.bind_ok h
    obtain rfl := Except.ok.inj h
    rw [get_set]
    by_cases hk : k = childKey
    · subst hk
      exact .inr ⟨parent, fk, rfl, hfk, orRaise_ok hchild, if_pos rfl⟩
    · exact .inl (if_neg hk)

theorem withParent_wsId (h : withParent p visit = .ok item) : wsIdFor item = wsIdFor visit.own := by
  unfold withParent at h
  cases hparent : visit.parent with
  | none =>
    simp only [hparent] at h
    obtain rfl := Except.ok.inj h
    rfl
  | some parent =>
    simp only [hparent] at h
    obtain ⟨fk, hfk, h⟩ := MapM.bind_ok h
    obtain ⟨childKey, hchild, h⟩ := MapM.bind_ok h
    obtain rfl := Except.ok.inj h
    rfl

theorem withParent_get_plain (hschema : p.schema visit.entity = some schema)
    (h : withParent p visit = .ok item) {field : Field} (hfield : field ∈ schema.fields)
    (hplain : field.reference = none) : item.get field.name = visit.own.get field.name := by
  rcases withParent_get h field.name with hown | ⟨parent, fk, -, -, hchild, -⟩
  · exact hown
  · obtain ⟨other, hother, hname, href⟩ := foreignChild_some hschema hchild
    obtain rfl := field_unique schema hother hfield hname
    rw [hplain] at href
    cases href

theorem get_flatEntry_plain (found : Collected) (hschema : p.schema visit.entity = some schema)
    (h : withParent p visit = .ok item) {field : Field} (hfield : field ∈ schema.fields)
    (hplain : field.reference = none) :
    (flatEntry p found schema item).get field.name = visit.own.get field.name := by
  rw [get_flatEntry p found schema item hfield, flatValue, hplain]
  exact withParent_get_plain hschema h hfield hplain

theorem get_flatEntry_primaryKey (found : Collected) (hschema : p.schema visit.entity = some schema)
    (h : withParent p visit = .ok item) {k : Text} (hk : k ∈ schema.primaryKey) :
    (flatEntry p found schema item).get k = visit.own.get k := by
  obtain ⟨field, hfield, rfl, hplain⟩ := schema.primaryKey_fields k hk
  exact get_flatEntry_plain found hschema h hfield hplain

end Parent

theorem pkString_congr_get {schema : Declarative.Schema} {object object' : Text → Option FieldValue}
    (h : ∀ k ∈ schema.primaryKey, object k = object' k) :
    pkString schema object = pkString schema object' := by
  unfold pkString
  have hparts : ∀ ks : List Text, (∀ k ∈ ks, object k = object' k) →
      ks.map (pkPart schema object) = ks.map (pkPart schema object') := by
    intro ks hks
    refine List.map_congr_left fun k hk => ?_
    simp only [pkPart, hks k hk]
  split
  · rename_i k hk
    rw [h k (hk ▸ List.mem_cons_self)]
  · rw [hparts _ h]

theorem extractPkValues_congr {schema : EntitySchema} {item item' : Entity}
    (h : ∀ k ∈ schema.primaryKey, item.get k = item'.get k) :
    extractPkValues schema item = extractPkValues schema item' := by
  unfold extractPkValues
  exact List.filterMap_congr fun k hk => by rw [h k hk]

/-! ## What the result is -/

/-- A declared entity and its entry in the result. -/
structure Appears (p : Params) (visit : Visit) (flat : Flat) : Prop where
  entity : flat.entity = visit.entity
  id : flat.id = visit.id p
  primaryKey : ∀ schema, p.schema visit.entity = some schema →
    flat.id = pkString schema.toSchema flat.entry.get
  fields : ∀ schema, p.schema visit.entity = some schema → ∀ field ∈ schema.fields,
    field.reference = none → flat.entry.get field.name = visit.own.get field.name

/-- A foreign key that an item gives as a table is `{ id = .. }`, and the id
is not also the endpoint key of an entity it may refer to. -/
def TableById (p : Params) (items : List Visit) (visit : Visit) (reference : Text)
    (key : List (Text × Text)) : Prop :=
  ∃ schema id, p.schema reference = some schema ∧ schema.primaryKey = [ofText "id"]
    ∧ key = [(ofText "id", id)]
    ∧ ∀ other ∈ items, other.entity = reference →
        useKey schema other.own ≠ some (wsIdFor visit.own, id)

/-- The foreign keys of the entry of an item are primary keys of entries. -/
def ForeignKeysFound (p : Params) (items : List Visit) (flats : List Flat) (visit : Visit)
    (flat : Flat) : Prop :=
  ∀ schema, p.schema flat.entity = some schema → ∀ field ∈ schema.fields,
    ∀ reference, field.reference = some reference →
    (∀ key, visit.own.get field.name = some (.foreign key) →
      TableById p items visit reference key) →
    ∀ value, flat.entry.get field.name = some value → value ≠ .null →
      ∃ target ∈ flats, target.entity = reference ∧ ∃ schema', p.schema reference = some schema'
        ∧ value = .foreign (extractPkValues schema' target.entry)

/-- A unique value that is compared: not a table in a type without
workspaces or in a field that is unique across them. -/
def Compared (schema : EntitySchema) (field : Field) : FieldValue → Prop
  | .null => False
  | .text _ => True
  | .foreign _ => schema.workspaceable = true ∧ field.uniqueAcrossWs = false

/-- Entities of one type and workspace differ in their unique fields. -/
def UniqueDiffer (p : Params) (items : List Visit) (flats : List Flat) : Prop :=
  ∀ visit ∈ items, ∀ visit' ∈ items, ∀ flat ∈ flats, ∀ flat' ∈ flats,
    Appears p visit flat → Appears p visit' flat' → visit.entity = visit'.entity →
    wsIdFor visit.own = wsIdFor visit'.own →
    ∀ schema, p.schema visit.entity = some schema → ∀ field ∈ schema.fields, field.unique = true →
    ∀ value, Compared schema field value → flat.entry.get field.name = some value →
      flat'.entry.get field.name = some value → flat = flat'

/-- The key that the id of an item is generated from; the second of the
pair is the item with its id. -/
def generatedKey (p : Params) (pair : Visit × Visit) : Option Text :=
  match p.schema pair.1.entity with
  | none => none
  | some schema =>
    match getKeyForUuidGen p schema pair.2.parent pair.1.entity pair.1.own with
    | .ok (some (_, key)) => some key
    | _ => none

/-- An item before and after `process_auto_fields`: what there is of its
primary key stays. -/
def Keeps (p : Params) (visit done : Visit) : Prop :=
  done.entity = visit.entity ∧ ∀ schema, p.schema visit.entity = some schema →
    ∀ k ∈ schema.primaryKey, ∀ value, visit.own.get k = some value → done.own.get k = some value

/-- What `process_auto_fields` does with the items of an accepted
configuration: a primary key of one field is a string afterwards. -/
structure Processes (p : Params) (input : Input) : Prop where
  keeps : ∀ generated processed, generateIds p none input = .ok generated →
    p.processAutoFields generated = some processed →
    List.Forall₂ (Keeps p) (declared p generated) (declared p processed)
  ids : ∀ generated processed, generateIds p none input = .ok generated →
    p.processAutoFields generated = some processed →
    ∀ visit ∈ declared p processed, ∀ schema, p.schema visit.entity = some schema →
      ∀ k, schema.primaryKey = [k] → ∃ s, visit.own.get k = some (.text s)

/-- The result of an accepted configuration. -/
structure Sound (p : Params) (input generated processed : Input) (flats : List Flat) : Prop where
  declared : List.Forall₂ (Keeps p) (declared p input) (declared p processed)
  once : (flats.map Flat.key).Nodup
    ∧ (flats.map Flat.key).Perm ((DeclarativeConfig.declared p processed).map (Visit.key p))
  appears : ∀ visit ∈ DeclarativeConfig.declared p processed, ∃ flat ∈ flats, Appears p visit flat
  references : ∀ flat ∈ flats, ∃ visit ∈ DeclarativeConfig.declared p processed,
    Appears p visit flat
      ∧ ForeignKeysFound p (DeclarativeConfig.declared p processed) flats visit flat
  unique : UniqueDiffer p (DeclarativeConfig.declared p processed) flats
  generated : ((DeclarativeConfig.declared p input).zip
      (DeclarativeConfig.declared p generated)).Pairwise fun a b =>
    a.1.entity = b.1.entity → ∀ key, generatedKey p a = some key → generatedKey p b ≠ some key

/-! ## The result follows the declared entities -/

section Result

variable {p : Params} {items : List Visit} {found : Collected} {flats : List Flat}
  {ofType : Text → List Flat}

theorem flat_of_visit (hc : Collects p items found)
    (hflats : flats = (found.ids.map Prod.fst).dedup.flatMap ofType)
    (hok : ∀ entity ∈ found.ids.map Prod.fst, TypeOk p found entity (ofType entity))
    {visit : Visit} (hvisit : visit ∈ items) {schema : EntitySchema}
    (hschema : p.schema visit.entity = some schema) {item : Entity}
    (hitem : withParent p visit = .ok item) :
    Flat.mk visit.entity (visit.id p) (flatEntry p found schema item) ∈ flats := by
  have hid : visit.key p ∈ found.ids := hc.ids ▸ List.mem_map_of_mem hvisit
  have hentity : visit.entity ∈ found.ids.map Prod.fst := List.mem_map_of_mem hid
  obtain ⟨hkeys, schema', hschema', hentries, -⟩ := hok visit.entity hentity
  have hmem : visit.key p ∈ (ofType visit.entity).map Flat.key := by
    rw [hkeys]
    exact List.mem_filter.mpr ⟨hid, by simp [Visit.key]⟩
  obtain ⟨flat, hflat, hkey⟩ := List.mem_map.mp hmem
  obtain ⟨item', hitem', hentity', hentry⟩ := hentries flat hflat
  obtain rfl := Option.some.inj (hschema.symm.trans hschema')
  simp only [Flat.key, Visit.key, Prod.mk.injEq] at hkey
  rw [hkey.2] at hitem'
  have hsame : found.byId visit.entity (visit.id p) = some item :=
    (hc.byId _ _ item).mpr ⟨visit, hvisit, rfl, hitem⟩
  obtain rfl := Option.some.inj (hsame.symm.trans hitem')
  have hflat' : flat = Flat.mk visit.entity (visit.id p) (flatEntry p found schema item) := by
    cases flat
    simp only [Flat.mk.injEq]
    exact ⟨hkey.1, hkey.2, hentry⟩
  rw [hflats, ← hflat']
  exact List.mem_flatMap.mpr ⟨visit.entity, List.mem_dedup.mpr hentity, hflat⟩

theorem visit_of_flat (hc : Collects p items found)
    (hflats : flats = (found.ids.map Prod.fst).dedup.flatMap ofType)
    (hok : ∀ entity ∈ found.ids.map Prod.fst, TypeOk p found entity (ofType entity))
    {flat : Flat} (hflat : flat ∈ flats) :
    ∃ visit ∈ items, ∃ schema item, p.schema visit.entity = some schema
      ∧ withParent p visit = .ok item
      ∧ flat = Flat.mk visit.entity (visit.id p) (flatEntry p found schema item) := by
  rw [hflats] at hflat
  obtain ⟨entity, hentity, hmem⟩ := List.mem_flatMap.mp hflat
  obtain ⟨-, schema, hschema, hentries, -⟩ := hok entity (List.mem_dedup.mp hentity)
  obtain ⟨item, hitem, rfl, hentry⟩ := hentries flat hmem
  obtain ⟨visit, hvisit, hkey, hparent⟩ := (hc.byId _ _ item).mp hitem
  simp only [Visit.key, Prod.mk.injEq] at hkey
  refine ⟨visit, hvisit, schema, item, hkey.1 ▸ hschema, hparent, ?_⟩
  cases flat
  simp only [Flat.mk.injEq]
  exact ⟨hkey.1.symm, hkey.2.symm, hentry⟩

theorem appears_flat {visit : Visit} {schema : EntitySchema}
    (hschema : p.schema visit.entity = some schema) {item : Entity}
    (hitem : withParent p visit = .ok item) :
    Appears p visit (Flat.mk visit.entity (visit.id p) (flatEntry p found schema item)) where
  entity := rfl
  id := rfl
  primaryKey := by
    intro schema' hschema'
    obtain rfl := Option.some.inj (hschema.symm.trans hschema')
    simp only [Visit.id, hschema]
    exact pkString_congr_get fun k hk => (get_flatEntry_primaryKey found hschema hitem hk).symm
  fields := by
    intro schema' hschema' field hfield hplain
    obtain rfl := Option.some.inj (hschema.symm.trans hschema')
    exact get_flatEntry_plain found hschema hitem hfield hplain

theorem target_of_visit (hc : Collects p items found)
    (hflats : flats = (found.ids.map Prod.fst).dedup.flatMap ofType)
    (hok : ∀ entity ∈ found.ids.map Prod.fst, TypeOk p found entity (ofType entity))
    {visit : Visit} (hvisit : visit ∈ items) :
    ∃ target ∈ flats, target.entity = visit.entity ∧ ∃ schema, p.schema visit.entity = some schema
      ∧ extractPkValues schema target.entry = extractPkValues schema visit.own
      ∧ ∀ item, withParent p visit = .ok item →
          extractPkValues schema item = extractPkValues schema visit.own := by
  obtain ⟨schema, item, hschema, hitem⟩ := hc.known visit hvisit
  refine ⟨_, flat_of_visit hc hflats hok hvisit hschema hitem, rfl, schema, hschema, ?_, ?_⟩
  · exact extractPkValues_congr fun k hk => get_flatEntry_primaryKey found hschema hitem hk
  · intro item' hitem'
    refine extractPkValues_congr fun k hk => ?_
    obtain ⟨field, hfield, rfl, hplain⟩ := schema.primaryKey_fields k hk
    exact withParent_get_plain hschema hitem' hfield hplain

theorem mem_fields_of_get {item : Entity} {k : Text} {value : FieldValue}
    (h : item.get k = some value) : (k, value) ∈ item.fields := by
  obtain ⟨l, r, heq, -⟩ := List.lookup_eq_some_iff.mp h
  simp [heq]

theorem foreignReference_of_field {entity : Text} {schema : EntitySchema}
    (hschema : p.schema entity = some schema) {field : Field} (hfield : field ∈ schema.fields)
    {reference : Text} (href : field.reference = some reference) :
    foreignReference p entity field.name = some reference := by
  have hfind : schema.field field.name = some field := by
    unfold EntitySchema.field
    cases hfind : schema.fields.find? fun other => decide (other.name = field.name) with
    | none => simpa using List.find?_eq_none.mp hfind field hfield
    | some other =>
      have hname : other.name = field.name := by simpa using List.find?_some hfind
      rw [field_unique schema (List.mem_of_find?_eq_some hfind) hfield hname]
  simp [foreignReference, hschema, hfind, href]

theorem found_of_reference (hc : Collects p items found)
    (hrefs : ∀ expected ∈ found.expected, expected.found found = true) {visit : Visit}
    (hvisit : visit ∈ items) {schema : EntitySchema}
    (hschema : p.schema visit.entity = some schema) {field : Field} (hfield : field ∈ schema.fields)
    {reference : Text} (href : field.reference = some reference) {value : FieldValue}
    (hvalue : visit.own.get field.name = some value) (hnull : value ≠ .null) :
    ∃ key entity, (value = .text key ∨ ∃ fk, value = .foreign fk ∧ fk.lookup (ofText "id") = some key)
      ∧ findEntity found (wsIdFor visit.own) key reference = some entity := by
  have hforeign := foreignReference_of_field hschema hfield href
  have hexpected := hrefs _ (hc.expected visit hvisit schema hschema _
    (List.mem_filterMap.mpr ⟨_, mem_fields_of_get hvalue, by simp [hnull, hforeign]; rfl⟩))
  unfold Expected.found Expected.lookupKey at hexpected
  cases value with
  | null => exact absurd rfl hnull
  | text s =>
    obtain ⟨entity, hentity⟩ := Option.isSome_iff_exists.mp hexpected
    exact ⟨s, entity, .inl rfl, by simpa using hentity⟩
  | foreign fk =>
    obtain ⟨entity, hentity⟩ := Option.isSome_iff_exists.mp hexpected
    obtain ⟨key, hkey, hentity⟩ := Option.bind_eq_some_iff.mp hentity
    exact ⟨key, entity, .inr ⟨fk, rfl, hkey⟩, hentity⟩

theorem extractPkValues_id {visit : Visit} {schema : EntitySchema} {k id : Text}
    (hschema : p.schema visit.entity = some schema) (hprimary : schema.primaryKey = [k])
    (htext : ∃ s, visit.own.get k = some (.text s)) (hid : visit.id p = id) :
    extractPkValues schema visit.own = [(k, id)] := by
  obtain ⟨s, hs⟩ := htext
  have hstring : s = id := by
    rw [← hid]
    simp [Visit.id, hschema, pkString, hprimary, hs, Declarative.tostring]
  simp [extractPkValues, hprimary, hs, hstring]

/-- Where `find_entity` finds an entity. -/
theorem visit_of_findEntity (hc : Collects p items found) {wsId key reference : Text}
    {entity : Entity} (h : findEntity found wsId key reference = some entity) :
    ∃ other ∈ items, other.entity = reference ∧ withParent p other = .ok entity
      ∧ ((∃ schema, p.schema reference = some schema ∧ useKey schema other.own = some (wsId, key))
        ∨ other.id p = key) := by
  unfold findEntity at h
  cases hkey : found.byKey wsId reference key with
  | some entity' =>
    obtain rfl : entity' = entity := by simpa [hkey] using h
    obtain ⟨other, hother, hentity, hparent, huse⟩ := hc.byKey _ _ _ _ hkey
    exact ⟨other, hother, hentity, hparent, .inl huse⟩
  | none =>
    obtain ⟨other, hother, hkey', hparent⟩ :=
      (hc.byId reference key entity).mp (by simpa [hkey] using h)
    simp only [Visit.key, Prod.mk.injEq] at hkey'
    exact ⟨other, hother, hkey'.1, hparent, .inr hkey'.2⟩

theorem foreignKeysFound (hc : Collects p items found)
    (hrefs : ∀ expected ∈ found.expected, expected.found found = true)
    (hparents : ParentAmong none items)
    (hids : ∀ visit ∈ items, ∀ schema, p.schema visit.entity = some schema →
      ∀ k, schema.primaryKey = [k] → ∃ s, visit.own.get k = some (.text s))
    (hflats : flats = (found.ids.map Prod.fst).dedup.flatMap ofType)
    (hok : ∀ entity ∈ found.ids.map Prod.fst, TypeOk p found entity (ofType entity))
    {flat : Flat} (hflat : flat ∈ flats) :
    ∃ visit ∈ items, Appears p visit flat ∧ ForeignKeysFound p items flats visit flat := by
  obtain ⟨visit, hvisit, schema, item, hschema, hitem, rfl⟩ := visit_of_flat hc hflats hok hflat
  refine ⟨visit, hvisit, appears_flat hschema hitem, ?_⟩
  intro schema' hschema' field hfield reference href htables value hvalue hnull
  obtain rfl := Option.some.inj (hschema.symm.trans hschema')
  rw [get_flatEntry p found schema item hfield] at hvalue
  rcases withParent_get hitem field.name with hown | ⟨parent, fk, hparent, hfk, hchild, hget⟩
  · -- the reference is given in the item
    unfold flatValue at hvalue
    rw [href, hown, withParent_wsId hitem] at hvalue
    cases hgiven : visit.own.get field.name with
    | none => simp [hgiven] at hvalue
    | some given =>
      have hne : given ≠ .null := by
        rintro rfl
        obtain rfl : FieldValue.null = value := by simpa [hgiven] using hvalue
        exact hnull rfl
      obtain ⟨key, entity, hkey, hfind⟩ :=
        found_of_reference hc hrefs hvisit hschema hfield href hgiven hne
      obtain ⟨other, hother, rfl, hparent, hwhere⟩ := visit_of_findEntity hc hfind
      obtain ⟨target, htarget, hentity, schema', hschema', hpk, hpkOther⟩ :=
        target_of_visit hc hflats hok hother
      refine ⟨target, htarget, hentity, schema', hschema', ?_⟩
      rcases hkey with rfl | ⟨fk, rfl, hlookup⟩
      · obtain rfl : FieldValue.foreign (extractPkValues schema' entity) = value := by
          simpa [hgiven, hfind, hschema'] using hvalue
        rw [hpk, hpkOther entity hparent]
      · obtain rfl : FieldValue.foreign fk = value := by simpa [hgiven] using hvalue
        obtain ⟨schema'', id, hschema'', hprimary, rfl, hnoKey⟩ := htables fk hgiven
        obtain rfl := Option.some.inj (hschema'.symm.trans hschema'')
        obtain rfl : id = key := by simpa using hlookup
        rcases hwhere with ⟨schema'', hschema'', huse⟩ | hid
        · obtain rfl := Option.some.inj (hschema'.symm.trans hschema'')
          exact absurd huse (hnoKey other hother rfl)
        · rw [hpk, extractPkValues_id hschema' hprimary
            (hids other hother schema' hschema' _ hprimary) hid]
  · -- the item is in the entity it refers to
    obtain ⟨other, hother, hsome⟩ := (hparents visit hvisit).resolve_left (by simp [hparent])
    obtain rfl : parent = ⟨other.entity, other.own⟩ := Option.some.inj (hparent.symm.trans hsome)
    obtain ⟨field', hfield', hname, href'⟩ := foreignChild_some hschema hchild
    obtain rfl := field_unique schema hfield' hfield hname
    obtain rfl : other.entity = reference := Option.some.inj (href'.symm.trans href)
    obtain ⟨target, htarget, hentity, schema', hschema', hpk, -⟩ :=
      target_of_visit hc hflats hok hother
    refine ⟨target, htarget, hentity, schema', hschema', ?_⟩
    obtain ⟨parentSchema, hparentSchema, hfk⟩ := MapM.bind_ok hfk
    obtain rfl := Option.some.inj (hschema'.symm.trans (orRaise_ok hparentSchema))
    obtain rfl := Except.ok.inj hfk
    obtain rfl : FieldValue.foreign (extractPkValues schema' other.own) = value := by
      simpa [flatValue, hget, href] using hvalue
    rw [hpk]

theorem mem_ofType (hflats : flats = (found.ids.map Prod.fst).dedup.flatMap ofType)
    (hok : ∀ entity ∈ found.ids.map Prod.fst, TypeOk p found entity (ofType entity))
    {flat : Flat} (hflat : flat ∈ flats) : flat ∈ ofType flat.entity := by
  rw [hflats] at hflat
  obtain ⟨entity, hentity, hmem⟩ := List.mem_flatMap.mp hflat
  obtain ⟨-, schema, -, hentries, -⟩ := hok entity (List.mem_dedup.mp hentity)
  obtain ⟨item, -, rfl, -⟩ := hentries flat hmem
  exact hmem

theorem getUniqueKey_isSome {schema : EntitySchema} {field : Field} {value : FieldValue}
    (item : Entity) (h : Compared schema field value) :
    ∃ key, getUniqueKey schema item field value = some key := by
  unfold getUniqueKey
  cases value with
  | null => cases h
  | text s =>
    split
    · exact ⟨_, rfl⟩
    · exact ⟨_, rfl⟩
  | foreign fk => simp [h.1, h.2]

theorem getUniqueKey_congr {schema : EntitySchema} {item item' : Entity} {field : Field}
    {value : FieldValue} (h : wsIdFor item = wsIdFor item') :
    getUniqueKey schema item field value = getUniqueKey schema item' field value := by
  unfold getUniqueKey
  rw [h]

theorem uniqueEntry_of_value {schema : EntitySchema} {item : Entity} {field : Field}
    {value : FieldValue} {key : Text} (hunique : field.unique = true)
    (hvalue : flatValue p found item field = some value) (hcompared : Compared schema field value)
    (hkey : getUniqueKey schema item field value = some key) :
    uniqueEntry p found schema item field = some (field.name, key) := by
  unfold uniqueEntry uniqueField
  rw [hunique, if_pos rfl, hvalue]
  cases value with
  | null => cases hcompared
  | text s => simp [hkey]
  | foreign fk => simp [hkey]

theorem uniqueDiffer (hc : Collects p items found)
    (hflats : flats = (found.ids.map Prod.fst).dedup.flatMap ofType)
    (hok : ∀ entity ∈ found.ids.map Prod.fst, TypeOk p found entity (ofType entity)) :
    UniqueDiffer p items flats := by
  intro visit hvisit visit' hvisit' flat hflat flat' hflat' happears happears' hentity hwsId schema
    hschema field hfield hunique value hcompared hvalue hvalue'
  have hnodup : (items.map (Visit.key p)).Nodup := hc.ids ▸ hc.nodup
  have hmem := mem_ofType hflats hok hflat
  have hmem' := mem_ofType hflats hok hflat'
  obtain ⟨visit₁, hvisit₁, schema₁, item, hschema₁, hitem, rfl⟩ := visit_of_flat hc hflats hok hflat
  obtain ⟨visit₂, hvisit₂, schema₂, item', hschema₂, hitem', rfl⟩ :=
    visit_of_flat hc hflats hok hflat'
  obtain rfl := List.inj_on_of_nodup_map hnodup hvisit₁ hvisit
    (Prod.ext happears.entity happears.id)
  obtain rfl := List.inj_on_of_nodup_map hnodup hvisit₂ hvisit'
    (Prod.ext happears'.entity happears'.id)
  obtain rfl := Option.some.inj (hschema.symm.trans hschema₁)
  obtain rfl := Option.some.inj (hschema₂.symm.trans (hentity ▸ hschema))
  rw [get_flatEntry p found schema₂ item hfield] at hvalue
  rw [get_flatEntry p found schema₂ item' hfield] at hvalue'
  obtain ⟨key, hkey⟩ := getUniqueKey_isSome item hcompared
  have hkey' : getUniqueKey schema₂ item' field value = some key := by
    rw [← hkey]
    exact getUniqueKey_congr
      ((withParent_wsId hitem').trans (hwsId.symm.trans (withParent_wsId hitem).symm))
  have hid : visit₁.id p = visit₂.id p := by
    have hentityMem : visit₁.entity ∈ found.ids.map Prod.fst :=
      List.mem_map_of_mem (hc.ids ▸ List.mem_map_of_mem hvisit)
    obtain ⟨-, schema', hschema', -, hdiffer⟩ := hok visit₁.entity hentityMem
    obtain rfl := Option.some.inj (hschema.symm.trans hschema')
    simp only [← hentity] at hmem'
    exact hdiffer _ hmem _ hmem' item item'
      ((hc.byId _ _ _).mpr ⟨visit₁, hvisit, rfl, hitem⟩)
      ((hc.byId _ _ _).mpr ⟨visit₂, hvisit', by rw [Visit.key, hentity], hitem'⟩) field hfield
      (field.name, key) (uniqueEntry_of_value hunique hvalue hcompared hkey)
      (uniqueEntry_of_value hunique hvalue' hcompared hkey')
  obtain rfl := List.inj_on_of_nodup_map hnodup hvisit hvisit' (Prod.ext hentity hid)
  obtain rfl := Except.ok.inj (hitem.symm.trans hitem')
  rfl

end Result

/-! ## Generated ids differ -/

theorem getKeyForUuidGen_some {p : Params} {schema : EntitySchema} {parent : Option Parent}
    {entity : Text} {item : Entity} {pkName key : Text}
    (h : getKeyForUuidGen p schema parent entity item = .ok (some (pkName, key))) :
    schema.primaryKey = [pkName] ∧ item.get pkName = none := by
  have hmap : ∀ {x : Except Failure (Option Text)} {name : Text},
      (do return (← x).map (name, ·)) = Except.ok (some (pkName, key)) → name = pkName := by
    intro x name hx
    obtain ⟨key', -, hx⟩ := MapM.bind_ok hx
    obtain ⟨_, -, heq⟩ := Option.map_eq_some_iff.mp (Except.ok.inj hx)
    exact congrArg Prod.fst heq
  unfold getKeyForUuidGen at h
  split at h
  · rename_i name hname
    split at h
    · cases h
    · rename_i hgiven
      have hnone : item.get name = none := by
        cases hget : item.get name with
        | none => rfl
        | some value => simp [hget] at hgiven
      split at h
      · rw [← hmap h]
        exact ⟨hname, hnone⟩
      · rw [← hmap h]
        exact ⟨hname, hnone⟩
      · cases h
  · cases h

theorem keeps_of_given {p : Params} {visit done : Visit} (h : Given p visit done) :
    Keeps p visit done := by
  obtain ⟨hentity, hgenerate⟩ := h
  refine ⟨hentity, fun schema hschema k hk value hvalue => ?_⟩
  obtain ⟨schema', hschema', hgenerate⟩ := MapM.bind_ok hgenerate
  obtain rfl := Option.some.inj (hschema.symm.trans (orRaise_ok hschema'))
  obtain ⟨generated, hkey, hgenerate⟩ := MapM.bind_ok hgenerate
  cases generated with
  | none =>
    rw [← Except.ok.inj hgenerate]
    exact hvalue
  | some pair =>
    obtain ⟨hprimary, hnone⟩ := getKeyForUuidGen_some hkey
    obtain rfl : k = pair.1 := by simpa [hprimary] using hk
    rw [hnone] at hvalue
    cases hvalue

theorem forall₂_keeps {p : Params} {items generated processed : List Visit}
    (hgiven : List.Forall₂ (Given p) items generated)
    (hkeeps : List.Forall₂ (Keeps p) generated processed) :
    List.Forall₂ (Keeps p) items processed := by
  induction hgiven generalizing processed with
  | nil => simpa using hkeeps
  | cons hhead _ ih =>
    cases hkeeps with
    | cons hkeep hrest =>
      refine .cons ?_ (ih hrest)
      obtain ⟨hentity, hvalues⟩ := keeps_of_given hhead
      refine ⟨hkeep.1.trans hentity, fun schema hschema k hk value hvalue => ?_⟩
      exact hkeep.2 schema (hentity ▸ hschema) k hk value (hvalues schema hschema k hk value hvalue)

theorem key_of_generatedKey {p : Params} {visit done last : Visit} (hgiven : Given p visit done)
    (hkeeps : Keeps p done last) {key : Text} (h : generatedKey p (visit, done) = some key) :
    last.key p = (visit.entity, p.generateUuid visit.entity key) := by
  obtain ⟨hentity, hgenerate⟩ := hgiven
  obtain ⟨hlast, hkeeps⟩ := hkeeps
  unfold generatedKey at h
  cases hschema : p.schema visit.entity with
  | none => simp [hschema] at h
  | some schema =>
    simp only [hschema] at h
    obtain ⟨schema', hschema', hgenerate⟩ := MapM.bind_ok hgenerate
    obtain rfl := Option.some.inj (hschema.symm.trans (orRaise_ok hschema'))
    obtain ⟨generated, hkey, hgenerate⟩ := MapM.bind_ok hgenerate
    rw [hkey] at h
    cases generated with
    | none => simp at h
    | some pair =>
      obtain ⟨pkName, key'⟩ := pair
      obtain rfl : key' = key := by simpa using h
      have hprimary := (getKeyForUuidGen_some hkey).1
      have hown := Except.ok.inj hgenerate
      have hget : done.own.get pkName = some (.text (p.generateUuid schema.name key')) := by
        rw [← hown, get_set, if_pos rfl]
      have hid := hkeeps schema (hentity ▸ hschema) pkName (by simp [hprimary]) _ hget
      have hsame : last.entity = visit.entity := hlast.trans hentity
      rw [Visit.key, Visit.id, hsame, hschema]
      simp [pkString, hprimary, hid, Declarative.tostring, schema_name hschema]

theorem pairwise_generatedKey {p : Params} {items generated processed : List Visit}
    (hgiven : List.Forall₂ (Given p) items generated)
    (hkeeps : List.Forall₂ (Keeps p) generated processed)
    (hnodup : (processed.map (Visit.key p)).Nodup) :
    (items.zip generated).Pairwise fun a b =>
      a.1.entity = b.1.entity → ∀ key, generatedKey p a = some key →
        generatedKey p b ≠ some key := by
  rw [List.pairwise_iff_getElem]
  intro i j hi hj hij hentity key hkey hkey'
  simp only [List.length_zip, Nat.lt_min] at hi hj
  simp only [List.getElem_zip] at hentity hkey hkey'
  have hlength := hkeeps.length_eq
  have hkeyAt := key_of_generatedKey (hgiven.get hi.1 hi.2) (hkeeps.get hi.2 (hlength ▸ hi.2)) hkey
  have hkeyAt' := key_of_generatedKey (hgiven.get hj.1 hj.2) (hkeeps.get hj.2 (hlength ▸ hj.2))
    hkey'
  have hne := List.pairwise_iff_getElem.mp hnodup i j (by simpa [← hlength] using hi.2)
    (by simpa [← hlength] using hj.2) hij
  simp only [List.getElem_map] at hne
  refine hne (hkeyAt.trans (Eq.trans ?_ hkeyAt'.symm))
  simp only [List.get_eq_getElem, hentity]

/-! ## Accepted configurations -/

/-- The result of an accepted configuration is sound. -/
theorem flatten_sound (p : Params) (input : Input) (hp : Processes p input) (flats : List Flat)
    (h : flatten p input = .ok flats) :
    ∃ generated processed, generateIds p none input = .ok generated
      ∧ p.processAutoFields generated = some processed
      ∧ Sound p input generated processed flats := by
  unfold flatten at h
  split at h
  · obtain ⟨processed, hprocess, h⟩ := MapM.bind_ok h
    obtain ⟨found, hfound, h⟩ := MapM.bind_ok h
    obtain ⟨generated, hgenerated, hprocess⟩ := MapM.bind_ok hprocess
    have hprocess := orRaise_ok hprocess
    obtain ⟨hc, hrefs⟩ := validateReferences_ok hfound
    obtain ⟨ofType, hflats, hok⟩ := flattenEntities_ok h
    have hgiven : List.Forall₂ (Given p) (declared p input) (declared p generated) :=
      given_generateIds rfl hgenerated
    have hkeeps := hp.keeps generated processed hgenerated hprocess
    have hperm := perm_keys hc.nodup hflats hok
    have hnodup : ((declared p processed).map (Visit.key p)).Nodup := hc.ids ▸ hc.nodup
    refine ⟨generated, processed, hgenerated, hprocess, ?_, ⟨?_, ?_⟩, ?_, ?_, ?_, ?_⟩
    · exact forall₂_keeps hgiven hkeeps
    · exact hperm.nodup_iff.mpr hc.nodup
    · exact hc.ids ▸ hperm
    · intro visit hvisit
      obtain ⟨schema, item, hschema, hitem⟩ := hc.known visit hvisit
      exact ⟨_, flat_of_visit hc hflats hok hvisit hschema hitem, appears_flat hschema hitem⟩
    · intro flat hflat
      exact foreignKeysFound hc hrefs (parentAmong_visits p none 0 processed)
        (hp.ids generated processed hgenerated hprocess) hflats hok hflat
    · exact uniqueDiffer hc hflats hok
    · exact pairwise_generatedKey hgiven hkeeps hnodup
  · cases h

/-! ## Two configurations -/

def plainField (name : String) (unique : Bool) : Field where
  name := ofText name
  reference := none
  unique := unique
  uniqueAcrossWs := false

def foreignField (name reference : String) : Field where
  name := ofText name
  reference := some (ofText reference)
  unique := false
  uniqueAcrossWs := false

/-- The attributes of an id that is a UUID, and of other fields. -/
def idAttributes (name : Text) : Attributes where
  auto := name = ofText "id"
  uuid := name = ofText "id"
  required := name = ofText "name"
  cascade := false
  transient := false

def serviceSchema : EntitySchema where
  name := ofText "services"
  primaryKey := [ofText "id"]
  fields := [plainField "id" false, plainField "name" true]
  workspaceable := true
  cacheKey := none
  ttl := false
  endpointKey := some (ofText "name")
  attributes := idAttributes
  names_nodup := by decide +kernel
  primaryKey_fields := by decide +kernel

def pluginSchema : EntitySchema where
  name := ofText "plugins"
  primaryKey := [ofText "id"]
  fields := [plainField "id" false, plainField "name" false, foreignField "route" "routes",
    foreignField "service" "services", foreignField "consumer" "consumers"]
  workspaceable := true
  cacheKey := some [ofText "name", ofText "route", ofText "service", ofText "consumer"]
  ttl := false
  endpointKey := none
  attributes := idAttributes
  names_nodup := by decide +kernel
  primaryKey_fields := by decide +kernel

/-- A generated id is written as the type and the key. -/
def sampleParams : Params where
  allSchemas := [serviceSchema, pluginSchema]
  validate := fun _ => true
  validateFull := fun _ => true
  generateUuid := fun entity key => entity ++ colon :: key
  processAutoFields := some

def sampleEntity (fields : List (String × FieldValue)) : Entity where
  fields := fields.map fun (name, value) => (ofText name, value)
  wsId := none
  ttl := none

/-- A plugin for all routes and consumers. -/
def corsPlugin (fields : List (String × FieldValue)) : Entity :=
  sampleEntity (fields ++ [("name", .text (ofText "cors")), ("route", .null), ("consumer", .null)])

def serviceId : Text := ofText "1a6b4bd6-0b5b-4f0c-9d2e-0a4f6d2f8a01"

/-- A service with a plugin inside it, and a plugin that names it. -/
def nestedPlugin : Input :=
  [(ofText "services", [.mk
      (sampleEntity [("id", .text serviceId), ("name", .text (ofText "example"))])
      [(ofText "plugins", [.mk (corsPlugin []) []])]]),
    (ofText "plugins", [.mk (corsPlugin
      [("id", .text (ofText "2b6b4bd6-0b5b-4f0c-9d2e-0a4f6d2f8a02")),
        ("service", .text (ofText "example"))]) []])]

/-- The result of flattening, as far as a test looks at it. -/
def flattened (input : Input) : List Flat :=
  match flatten sampleParams input with
  | .ok flats => flats
  | .error _ => []

def isTextValue : FieldValue → Bool
  | .text _ => true
  | _ => false

theorem processes_nestedPlugin : Processes sampleParams nestedPlugin := by
  have hids : ((generateIds sampleParams none nestedPlugin).toOption.map fun generated =>
      (declared sampleParams generated).all fun visit =>
        (visit.own.get (ofText "id")).any isTextValue) = some true := by
    decide +kernel
  constructor
  · intro generated processed _ hprocess
    obtain rfl := Option.some.inj hprocess
    exact List.forall₂_same.mpr fun visit _ => ⟨rfl, fun _ _ _ _ _ hvalue => hvalue⟩
  · intro generated processed hgenerated hprocess visit hvisit schema hschema k hk
    obtain rfl := Option.some.inj hprocess
    have hmem := List.mem_of_find?_eq_some hschema
    simp only [sampleParams, List.mem_cons, List.not_mem_nil, or_false] at hmem
    obtain rfl : ofText "id" = k := by
      rcases hmem with rfl | rfl
      · exact List.head_eq_of_cons_eq hk
      · exact List.head_eq_of_cons_eq hk
    rw [hgenerated] at hids
    have hall : ((declared sampleParams generated).all fun visit =>
        (visit.own.get (ofText "id")).any isTextValue) = true := Option.some.inj hids
    obtain ⟨value, hvalue, htext⟩ :=
      (Option.any_eq_true _ _).mp (List.all_eq_true.mp hall visit hvisit)
    cases value with
    | text s => exact ⟨s, hvalue⟩
    | _ => cases htext

/-- A service and its two plugins are in the result. -/
theorem nested_plugin_sound :
    ∃ generated processed, generateIds sampleParams none nestedPlugin = .ok generated
      ∧ sampleParams.processAutoFields generated = some processed
      ∧ Sound sampleParams nestedPlugin generated processed (flattened nestedPlugin) :=
  flatten_sound sampleParams nestedPlugin processes_nestedPlugin (flattened nestedPlugin)
    (by decide +kernel)

/-- The plugin inside the service and the one that names it have ids of
their own and the same values in the fields of their cache key. -/
theorem plugins_share_cache_key :
    ∃ flat ∈ flattened nestedPlugin, ∃ flat' ∈ flattened nestedPlugin,
      flat.entity = pluginSchema.name ∧ flat'.entity = pluginSchema.name ∧ flat.id ≠ flat'.id
      ∧ ∀ k ∈ pluginSchema.cacheKey.getD [], flat.entry.get k = flat'.entry.get k := by
  decide +kernel

end KongGateway.Kong.Db.DeclarativeConfig
